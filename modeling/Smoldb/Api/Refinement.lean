import Smoldb.Api.Database

/-!
# The API does what it is for

A node depicts a database: it represents a catalog, and the entries of the catalog are the tables.
`Node.Depicts` is that simulation.  A slot of a table is a key in the tree of a shard, and the point
in the slot is what the text under the key was written for, so it takes `Crates.PointsRoundTrip` for
the API to return it.

* `Node.Depicts.handle` is one request, which takes a node that depicts a database to one that
  depicts what the request makes of it, and answers as the database does.  There is a lemma for each
  kind of request; the names of collections that are created have to be names of files
  (`Http.Request.Proper`).
* A restart changes nothing (`Node.Depicts.start`).
* `run_start` puts them together, by induction over the events.

`api_refines_database` is what that makes of a run.  Two more theorems follow from what is known of
databases, without another look at the node: `api_isolates_collections` is about somebody who only
ever asks for one collection, to whom it makes no difference what else a node is asked, and
`api_refusals_have_no_effect` about requests that are turned down, after which everything is as if
they had not been made.
-/

set_option autoImplicit false

namespace Smoldb

open LastWrite

variable {V : Type} {X : Crates V} {J : ConfigJson} {peer : PeerId}

/-! ## Entries and tables -/

/-- The trees of an entry have the points of a table. -/
structure CatalogEntry.Depicts (e : CatalogEntry) (t : Table X) : Prop where
  config : e.config = ⟨t.params⟩
  rows : ∀ s k, (e.trees s)[k]? = (t.row (s, k)).map X.encode

namespace CatalogEntry

theorem depicts_empty (X : Crates V) (params : String) :
    Depicts ⟨⟨params⟩, fun _ ↦ ∅⟩ (Table.empty X params) :=
  ⟨rfl, fun _ _ ↦ Std.ExtTreeMap.getElem?_empty⟩

theorem Depicts.upsert {e : CatalogEntry} {t : Table X} (h : e.Depicts t)
    (points : List (Point V)) : (e.upsert X points).Depicts (t.write points) := by
  refine ⟨h.config, fun s k ↦ ?_⟩
  rw [CatalogEntry.upsert, Segment.getElem?_putAll, h.rows, Table.write, last_shardPoints,
    Option.map_or]
  rfl

section Depicts

variable [X.PointsRoundTrip] {e : CatalogEntry} {t : Table X} (h : e.Depicts t)

include h

theorem Depicts.segment_read (s : ShardId) (k : String) :
    Segment.read X (e.trees s) k = t.row (s, k) := by
  rw [Segment.read, h.rows]
  cases t.row (s, k) with
  | none => rfl
  | some p => simp [Except.toOption]

theorem Depicts.read (id : PointId) : e.read X (homeShard X id) id = t.get id :=
  h.segment_read _ _

/-- The points of a shard. -/
theorem Depicts.mem_points {s : ShardId} {p : Point V} :
    p ∈ Segment.points X (e.trees s) ↔ t.Has p ∧ homeShard X p.id = s := by
  simp only [Segment.mem_points, h.segment_read, Table.row_eq_some_iff, slotOf, Prod.mk.injEq]
  constructor
  · rintro ⟨k, ⟨hs, -⟩, hp⟩
    exact ⟨hp, hs⟩
  · rintro ⟨hp, hs⟩
    exact ⟨_, ⟨hs, rfl⟩, hp⟩

theorem Depicts.lists {p : Point V} : e.Lists X none p ↔ t.Has p := by
  simp only [Lists, h.mem_points]
  constructor
  · rintro ⟨s, -, -, hp, -⟩
    exact hp
  · intro hp
    exact ⟨_, homeShard_eq X p.id, by simp, hp, rfl⟩

end Depicts

end CatalogEntry

/-- A catalog has the tables of a database. -/
def Catalog.Depicts (cat : Catalog) (db : Database X) : Prop :=
  ∀ name, Option.Rel CatalogEntry.Depicts (cat name) (db name)

namespace Catalog.Depicts

variable {cat : Catalog} {db : Database X} (h : cat.Depicts db) {name : CollectionName}

include h

theorem of_some {e : CatalogEntry} (he : cat name = some e) :
    ∃ t, db name = some t ∧ e.Depicts t := by
  have hrel := h name
  rw [he] at hrel
  cases hdb : db name with
  | none => rw [hdb] at hrel; cases hrel
  | some t =>
    rw [hdb] at hrel
    cases hrel with
    | some hrel => exact ⟨t, rfl, hrel⟩

theorem of_none (he : cat name = none) : db name = none := by
  have hrel := h name
  rw [he] at hrel
  cases hdb : db name with
  | none => rfl
  | some t => rw [hdb] at hrel; cases hrel

theorem update {e : Option CatalogEntry} {t : Option (Table X)}
    (het : Option.Rel CatalogEntry.Depicts e t) :
    Catalog.Depicts (Function.update cat name e) (Function.update db name t) := by
  intro n
  by_cases hn : n = name
  · subst hn
    rwa [Function.update_self, Function.update_self]
  · rw [Function.update_of_ne hn, Function.update_of_ne hn]
    exact h n

end Catalog.Depicts

/-! ## What an open collection says of itself -/

namespace Collection.Opened

variable {c : Collection X} {name : CollectionName} {config : CollectionConfig}
  (h : c.Opened name config)

include h

/-- The shards of an open collection, in some order. -/
theorem entries_perm : c.replicaHolder.shards.entries.Perm
    [⟨0, openedShard name 0⟩, ⟨1, openedShard name 1⟩] := by
  refine List.lookup_ext c.replicaHolder.shards.nodupKeys (by simp [List.NodupKeys, List.keys])
    fun s rs ↦ ?_
  have hlookup : c.replicaHolder.shards.entries.dlookup s = _ := h.shards s
  rw [hlookup]
  by_cases h0 : s = 0
  · subst h0
    simp
  · by_cases h1 : s = 1
    · subst h1
      simp [List.dlookup_cons_ne]
    · simp [List.dlookup_cons_ne, h0, h1]

theorem collectionInfo : CollectionInfo.ofCollection c = ⟨name, config, 2, 2⟩ := by
  have hperm := h.entries_perm
  rw [CollectionInfo.ofCollection, h.id, h.config, hperm.length_eq, (hperm.map _).sum_eq]
  rfl

/-- What an open collection says of its shards. -/
theorem clusterInfo (peer : PeerId) (w : Stores) : ∃ localShards,
    CollectionClusterInfo.ofCollection c peer name w = ⟨0, 2, localShards, []⟩ ∧
      localShards.Perm [⟨0, Segment.countPoints (w ⟨peer, name, 0⟩ 0), "Active"⟩,
        ⟨1, Segment.countPoints (w ⟨peer, name, 1⟩ 0), "Active"⟩] := by
  have hperm := h.entries_perm
  have hremote : (c.replicaHolder.shards.entries.flatMap fun e ↦ e.2.remotes.map fun remote ↦
      (⟨remote.peerId, remote.id, "Active"⟩ : CollectionClusterRemoteShard)) = [] := by
    rw [List.flatMap_eq_nil_iff]
    intro e he
    rw [h.remotes_eq_nil e.1 e.2 (AList.mem_lookup_iff.mpr he), List.map_nil]
  rw [CollectionClusterInfo.ofCollection, hperm.length_eq, hremote]
  exact ⟨_, rfl, hperm.map _⟩

end Collection.Opened

/-- Without remotes, a list asks the node alone. -/
theorem Collection.getPoints_none_of_no_remotes {c : Collection X}
    (h : ∀ s rs, c.replicaHolder.shards.lookup s = some rs → rs.remotes = [])
    {read : ShardId → Replica → Option (List PointId) → Option (CollectionResult (List (Point V)))}
    {order : IterOrder (ShardId × List PointId)} {shardId : Option ShardId} {localOnly : Bool}
    {ps : List (Point V)} :
    c.getPoints read order none shardId localOnly = some (.ok ps) ↔
      c.getPoints read order none shardId true = some (.ok ps) := by
  have hreplicas : ∀ entry ∈ selected shardId c.replicaHolder.shards.entries,
      entry.2.replicas localOnly = entry.2.replicas true := by
    intro entry hentry
    have hlookup := AList.mem_lookup_iff.mpr (mem_selected.mp hentry).1
    rw [ReplicaSet.replicas, ReplicaSet.replicas, h _ _ hlookup]
    cases localOnly <;> rfl
  have hlists : ∀ entry ∈ selected shardId c.replicaHolder.shards.entries,
      (Lists read localOnly entry ↔ Lists read true entry) := by
    intro entry hentry
    rw [Lists, Lists, hreplicas entry hentry]
  have hlisted : (selected shardId c.replicaHolder.shards.entries).flatMap
        (listedAll read localOnly)
      = (selected shardId c.replicaHolder.shards.entries).flatMap (listedAll read true) :=
    List.flatMap_congr fun entry hentry ↦ by rw [listedAll, listedAll, hreplicas entry hentry]
  rw [getPoints_none, getPoints_none, hlisted, forall₂_congr hlists]

/-! ## Nodes and databases -/

/-- A node has the tables of a database, in memory and on disk. -/
def Node.Depicts (J : ConfigJson) (peer : PeerId) (node : Node X) (db : Database X) : Prop :=
  ∃ cat : Catalog, node.Represents J peer cat ∧ cat.Depicts db

namespace Node.Represents

variable [X.PointsRoundTrip] {node : Node X} {cat : Catalog} (h : node.Represents J peer cat)
  {db : Database X} (hdb : cat.Depicts db) {name : CollectionName}

include h

/-- Everything a node with sound trees has can be read. -/
theorem readable_trees {e : CatalogEntry} (he : cat name = some e) (s : ShardId) :
    Segment.Readable X (e.trees s) := by
  obtain ⟨c, hc, -, -⟩ := h.memory.of_some he
  rw [← h.stores he]
  exact ((h.placed_node he hc).sound s).readable

include hdb

/-- **What is retrieved by id.** -/
theorem retrievePoints_id (order : IterOrder (ShardId × List PointId)) (id : PointId) :
    node.retrievePoints peer order name (some [id]) = some (match db name with
      | some t => .ok (t.get id).toList
      | none => .error (Database.missing name)) := by
  rw [Node.retrievePoints]
  cases he : cat name with
  | none =>
    rw [h.memory.lookup_of_none he, hdb.of_none he]
    rfl
  | some e =>
    obtain ⟨c, hc, -, -⟩ := h.memory.of_some he
    obtain ⟨t, ht, hdepicts⟩ := hdb.of_some he
    obtain ⟨ps, hps, hperm⟩ := h.getPoints_ids_clean he hc order [id]
      (fun id _ ↦ h.readable_trees he _ id.intoString) false
    rw [List.filterMap_cons, List.filterMap_nil, hdepicts.read] at hperm
    rw [hc, ht]
    simp only [hps]
    cases hget : t.get id with
    | none =>
      rw [hget] at hperm
      rw [hperm.eq_nil]
      rfl
    | some p =>
      rw [hget] at hperm
      rw [List.perm_singleton.mp hperm]
      rfl

/-- **What is listed.** -/
theorem retrievePoints_list (order : IterOrder (ShardId × List PointId)) (name : CollectionName) :
    ∃ r, node.retrievePoints peer order name none = some r ∧ match db name with
      | some t => ∃ ps, r = .ok ps ∧ t.IsList ps
      | none => r = .error (Database.missing name) := by
  rw [Node.retrievePoints]
  cases he : cat name with
  | none =>
    rw [h.memory.lookup_of_none he, hdb.of_none he]
    exact ⟨_, rfl, rfl⟩
  | some e =>
    obtain ⟨c, hc, hopened, -⟩ := h.memory.of_some he
    obtain ⟨t, ht, hdepicts⟩ := hdb.of_some he
    obtain ⟨ps, hps, hsorted, hmem⟩ := h.getPoints_list_clean he hc order none
      fun s _ _ ↦ h.readable_trees he s
    have hall : node.getPoints peer name c order none none false = some (.ok ps) :=
      (Collection.getPoints_none_of_no_remotes hopened.remotes_eq_nil).mpr hps
    rw [hc, ht]
    simp only [hall]
    exact ⟨_, rfl, ps, rfl, hsorted, fun p ↦ by rw [hmem, hdepicts.lists]⟩

omit hdb in
/-- A shard counts the points it has. -/
theorem countPoints_eq {e : CatalogEntry} {t : Table X} (he : cat name = some e)
    (hdepicts : e.Depicts t) (s : ShardId) :
    Segment.countPoints (node.memory.stores ⟨peer, name, s⟩ 0) = t.count s := by
  obtain ⟨c, hc, -, -⟩ := h.memory.of_some he
  have hplaced := h.placed_node he hc
  have hnodup : (node.memory.stores.points X peer name s).Nodup :=
    (hplaced.points_ids_nodup s).of_map
  rw [Segment.countPoints, ← (hplaced.sound.readable s).length_points, ← Stores.points,
    Table.count_eq_length hnodup]
  intro p
  rw [Stores.points, h.stores he, hdepicts.mem_points]

end Node.Represents

/-- A collection that is created has a name that can be the name of a file. -/
def Http.Request.Proper : Http.Request V → Prop
  | createCollection name _ => Path.IsFileName name
  | _ => True

/-! ## One request -/

namespace Node.Depicts

open Http

variable {node : Node X} {db : Database X} (h : node.Depicts J peer db)
  (env : Env) {name : CollectionName}

include h

theorem handle_getCollections : ∃ r,
    Http.handle J peer env node .getCollections = (node, some r) ∧
      db.Answers .getCollections r := by
  obtain ⟨cat, h, hdb⟩ := h
  refine ⟨_, rfl, _, rfl, node.memory.toc.collections.keys_nodup, fun name ↦ ?_⟩
  rw [← AList.mem_keys, h.memory.mem_iff]
  cases he : cat name with
  | none => simp [hdb.of_none he]
  | some e =>
    obtain ⟨t, ht, -⟩ := hdb.of_some he
    simp [ht]

theorem handle_getCollection : ∃ r,
    Http.handle J peer env node (.getCollection name) = (node, some r) ∧
      db.Answers (.getCollection name) r := by
  obtain ⟨cat, h, hdb⟩ := h
  refine ⟨_, rfl, ?_⟩
  rw [Database.Answers, getCollection]
  cases he : cat name with
  | none =>
    rw [h.memory.lookup_of_none he, hdb.of_none he]
    rfl
  | some e =>
    obtain ⟨c, hc, hopened, -⟩ := h.memory.of_some he
    obtain ⟨t, ht, hdepicts⟩ := hdb.of_some he
    rw [hc, ht]
    simp only [hopened.collectionInfo, hdepicts.config]
    rfl

theorem handle_getCollectionClusterInfo [X.PointsRoundTrip] : ∃ r,
    Http.handle J peer env node (.getCollectionClusterInfo name) = (node, some r) ∧
      db.Answers (.getCollectionClusterInfo name) r := by
  obtain ⟨cat, h, hdb⟩ := h
  refine ⟨_, rfl, ?_⟩
  rw [Database.Answers, getCollectionClusterInfo]
  cases he : cat name with
  | none =>
    rw [h.memory.lookup_of_none he, hdb.of_none he]
    rfl
  | some e =>
    obtain ⟨c, hc, hopened, -⟩ := h.memory.of_some he
    obtain ⟨t, ht, hdepicts⟩ := hdb.of_some he
    obtain ⟨localShards, hinfo, hperm⟩ := hopened.clusterInfo peer node.memory.stores
    rw [h.countPoints_eq he hdepicts, h.countPoints_eq he hdepicts] at hperm
    rw [hc, ht]
    simp only [hinfo]
    exact ⟨localShards, rfl, hperm⟩

theorem handle_getPoint [X.PointsRoundTrip] (id : String) : ∃ r,
    Http.handle J peer env node (.getPoint name id) = (node, some r) ∧
      db.Answers (.getPoint name id) r := by
  obtain ⟨cat, h, hdb⟩ := h
  rw [Http.handle, h.retrievePoints_id hdb]
  refine ⟨_, rfl, ?_⟩
  rw [Database.Answers]
  cases db name with
  | none => rfl
  | some t => cases ht : t.get (.ofPath id) <;> simp only [ht] <;> rfl

theorem handle_listPoints [X.PointsRoundTrip] : ∃ r,
    Http.handle J peer env node (.listPoints name) = (node, some r) ∧
      db.Answers (.listPoints name) r := by
  obtain ⟨cat, h, hdb⟩ := h
  obtain ⟨r, hr, hanswer⟩ := h.retrievePoints_list hdb env.groups name
  rw [Http.handle, hr]
  refine ⟨_, rfl, ?_⟩
  rw [Database.Answers]
  cases hname : db name with
  | none =>
    rw [hname] at hanswer
    rw [hanswer]
    rfl
  | some t =>
    rw [hname] at hanswer
    obtain ⟨ps, rfl, hlist⟩ := hanswer
    refine ⟨ps, hlist, ?_⟩
    cases ps <;> rfl

/-- **A collection is created**, or it is there already. -/
theorem handle_createCollection (hname : Path.IsFileName name) (params : String) : ∃ node' r,
    Http.handle J peer env node (.createCollection name params) = (node', some r) ∧
      db.Answers (.createCollection name params) r ∧
      node'.Depicts J peer (db.next (.createCollection name params)) := by
  obtain ⟨cat, h, hdb⟩ := h
  have hrequest : Path.IsFileName
      (Smoldb.Request.metaOp (.createCollection name params) : Smoldb.Request V).name := hname
  obtain ⟨node', hop, h'⟩ := h.performCollectionMetaOp env.listing env.shards hrequest
  rw [Http.handle, hop]
  refine ⟨node', _, rfl, ?_, _, h', ?_⟩
  · rw [Database.Answers, Catalog.perform]
    cases he : cat name with
    | none => rw [hdb.of_none he]; rfl
    | some e =>
      obtain ⟨t, ht, -⟩ := hdb.of_some he
      rw [ht]
      rfl
  · rw [Database.next, Catalog.perform]
    cases he : cat name with
    | none =>
      rw [hdb.of_none he]
      exact hdb.update (.some (CatalogEntry.depicts_empty X params))
    | some e =>
      obtain ⟨t, ht, -⟩ := hdb.of_some he
      rw [ht]
      exact hdb

/-- **A collection is deleted**, if it is there. -/
theorem handle_deleteCollection : ∃ node' r,
    Http.handle J peer env node (.deleteCollection name) = (node', some r) ∧
      db.Answers (.deleteCollection name) r ∧
      node'.Depicts J peer (db.next (.deleteCollection name)) := by
  obtain ⟨cat, h, hdb⟩ := h
  cases he : cat name with
  | none =>
    have hnone := hdb.of_none he
    have hsame : db.next (.deleteCollection name : Http.Request V) = db := by
      rw [Database.next, ← hnone, Function.update_eq_self]
    rw [Http.handle, Node.performCollectionMetaOp,
      TableOfContent.exec_delete_of_none (h.memory.lookup_of_none he), hsame]
    refine ⟨node, _, rfl, ?_, cat, h, hdb⟩
    rw [Database.Answers, hnone]
    rfl
  | some e =>
    obtain ⟨t, ht, -⟩ := hdb.of_some he
    have hrequest : Path.IsFileName
        (Smoldb.Request.metaOp (.deleteCollection name) : Smoldb.Request V).name :=
      h.proper.isFileName name e he
    obtain ⟨node', hop, h'⟩ := h.performCollectionMetaOp env.listing env.shards hrequest
    rw [Catalog.perform, he] at hop h'
    rw [Http.handle, hop]
    refine ⟨node', _, rfl, ?_, _, h', hdb.update .none⟩
    rw [Database.Answers, ht]
    rfl

/-- **Points are upserted**, if the collection is there. -/
theorem handle_upsertPoints (points : List (Point V)) : ∃ node' r,
    Http.handle J peer env node (.upsertPoints name points) = (node', some r) ∧
      db.Answers (.upsertPoints name points) r ∧
      node'.Depicts J peer (db.next (.upsertPoints name points)) := by
  obtain ⟨cat, h, hdb⟩ := h
  obtain ⟨node', hop, h'⟩ := h.performPointsOp env.groups name points
  rw [Http.handle, hop]
  rw [Catalog.perform] at h' ⊢
  cases he : cat name with
  | none =>
    have hnone := hdb.of_none he
    have hsame : db.next (.upsertPoints name points) = db := by
      rw [Database.next, hnone, Option.map_none, ← hnone, Function.update_eq_self]
    rw [he] at h'
    refine ⟨node', _, rfl, ?_, cat, h', ?_⟩
    · rw [Database.Answers, hnone]
      rfl
    · rw [hsame]
      exact hdb
  | some e =>
    obtain ⟨t, ht, hdepicts⟩ := hdb.of_some he
    rw [he] at h'
    refine ⟨node', _, rfl, ?_, _, h', ?_⟩
    · rw [Database.Answers, ht]
      rfl
    · rw [Database.next, ht]
      exact hdb.update (.some (hdepicts.upsert points))

/-- **One request.** -/
theorem handle [X.PointsRoundTrip] {request : Http.Request V} (hproper : request.Proper) :
    ∃ node' r, Http.handle J peer env node request = (node', some r) ∧ db.Answers request r ∧
      node'.Depicts J peer (db.next request) := by
  have hread : ∀ {request : Http.Request V}, db.next request = db →
      (∃ r, Http.handle J peer env node request = (node, some r) ∧ db.Answers request r) →
      ∃ node' r, Http.handle J peer env node request = (node', some r) ∧ db.Answers request r ∧
        node'.Depicts J peer (db.next request) := by
    rintro request hnext ⟨r, hr, hanswer⟩
    exact ⟨node, r, hr, hanswer, by rwa [hnext]⟩
  cases request with
  | getCollections => exact hread rfl (h.handle_getCollections env)
  | getCollection name => exact hread rfl (h.handle_getCollection env)
  | getCollectionClusterInfo name => exact hread rfl (h.handle_getCollectionClusterInfo env)
  | getPoint name id => exact hread rfl (h.handle_getPoint env id)
  | listPoints name => exact hread rfl (h.handle_listPoints env)
  | createCollection name params => exact h.handle_createCollection env hproper params
  | deleteCollection name => exact h.handle_deleteCollection env
  | upsertPoints name points => exact h.handle_upsertPoints env points

omit env in
/-- A restart. -/
theorem start (env : LoadEnv) : ∃ node' : Node X, Node.start J peer env node.disk = (node', []) ∧
    node'.Depicts J peer db := by
  obtain ⟨cat, h, hdb⟩ := h
  obtain ⟨node', hstart, h'⟩ := h.start env
  exact ⟨node', hstart, cat, h', hdb⟩

/-- **A run is a run of the database.** -/
theorem run [X.PointsRoundTrip] {events : List (Http.Event V)}
    (hproper : ∀ r ∈ Http.requests events, r.Proper) :
    ∃ node' responses, Http.run J peer events node = (node', responses) ∧
      db.Runs X (Http.requests events) responses ∧
      node'.Depicts J peer ((Http.requests events).foldl Database.next db) := by
  induction events generalizing node db with
  | nil => exact ⟨node, [], rfl, rfl, h⟩
  | cons event events ih =>
    cases event with
    | request env request =>
      obtain ⟨node₁, r, hhandle, hanswer, h₁⟩ := h.handle env (hproper request List.mem_cons_self)
      obtain ⟨node₂, rest, hrun, hruns, h₂⟩ := ih h₁ fun r hr ↦
        hproper r (List.mem_cons_of_mem _ hr)
      refine ⟨node₂, some (time X r) :: rest, ?_, ⟨r, rest, rfl, hanswer, hruns⟩, h₂⟩
      rw [Http.run, Http.step, serve, hhandle, hrun]
      rfl
    | restart env =>
      obtain ⟨node₁, hstart, h₁⟩ := h.start env
      obtain ⟨node₂, rest, hrun, hruns, h₂⟩ := ih h₁ hproper
      refine ⟨node₂, rest, ?_, hruns, h₂⟩
      rw [Http.run, Http.step, hstart, hrun]
      rfl

end Node.Depicts

/-- A node that is started in an empty directory depicts an empty database. -/
theorem Node.depicts_start (X : Crates V) (J : ConfigJson) (peer : PeerId) (env : LoadEnv) :
    ∃ node : Node X, Node.start J peer env .empty = (node, []) ∧
      node.Depicts J peer fun _ ↦ none := by
  obtain ⟨node, hstart, h⟩ := Node.represents_start X J peer env
  exact ⟨node, hstart, fun _ ↦ none, h, fun _ ↦ .none⟩

/-- A database is depicted by one catalog: encoding does not lose anything. -/
theorem CatalogEntry.Depicts.unique {e e' : CatalogEntry} {t : Table X} (h : e.Depicts t)
    (h' : e'.Depicts t) : e = e' := by
  obtain ⟨config, trees⟩ := e
  obtain ⟨config', trees'⟩ := e'
  have htrees : trees = trees' := by
    funext s
    refine Std.ExtTreeMap.ext_getElem? fun k ↦ ?_
    exact (h.rows s k).trans (h'.rows s k).symm
  obtain rfl : config = config' := h.config.trans h'.config.symm
  rw [htrees]

/-- **Nodes that depict one database agree.** -/
theorem Node.Depicts.agree {node node₁ : Node X} {db : Database X}
    (h : node.Depicts J peer db) (h₁ : node₁.Depicts J peer db) : node.Agree peer node₁ := by
  obtain ⟨cat, h, hdb⟩ := h
  obtain ⟨cat₁, h₁, hdb₁⟩ := h₁
  have hcat : cat = cat₁ := by
    funext name
    cases he : cat name with
    | none =>
      cases he₁ : cat₁ name with
      | none => rfl
      | some e₁ =>
        obtain ⟨t, ht, -⟩ := hdb₁.of_some he₁
        exact absurd ((hdb.of_none he).symm.trans ht) (by simp)
    | some e =>
      obtain ⟨t, ht, hdepicts⟩ := hdb.of_some he
      cases he₁ : cat₁ name with
      | none => exact absurd ((hdb₁.of_none he₁).symm.trans ht) (by simp)
      | some e₁ =>
        obtain ⟨t₁, ht₁, hdepicts₁⟩ := hdb₁.of_some he₁
        obtain rfl := Option.some.inj (ht.symm.trans ht₁)
        rw [hdepicts.unique hdepicts₁]
  subst hcat
  exact h.agree h₁

namespace Http

theorem run_start (X : Crates V) [X.PointsRoundTrip] (J : ConfigJson) (peer : PeerId)
    (env : LoadEnv) {events : List (Event V)} (hproper : ∀ r ∈ requests events, r.Proper) :
    ∃ (node : Node X) (responses : _), run J peer (.restart env :: events) .down
        = (node, responses) ∧
      Database.Runs X (fun _ ↦ none) (requests events) responses ∧
      node.Depicts J peer ((requests events).foldl Database.next fun _ ↦ none) := by
  obtain ⟨start, hstart, h⟩ := Node.depicts_start X J peer env
  obtain ⟨node, responses, hrun, hruns, h'⟩ := h.run hproper
  refine ⟨node, responses, ?_, hruns, h'⟩
  rw [run, step, Node.down, hstart, hrun]
  rfl

/-- **The API of a node is a database.**  Whatever requests a node gets, one after the other, and
whatever restarts are in between, every request is answered, and the answers are those of a database
in which nothing is ever restarted.  The names of the collections that are created are ordinary file
names, and directories and hash maps are iterated in any order. -/
theorem api_refines_database (X : Crates V) [X.PointsRoundTrip] (J : ConfigJson) (peer : PeerId)
    (env : LoadEnv) (events : List (Event V)) (hproper : ∀ r ∈ requests events, r.Proper) :
    ∃ (node : Node X) (responses : _), run J peer (.restart env :: events) .down
        = (node, responses) ∧
      Database.Runs X (fun _ ↦ none) (requests events) responses := by
  obtain ⟨node, responses, hrun, hruns, -⟩ := run_start X J peer env hproper
  exact ⟨node, responses, hrun, hruns⟩

/-- A collection is created twice, written to and read, with a restart in between. -/
def asked : List (Event Bool) :=
  [.request .insertion (.createCollection "c" "p"),
    .request .insertion (.upsertPoints "c" [⟨.id 1, true⟩, ⟨.uuid "1", false⟩]),
    .restart .reversed,
    .request .insertion (.createCollection "c" "q"),
    .request .insertion (.getPoint "c" "1"),
    .request .insertion .getCollections]

theorem asked_proper : ∀ r ∈ requests asked, r.Proper := by
  have hname : Path.IsFileName "c" := by decide
  intro r hr
  simp only [requests, asked, List.filterMap_cons, List.filterMap_nil, List.mem_cons,
    List.not_mem_nil, or_false] at hr
  rcases hr with rfl | rfl | rfl | rfl | rfl
  · exact hname
  · trivial
  · exact hname
  · trivial
  · trivial

theorem api_refines_database_asked : ∃ (node : Node Crates.bool) (responses : _),
    run .plain 101 (.restart .insertion :: asked) .down = (node, responses) ∧
      Database.Runs Crates.bool (fun _ ↦ none) (requests asked) responses :=
  api_refines_database Crates.bool .plain 101 .insertion asked asked_proper

/-- **Collections do not see each other.**  Take two runs of a node in which the requests for one
collection are the same.  Whatever else is asked for, and wherever the restarts are, the responses
to these requests are the same, up to the order of what has none. -/
theorem api_isolates_collections (X : Crates V) [X.PointsRoundTrip] (J : ConfigJson) (peer : PeerId)
    (env env₁ : LoadEnv) (events events₁ : List (Event V))
    (hproper : ∀ r ∈ requests events, r.Proper) (hproper₁ : ∀ r ∈ requests events₁, r.Proper)
    (name : CollectionName)
    (hsame : ((requests events).filter fun r ↦ r.name = some name)
      = (requests events₁).filter fun r ↦ r.name = some name) :
    ∃ (node node₁ : Node X) (responses responses₁ : _),
      run J peer (.restart env :: events) .down = (node, responses) ∧
      run J peer (.restart env₁ :: events₁) .down = (node₁, responses₁) ∧
      List.Forall₂ (Option.Rel Response.Alike)
        (Database.about name (requests events) responses)
        (Database.about name (requests events₁) responses₁) := by
  obtain ⟨node, responses, hrun, hruns, -⟩ := run_start X J peer env hproper
  obtain ⟨node₁, responses₁, hrun₁, hruns₁, -⟩ := run_start X J peer env₁ hproper₁
  have habout : Database.Runs X (fun _ ↦ none) _ (Database.about name _ responses) :=
    hruns.about rfl
  have habout₁ : Database.Runs X (fun _ ↦ none) _ (Database.about name _ responses₁) :=
    hruns₁.about rfl
  rw [← hsame] at habout₁
  exact ⟨node, node₁, responses, responses₁, hrun, hrun₁, habout.alike habout₁⟩

/-- The same, with another collection next to the one that is asked for. -/
def askedBoth : List (Event Bool) :=
  .request .insertion (.createCollection "d" "") ::
    .request .insertion (.upsertPoints "d" [⟨.id 1, false⟩]) :: asked

theorem api_isolates_collections_asked :
    ∃ (node node₁ : Node Crates.bool) (responses responses₁ : _),
      run .plain 101 (.restart .insertion :: asked) .down = (node, responses) ∧
      run .plain 101 (.restart .reversed :: askedBoth) .down = (node₁, responses₁) ∧
      List.Forall₂ (Option.Rel Response.Alike)
        (Database.about "c" (requests asked) responses)
        (Database.about "c" (requests askedBoth) responses₁) := by
  have hproper : ∀ r ∈ requests askedBoth, r.Proper := by
    intro r hr
    rcases List.mem_cons.mp hr with rfl | hr
    · exact (by decide : Path.IsFileName "d")
    · rcases List.mem_cons.mp hr with rfl | hr
      · trivial
      · exact asked_proper r hr
  exact api_isolates_collections Crates.bool .plain 101 .insertion .reversed asked askedBoth
    asked_proper hproper "c" rfl

/-- **What is turned down has no effect.**  Take a run of a node, and another one that has only the
requests the first one answers with a `200`.  The responses to these are the same in both, up to the
order of what has none, and so is what the nodes hold at the end. -/
theorem api_refusals_have_no_effect (X : Crates V) [X.PointsRoundTrip] (J : ConfigJson)
    (peer : PeerId) (env env₁ : LoadEnv) (events : List (Event V))
    (hproper : ∀ r ∈ requests events, r.Proper) :
    ∃ (node : Node X) (responses : _),
      run J peer (.restart env :: events) .down = (node, responses) ∧
      ∀ events₁ : List (Event V),
        requests events₁ = (Database.accepted (requests events) responses).map Prod.fst →
        ∃ (node₁ : Node X) (responses₁ : _),
          run J peer (.restart env₁ :: events₁) .down = (node₁, responses₁) ∧
          List.Forall₂ (Option.Rel Response.Alike)
            ((Database.accepted (requests events) responses).map Prod.snd) responses₁ ∧
          node.Agree peer node₁ := by
  obtain ⟨node, responses, hrun, hruns, h⟩ := run_start X J peer env hproper
  refine ⟨node, responses, hrun, fun events₁ hsame ↦ ?_⟩
  obtain ⟨haccepted, hfoldl⟩ := hruns.accepted
  have hproper₁ : ∀ r ∈ requests events₁, r.Proper := by
    intro r hr
    rw [hsame, List.mem_map] at hr
    obtain ⟨e, he, rfl⟩ := hr
    exact hproper _ (List.of_mem_zip (List.mem_of_mem_filter he)).1
  obtain ⟨node₁, responses₁, hrun₁, hruns₁, h₁⟩ := run_start X J peer env₁ hproper₁
  rw [hsame] at hruns₁ h₁
  rw [hfoldl] at h₁
  exact ⟨node₁, responses₁, hrun₁, haccepted.alike hruns₁, h.agree h₁⟩

theorem api_refusals_have_no_effect_asked : ∃ (node : Node Crates.bool) (responses : _),
    run .plain 101 (.restart .insertion :: asked) .down = (node, responses) ∧
    ∀ events₁ : List (Event Bool),
      requests events₁ = (Database.accepted (requests asked) responses).map Prod.fst →
      ∃ (node₁ : Node Crates.bool) (responses₁ : _),
        run .plain 101 (.restart .reversed :: events₁) .down = (node₁, responses₁) ∧
        List.Forall₂ (Option.Rel Response.Alike)
          ((Database.accepted (requests asked) responses).map Prod.snd) responses₁ ∧
        node.Agree 101 node₁ :=
  api_refusals_have_no_effect Crates.bool .plain 101 .insertion .reversed asked asked_proper

end Http

end Smoldb
