import Smoldb.Disk.Events

/-!
# What is read from a node

A node that represents a catalog answers a read from the trees of an entry, and from nothing else:
`CatalogEntry.read` is what stands under an id, and `CatalogEntry.Lists` what a list is made of.  So
two nodes that represent one catalog read the same.

A stored text may be one that cannot be read.  Then the read stops there and returns an error, and
which text it stops at depends on the order of a hash map.  `CatalogEntry.ReadsIds` and `ReadsList`
are about everything that a read has to go through.  For each kind of read one lemma says what it
returns if it succeeds, and that it could be read then (`getPoints_ids`, `getPoints_list`), and
another that it does succeed if it can be read (`getPoints_ids_clean`, `getPoints_list_clean`).

The second half is about the catalog alone.  Requests for other names leave an entry as it is, and
what holds of the points of all requests holds of the points of all entries (`Catalog.All.run`).
-/

set_option autoImplicit false

namespace Smoldb

open LastWrite

open FileTree (View)

variable {V : Type} {X : Crates V} {J : ConfigJson} {peer : PeerId}

/-! ## Reads -/

/-- `Collection::get_points` on a collection of a node without remote shards. -/
def Node.getPoints (peer : PeerId) (node : Node X) (name : CollectionName)
    (collection : Collection X) (order : IterOrder (ShardId × List PointId))
    (ids : Option (List PointId)) (shardId : Option ShardId) (localOnly : Bool) :
    Option (CollectionResult (List (Point V))) :=
  collection.getPoints (replicaGet X peer name (fun _ ↦ .clean) node.memory.stores noRemoteGet)
    order ids shardId localOnly

/-- A read that fails returns an error. -/
theorem Node.getPoints_ne_none (node : Node X) (name : CollectionName) (c : Collection X)
    (order : IterOrder (ShardId × List PointId)) (ids : Option (List PointId))
    (shardId : Option ShardId) (localOnly : Bool) :
    node.getPoints peer name c order ids shardId localOnly ≠ none := by
  refine Collection.getPoints_ne_none (fun s r ids ↦ ?_) order ids shardId localOnly
  cases r <;> simp [replicaGet, noRemoteGet]

namespace CatalogEntry

/-- What is stored under an id in a shard. -/
def read (X : Crates V) (e : CatalogEntry) (s : ShardId) (id : PointId) : Option (Point V) :=
  Segment.read X (e.trees s) id.intoString

/-- A list has the point. -/
def Lists (X : Crates V) (e : CatalogEntry) (shardId : Option ShardId) (p : Point V) : Prop :=
  ∃ s, (s = 0 ∨ s = 1) ∧ (∀ t ∈ shardId, s = t) ∧ p ∈ Segment.points X (e.trees s)

/-- What is stored under the ids, each in its shard, can be read. -/
def ReadsIds (X : Crates V) (e : CatalogEntry) (ids : List PointId) : Prop :=
  ∀ id ∈ ids, Segment.ReadableAt X (e.trees (homeShard X id)) id.intoString

/-- Everything in the shards that a list is about can be read. -/
def ReadsList (X : Crates V) (e : CatalogEntry) (shardId : Option ShardId) : Prop :=
  ∀ s, (s = 0 ∨ s = 1) → (∀ t ∈ shardId, s = t) → Segment.Readable X (e.trees s)

end CatalogEntry

theorem Collection.mem_selected {shardId : Option ShardId}
    {entries : List (Σ _ : ShardId, ReplicaSet)} {entry : Σ _ : ShardId, ReplicaSet} :
    entry ∈ selected shardId entries ↔ entry ∈ entries ∧ ∀ t ∈ shardId, entry.1 = t := by
  rw [selected, List.mem_filter]
  refine and_congr_right fun _ ↦ ?_
  cases shardId <;> simp

/-- The points of some shards have different ids, since those of all shards do. -/
theorem Placed.localPoints_nodup {c : Collection X} {name : CollectionName} {w : Stores}
    (h : Placed c peer name w) (shardId : Option ShardId) :
    ((c.localPoints shardId peer name w).map Point.id).Nodup := by
  refine h.localPoints_ids_nodup.sublist (List.Sublist.map _ ?_)
  have hall : Collection.selected none c.replicaHolder.shards.entries
      = c.replicaHolder.shards.entries := List.filter_eq_self.mpr fun e _ ↦ rfl
  rw [Collection.localPoints, Collection.localPoints, hall]
  exact List.filter_sublist.flatMap _

namespace Node.Represents

variable {node : Node X} {cat : Catalog} (h : node.Represents J peer cat) {name : CollectionName}
  {e : CatalogEntry} (he : cat name = some e) {c : Collection X}
  (hc : node.memory.toc.collections.lookup name = some c)

include h he hc

theorem opened : c.Opened name e.config := by
  obtain ⟨c', hc', hopened, -⟩ := h.memory.of_some he
  obtain rfl : c' = c := Option.some.inj (hc'.symm.trans hc)
  exact hopened

omit hc in
theorem stores (s : ShardId) : node.memory.stores ⟨peer, name, s⟩ 0 = e.trees s := by
  obtain ⟨-, -, -, hstores⟩ := h.memory.of_some he
  exact hstores s

theorem placed_node : Smoldb.Placed c peer name node.memory.stores := by
  intro s k v hv
  rw [h.stores he] at hv
  rw [(h.opened he hc).shardOf_eq]
  exact h.placed name e he s k v hv

/-- What a shard of the node answers. -/
theorem replicaGet_eq {s : ShardId} {rs : ReplicaSet}
    (hrs : c.replicaHolder.shards.lookup s = some rs) (ids : Option (List PointId)) :
    replicaGet X peer name (fun _ ↦ .clean) node.memory.stores noRemoteGet s
        (.localShard rs.localShard) ids
      = some ((openedShard name s).localShard.getPoints X .clean ids
        (openedStore (e.trees s))) := by
  obtain ⟨-, rfl⟩ := (h.opened he hc).eq_openedShard hrs
  rw [replicaGet, LocalShard.getPoints, LocalShard.getPoints, h.stores he, openedStore,
    Function.update_self]

/-- **A read by id that succeeds**, up to order. -/
theorem getPoints_ids {order : IterOrder (ShardId × List PointId)} {ids : List PointId}
    {localOnly : Bool} {ps : List (Point V)}
    (hok : node.getPoints peer name c order (some ids) none localOnly = some (.ok ps)) :
    e.ReadsIds X ids ∧ ps.Perm (ids.filterMap fun id ↦ e.read X (homeShard X id) id) := by
  have hshards : ∀ s rs ids ps, c.replicaHolder.shards.lookup s = some rs →
      replicaGet X peer name (fun _ ↦ .clean) node.memory.stores noRemoteGet s
          (.localShard rs.localShard) (some ids) = some (.ok ps) →
        (∀ id ∈ ids, Segment.ReadableAt X (e.trees s) id.intoString) ∧
          ps = ids.filterMap (e.read X s) := by
    intro s rs ids ps hrs hread
    rw [h.replicaGet_eq he hc hrs, Option.some_inj] at hread
    exact LocalShard.getPoints_eq_ok X hread
  have hids := Collection.getPoints_ids (g := fun s ↦ e.read X s)
    (Q := fun s id ↦ Segment.ReadableAt X (e.trees s) id.intoString) hshards hok
  rwa [(h.opened he hc).shardOf_eq] at hids

/-- A read by id succeeds if what is stored under the ids can be read. -/
theorem getPoints_ids_clean (order : IterOrder (ShardId × List PointId)) (ids : List PointId)
    (hreads : e.ReadsIds X ids) (localOnly : Bool) :
    ∃ ps, node.getPoints peer name c order (some ids) none localOnly = some (.ok ps) ∧
      ps.Perm (ids.filterMap fun id ↦ e.read X (homeShard X id) id) := by
  have hopened := h.opened he hc
  have hshards : ∀ s rs as, c.replicaHolder.shards.lookup s = some rs →
      (∀ id ∈ as, id ∈ ids ∧ c.shardOf id = s) →
        replicaGet X peer name (fun _ ↦ .clean) node.memory.stores noRemoteGet s
          (.localShard rs.localShard) (some as) = some (.ok (as.filterMap (e.read X s))) := by
    intro s rs as hrs has
    rw [h.replicaGet_eq he hc hrs]
    refine congrArg some (LocalShard.getPoints_clean X (LocalShard.zero_mem_init _ _) (some as)
      fun id hid ↦ ?_)
    obtain ⟨hmem, rfl⟩ := has id hid
    rw [hopened.shardOf_eq]
    exact hreads id hmem
  rw [← hopened.shardOf_eq]
  exact Collection.getPoints_ids_total hshards (hopened.mem_iff.mpr (Or.inl rfl)) order localOnly

/-- A read by id of one shard. -/
theorem getPoints_shard (order : IterOrder (ShardId × List PointId)) (ids : List PointId)
    (s : ShardId) (localOnly : Bool) :
    node.getPoints peer name c order (some ids) (some s) localOnly =
      if s = 0 ∨ s = 1 then
        some ((openedShard name s).localShard.getPoints X .clean (some ids)
          (openedStore (e.trees s)))
      else some (.error (.storageError (.badInput s!"Shard {s} not found"))) := by
  have hlookup := (h.opened he hc).shards s
  rw [Node.getPoints, Collection.getPoints]
  by_cases hs : s = 0 ∨ s = 1
  · rw [if_pos hs] at hlookup ⊢
    simp only [ReplicaHolder.getReplicaSet, hlookup]
    exact h.replicaGet_eq he hc hlookup (some ids)
  · rw [if_neg hs] at hlookup ⊢
    simp only [ReplicaHolder.getReplicaSet, hlookup]

/-- The shards of a list are those of the collection. -/
theorem readsList_iff {shardId : Option ShardId} :
    (∀ entry ∈ Collection.selected shardId c.replicaHolder.shards.entries,
      Segment.Readable X (node.memory.stores ⟨peer, name, entry.1⟩ 0)) ↔ e.ReadsList X shardId := by
  have hopened := h.opened he hc
  constructor
  · intro hreads s hs hshard
    have hlookup := hopened.shards s
    rw [if_pos hs] at hlookup
    rw [← h.stores he]
    exact hreads ⟨s, openedShard name s⟩
      (Collection.mem_selected.mpr ⟨AList.mem_lookup_iff.mp hlookup, hshard⟩)
  · intro hreads entry hentry
    obtain ⟨hmem, hshard⟩ := Collection.mem_selected.mp hentry
    rw [h.stores he]
    exact hreads entry.1 (hopened.eq_openedShard (AList.mem_lookup_iff.mpr hmem)).1 hshard

/-- The points of a local list. -/
theorem mem_localList {shardId : Option ShardId} {p : Point V} :
    p ∈ firsts (c.localPoints shardId peer name node.memory.stores) ↔ e.Lists X shardId p := by
  have hopened := h.opened he hc
  have hplaced := h.placed_node he hc
  rw [mem_firsts_of_nodup (hplaced.localPoints_nodup shardId), Collection.localPoints,
    List.mem_flatMap, CatalogEntry.Lists]
  constructor
  · rintro ⟨entry, hentry, hp⟩
    obtain ⟨hmem, hshard⟩ := Collection.mem_selected.mp hentry
    have hs := (hopened.eq_openedShard (AList.mem_lookup_iff.mpr hmem)).1
    rw [Stores.points, h.stores he] at hp
    exact ⟨entry.1, hs, hshard, hp⟩
  · rintro ⟨s, hs, hshard, hp⟩
    have hlookup := hopened.shards s
    rw [if_pos hs] at hlookup
    refine ⟨⟨s, openedShard name s⟩,
      Collection.mem_selected.mpr ⟨AList.mem_lookup_iff.mp hlookup, hshard⟩, ?_⟩
    rwa [Stores.points, h.stores he]

/-- **A local list that succeeds.** -/
theorem getPoints_list {order : IterOrder (ShardId × List PointId)} {shardId : Option ShardId}
    {ps : List (Point V)}
    (hok : node.getPoints peer name c order none shardId true = some (.ok ps)) :
    e.ReadsList X shardId ∧ IdSorted ps ∧ ∀ p, p ∈ ps ↔ e.Lists X shardId p := by
  refine ⟨(h.readsList_iff he hc).mp (Collection.readable_of_getPoints_list_local hok), ?_⟩
  rw [Collection.getPoints_list_local hok]
  exact ⟨firsts_sorted _, fun p ↦ h.mem_localList he hc⟩

/-- A local list succeeds if everything in its shards can be read. -/
theorem getPoints_list_clean (order : IterOrder (ShardId × List PointId))
    (shardId : Option ShardId) (hreads : e.ReadsList X shardId) :
    ∃ ps, node.getPoints peer name c order none shardId true = some (.ok ps) ∧ IdSorted ps ∧
      ∀ p, p ∈ ps ↔ e.Lists X shardId p :=
  ⟨_, Collection.getPoints_list_local_clean (h.opened he hc).wellFormed order (fun _ ↦ rfl)
    ((h.readsList_iff he hc).mpr hreads), firsts_sorted _, fun _ ↦ h.mem_localList he hc⟩

/-- A point that is listed is found again by its id. -/
theorem read_of_lists {shardId : Option ShardId} {p : Point V} (hp : e.Lists X shardId p) :
    e.read X (homeShard X p.id) p.id = some p := by
  obtain ⟨s, -, -, hmem⟩ := hp
  have hplaced := h.placed_node he hc
  have hpoint : p ∈ node.memory.stores.points X peer name s := by
    rw [Stores.points, h.stores he]
    exact hmem
  have hread := hplaced.mem_points_iff_read.mp hpoint
  rw [Stores.read, h.stores he, ← hplaced.shardOf_of_mem_points hpoint,
    (h.opened he hc).shardOf_eq] at hread
  exact hread

end Node.Represents

/-! ## The catalog of a run -/

namespace Catalog

theorem answers_append (X : Crates V) (rs rs' : List (Request V)) (cat : Catalog) :
    cat.answers X (rs ++ rs') = cat.answers X rs ++ (cat.run X rs).answers X rs' := by
  induction rs generalizing cat with
  | nil => rfl
  | cons r rs ih => exact congrArg _ (ih _)

theorem length_answers (X : Crates V) (rs : List (Request V)) (cat : Catalog) :
    (cat.answers X rs).length = rs.length := by
  induction rs generalizing cat with
  | nil => rfl
  | cons r rs ih => exact congrArg _ (ih _)

/-- No request panics. -/
theorem none_notMem_answers (X : Crates V) (rs : List (Request V)) (cat : Catalog) :
    none ∉ cat.answers X rs := by
  induction rs generalizing cat with
  | nil => exact List.not_mem_nil
  | cons r rs ih =>
    rw [answers, List.mem_cons, not_or]
    exact ⟨nofun, ih _⟩

/-- A request is about one collection. -/
theorem perform_of_ne {r : Request V} {name : CollectionName} (h : r.name ≠ name) (cat : Catalog) :
    (cat.perform X r).1 name = cat name := by
  match r with
  | .metaOp (.createCollection name' params) =>
    have hne : name ≠ name' := Ne.symm h
    rw [perform]
    split
    · rfl
    · exact Function.update_of_ne hne _ _
  | .metaOp (.deleteCollection name') =>
    have hne : name ≠ name' := Ne.symm h
    rw [perform]
    split
    · exact Function.update_of_ne hne _ _
    · rfl
  | .upsert name' points =>
    have hne : name ≠ name' := Ne.symm h
    rw [perform]
    split
    · exact Function.update_of_ne hne _ _
    · rfl

theorem run_of_ne {rs : List (Request V)} {name : CollectionName} (h : ∀ r ∈ rs, r.name ≠ name)
    (cat : Catalog) : cat.run X rs name = cat name := by
  induction rs generalizing cat with
  | nil => rfl
  | cons r rs ih =>
    have hrest := ih (fun r' hr' ↦ h r' (List.mem_cons_of_mem _ hr')) (cat.perform X r).1
    exact hrest.trans (perform_of_ne (h r List.mem_cons_self) cat)

/-- A collection whose creation was acknowledged is empty. -/
theorem perform_create {name params : String} {cat : Catalog}
    (h : (cat.perform X (.metaOp (.createCollection name params))).2 = .ok true) :
    (cat.perform X (.metaOp (.createCollection name params))).1 name
      = some ⟨⟨params⟩, fun _ ↦ ∅⟩ := by
  rw [perform] at h ⊢
  cases he : cat name with
  | some e =>
    rw [he] at h
    cases h
  | none => exact Function.update_self _ _ _

/-- Everything stored is a point with some property. -/
def All (X : Crates V) (P : Point V → Prop) (cat : Catalog) : Prop :=
  ∀ name e, cat name = some e → ∀ (s : ShardId) (k v : String), (e.trees s)[k]? = some v →
    ∃ p, v = X.encode p ∧ P p

theorem All.update {P : Point V → Prop} {cat : Catalog} (h : cat.All X P) {name : CollectionName}
    {e : CatalogEntry}
    (he : ∀ (s : ShardId) (k v : String), (e.trees s)[k]? = some v → ∃ p, v = X.encode p ∧ P p) :
    Catalog.All X P (Function.update cat name (some e)) := by
  intro n e' he'
  by_cases hn : n = name
  · subst hn
    rw [Function.update_self, Option.some_inj] at he'
    exact he' ▸ he
  · rw [Function.update_of_ne hn] at he'
    exact h n e' he'

theorem All.erase {P : Point V → Prop} {cat : Catalog} (h : cat.All X P) (name : CollectionName) :
    Catalog.All X P (Function.update cat name none) := by
  intro n e he
  by_cases hn : n = name
  · rw [hn, Function.update_self] at he
    cases he
  · rw [Function.update_of_ne hn] at he
    exact h n e he

/-- A request stores nothing but the points it has. -/
theorem All.perform {P : Point V → Prop} {cat : Catalog} (h : cat.All X P) {r : Request V}
    (hr : ∀ p ∈ r.points, P p) : Catalog.All X P (cat.perform X r).1 := by
  match r with
  | .metaOp (.createCollection name params) =>
    rw [Catalog.perform]
    split
    · exact h
    · refine h.update fun s k v hv ↦ ?_
      simp at hv
  | .metaOp (.deleteCollection name) =>
    rw [Catalog.perform]
    cases cat name with
    | none => exact h
    | some e => exact h.erase name
  | .upsert name points =>
    rw [Catalog.perform]
    cases he : cat name with
    | none => exact h
    | some e =>
      refine h.update fun s k v hv ↦ ?_
      rw [CatalogEntry.upsert, Segment.getElem?_putAll] at hv
      cases hl : last Segment.keyOf (shardPoints (homeShard X) points s) k with
      | none =>
        rw [hl, Option.map_none, Option.none_or] at hv
        exact h name e he s k v hv
      | some p =>
        rw [hl, Option.map_some, Option.some_or, Option.some_inj] at hv
        exact ⟨p, hv.symm, hr p (mem_of_last (mem_shardPoints.mp (mem_of_last hl)).2)⟩

theorem All.run {P : Point V → Prop} {cat : Catalog} (h : cat.All X P) {rs : List (Request V)}
    (hrs : ∀ r ∈ rs, ∀ p ∈ r.points, P p) : Catalog.All X P (cat.run X rs) := by
  induction rs generalizing cat with
  | nil => exact h
  | cons r rs ih =>
    exact ih (h.perform (hrs r List.mem_cons_self)) fun r' hr' ↦ hrs r' (List.mem_cons_of_mem _ hr')

/-- If all points that are stored can be read, so can every tree. -/
theorem All.readable {cat : Catalog} (h : cat.All X X.Readable) {name : CollectionName}
    {e : CatalogEntry} (he : cat name = some e) (s : ShardId) :
    Segment.Readable X (e.trees s) := by
  intro k v hv
  obtain ⟨p, rfl, hp⟩ := h name e he s k v hv
  exact hp

end Catalog

/-- Nothing is read from an entry without points. -/
theorem CatalogEntry.not_lists {config : CollectionConfig} {shardId : Option ShardId}
    {p : Point V} : ¬ CatalogEntry.Lists X ⟨config, fun _ ↦ ∅⟩ shardId p := by
  rintro ⟨s, -, -, hp⟩
  obtain ⟨k, hk⟩ := (Segment.mem_points X).mp hp
  simp [Segment.read] at hk

end Smoldb
