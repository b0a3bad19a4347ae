import Smoldb.Disk.Node

/-!
# Events at a node

Every event takes a node that represents a catalog to one that represents the catalog after the
request, and a restart takes it to one that represents the same catalog.  There is one lemma for
each kind of event:

* `Represents.performPointsOp`: an upsert writes a shard after the other, each with a flush, so what
  it has written is on disk as well;
* `Represents.performCollectionMetaOp`: a create makes the files of an empty collection where there
  were none, and a delete removes them; either is turned away if the name is taken or is not there;
* `Represents.start`: a restart throws the memory away and loads it from the disk.

A run of a node is therefore a run of the catalog, whatever restarts are in it (`Represents.run`),
and the first start, in an empty directory, represents the empty one (`Node.represents_start`).
-/

set_option autoImplicit false

namespace Smoldb

open LastWrite

open FileTree (View)

variable {V : Type} {X : Crates V} {J : ConfigJson} {peer : PeerId}

/-! ## What the memory has open -/

namespace Memory.OpensAll

variable {memory : Memory X} {cat : Catalog} (h : memory.OpensAll peer cat)

include h

theorem of_some {name : CollectionName} {e : CatalogEntry} (he : cat name = some e) :
    memory.Opens peer name e := by
  have hname := h name
  rwa [he] at hname

theorem of_none {name : CollectionName} (hnone : cat name = none) :
    name ∉ memory.toc.collections := by
  have hname := h name
  rwa [hnone] at hname

theorem lookup_of_none {name : CollectionName} (hnone : cat name = none) :
    memory.toc.collections.lookup name = none :=
  AList.lookup_eq_none.mpr (h.of_none hnone)

theorem mem_iff {name : CollectionName} :
    name ∈ memory.toc.collections ↔ ∃ e, cat name = some e := by
  cases he : cat name with
  | none => simp [h.of_none he]
  | some e =>
    obtain ⟨c, hc, -⟩ := h.of_some he
    have hmem : name ∈ memory.toc.collections :=
      AList.lookup_isSome.mp (by rw [hc]; rfl)
    simp [hmem]

theorem insert {name : CollectionName} {e : CatalogEntry} {c : Collection X}
    (hc : c.Opened name e.config) {trees : Trees} (htrees : ∀ s, trees s 0 = e.trees s) :
    (memory.insert peer name c trees).OpensAll peer (Function.update cat name (some e)) := by
  intro n
  by_cases hn : n = name
  · subst hn
    rw [Function.update_self]
    exact memory.opens_insert peer hc htrees
  · rw [Function.update_of_ne hn]
    cases he : cat n with
    | none =>
      rw [Memory.mem_insert, not_or]
      exact ⟨hn, h.of_none he⟩
    | some e => exact (Memory.opens_insert_of_ne hn).mpr (h.of_some he)

theorem erase (name : CollectionName) :
    Memory.OpensAll { memory with toc := ⟨memory.toc.collections.erase name⟩ } peer
      (Function.update cat name none) := by
  intro n
  by_cases hn : n = name
  · subst hn
    rw [Function.update_self]
    exact fun hmem ↦ (AList.mem_erase.mp hmem).1 rfl
  · rw [Function.update_of_ne hn]
    cases he : cat n with
    | none => exact fun hmem ↦ h.of_none he (AList.mem_erase.mp hmem).2
    | some e =>
      obtain ⟨c, hc, hopened, hstores⟩ := h.of_some he
      exact ⟨c, (AList.lookup_erase_ne hn).trans hc, hopened, hstores⟩

/-- Another tree of an open collection. -/
theorem write {name : CollectionName} {e : CatalogEntry} (he : cat name = some e) (s : ShardId)
    {store : ShardStore} {db : Db} (hdb : store 0 = db) :
    Memory.OpensAll ⟨memory.toc, Function.update memory.stores ⟨peer, name, s⟩ store⟩ peer
      (Function.update cat name (some { e with trees := Function.update e.trees s db })) := by
  intro n
  by_cases hn : n = name
  · subst hn
    rw [Function.update_self]
    obtain ⟨c, hc, hopened, hstores⟩ := h.of_some he
    refine ⟨c, hc, hopened, fun t ↦ ?_⟩
    by_cases ht : t = s
    · subst ht
      simp [hdb]
    · have hpl : (⟨peer, n, t⟩ : Place) ≠ ⟨peer, n, s⟩ := by simp [ht]
      simp only [Function.update_of_ne hpl, Function.update_of_ne ht, hstores]
  · rw [Function.update_of_ne hn]
    cases he' : cat n with
    | none => exact h.of_none he'
    | some e' =>
      obtain ⟨c, hc, hopened, hstores⟩ := h.of_some he'
      refine ⟨c, hc, hopened, fun t ↦ ?_⟩
      have hpl : (⟨peer, n, t⟩ : Place) ≠ ⟨peer, name, s⟩ := by simp [hn]
      simp only [Function.update_of_ne hpl, hstores]

end Memory.OpensAll

/-! ## One event -/

namespace Node.Represents

variable {node : Node X} {cat : Catalog} (h : node.Represents J peer cat)

include h

/-- A collection that is taken in keeps the catalog proper. -/
theorem update {name : CollectionName} {e : CatalogEntry} (hname : Path.IsFileName name)
    (hplaced : e.Placed X) (hother : ∀ s, ¬ (s = 0 ∨ s = 1) → e.trees s = ∅) {node' : Node X}
    (hdisk : Holds J (Function.update cat name (some e)) node'.disk)
    (hmemory : node'.memory.OpensAll peer (Function.update cat name (some e))) :
    node'.Represents J peer (Function.update cat name (some e)) := by
  have hcases : ∀ n e', Function.update cat name (some e) n = some e' →
      n = name ∧ e' = e ∨ cat n = some e' := by
    intro n e' he'
    by_cases hn : n = name
    · subst hn
      rw [Function.update_self, Option.some_inj] at he'
      exact Or.inl ⟨rfl, he'.symm⟩
    · rw [Function.update_of_ne hn] at he'
      exact Or.inr he'
  refine ⟨⟨fun n e' he' ↦ ?_, fun n e' he' ↦ ?_⟩, fun n e' he' ↦ ?_, hdisk, hmemory⟩
  · rcases hcases n e' he' with ⟨rfl, rfl⟩ | hn
    · exact hname
    · exact h.proper.isFileName n e' hn
  · rcases hcases n e' he' with ⟨rfl, rfl⟩ | hn
    · exact hother
    · exact h.proper.other n e' hn
  · rcases hcases n e' he' with ⟨rfl, rfl⟩ | hn
    · exact hplaced
    · exact h.placed n e' hn

/-- **Points are written to one shard**, in memory and on disk. -/
theorem write {name : CollectionName} {e : CatalogEntry} (he : cat name = some e) {s : ShardId}
    (hs : s = 0 ∨ s = 1) {points : List (Point V)} (hpoints : ∀ p ∈ points, homeShard X p.id = s) :
    ∃ w d, replicaUpsertOnDisk X peer name s (.localShard (openedShard name s).localShard) points
        (node.memory.stores, node.disk) = ((w, d), .ok ()) ∧
      Node.Represents (X := X) J peer ⟨⟨node.memory.toc, w⟩, d⟩
        (Function.update cat name (some (e.write X points s))) := by
  have h0 : 0 ∈ (openedShard name s).localShard.segments := LocalShard.zero_mem_init _ _
  have hsegment : (openedShard name s).localShard.segments.lookup 0
      = some ⟨collectionDir name ++ [shardName s] ++ ["segments", "0"]⟩ := rfl
  obtain ⟨c, -, -, hstores⟩ := h.memory.of_some he
  have hup := LocalShard.upsertPoints_clean X h0 points (node.memory.stores ⟨peer, name, s⟩)
  have hdb : LocalShard.putAll X points (node.memory.stores ⟨peer, name, s⟩) 0
      = Segment.putAll X points (e.trees s) := by
    rw [LocalShard.putAll_zero, hstores]
  refine ⟨_, _, ?_, h.update (h.proper.isFileName name e he)
    ((h.placed name e he).write hpoints) ?_
    (h.disk.flush (h.proper.isFileName name e he) he hs _) (h.memory.write he s hdb)⟩
  · rw [replicaUpsertOnDisk, replicaUpsert]
    simp only [hup, hsegment, Function.update_self, hdb]
    rfl
  · intro t ht
    have hts : t ≠ s := fun heq ↦ ht (heq ▸ hs)
    rw [CatalogEntry.write]
    simp only [Function.update_of_ne hts]
    exact h.proper.other name e he t ht

end Node.Represents

/-- The calls of an upsert at a node without remote shards. -/
theorem Collection.Opened.shardCalls {c : Collection X} {name : CollectionName}
    {config : CollectionConfig} (h : c.Opened name config) {s : ShardId} (hs : s = 0 ∨ s = 1)
    (points : List (Point V)) : c.shardCalls points true s
      = [⟨s, .localShard (openedShard name s).localShard, shardPoints (homeShard X) points s⟩] := by
  rw [Collection.shardCalls, h.shards, if_pos hs, h.shardOf_eq]
  rfl

namespace Node.Represents

/-- The calls of an upsert, shard after shard. -/
theorem runCalls {name : CollectionName} {c : Collection X} {e : CatalogEntry} {cat : Catalog}
    (hc : c.Opened name e.config) (points : List (Point V)) {toc : TableOfContent X}
    {shards : List ShardId} (hshards : ∀ s ∈ shards, s = 0 ∨ s = 1) {done : List ShardId}
    (hnodup : (done ++ shards).Nodup) {w : Stores} {d : Disk}
    (h : Node.Represents (X := X) J peer ⟨⟨toc, w⟩, d⟩
      (Function.update cat name (some (e.upsertTo X points done)))) :
    ∃ w' d', Collection.runCalls (replicaUpsertOnDisk X peer name)
        (shards.flatMap (c.shardCalls points true)) (w, d) = (w', d') ∧
      Node.Represents (X := X) J peer ⟨⟨toc, w'⟩, d'⟩
        (Function.update cat name (some (e.upsertTo X points (done ++ shards)))) := by
  induction shards generalizing done w d with
  | nil => exact ⟨w, d, rfl, by rwa [List.append_nil]⟩
  | cons s shards ih =>
    have hs := hshards s List.mem_cons_self
    have hnew : s ∉ done := fun hmem ↦
      (List.nodup_append.mp hnodup).2.2 s hmem s List.mem_cons_self rfl
    have hhome : ∀ p ∈ shardPoints (homeShard X) points s, homeShard X p.id = s :=
      fun p hp ↦ (mem_shardPoints.mp hp).1
    obtain ⟨w₁, d₁, hcall, h₁⟩ := h.write (Function.update_self _ _ _) hs hhome
    rw [Function.update_idem, CatalogEntry.write_upsertTo X points hnew] at h₁
    rw [List.append_cons] at hnodup ⊢
    obtain ⟨w₂, d₂, hrun, h₂⟩ := ih (fun t ht ↦ hshards t (List.mem_cons_of_mem _ ht)) hnodup h₁
    refine ⟨w₂, d₂, ?_, h₂⟩
    rw [List.flatMap_cons, hc.shardCalls hs, Collection.runCalls_append]
    show Collection.runCalls _ _ (replicaUpsertOnDisk X peer name s _ _ (w, d)).1 = _
    rw [hcall, hrun]

variable {node : Node X} {cat : Catalog} (h : node.Represents J peer cat)

include h

/-- **Points are upserted.** -/
theorem performPointsOp (order : IterOrder (ShardId × List PointId)) (name : CollectionName)
    (points : List (Point V)) :
    ∃ node', node.performPointsOp peer order name points
        = (node', some (cat.perform X (.upsert name points)).2) ∧
      node'.Represents J peer (cat.perform X (.upsert name points)).1 := by
  rw [Node.performPointsOp, Catalog.perform]
  cases he : cat name with
  | none =>
    rw [h.memory.lookup_of_none he]
    exact ⟨node, rfl, h⟩
  | some e =>
    obtain ⟨c, hc, hopened, -⟩ := h.memory.of_some he
    have h0 : 0 ∈ c.replicaHolder.shards := hopened.mem_iff.mpr (Or.inl rfl)
    obtain ⟨visited, rest, result, horder, hrun, hcase⟩ := Collection.upsertPoints_spec
      (replicaUpsertOnDisk_oblivious peer name) (node.memory.stores, node.disk) h0 order points true
    have hup := (c.upsertPoints_of_no_remotes hopened.remotes_eq_nil
      (replicaUpsertOnDisk X peer name) order points false
      (node.memory.stores, node.disk)).trans (hrun _)
    -- every shard acknowledges, since its one replica does
    have hack : ∀ s, (s = 0 ∨ s = 1) → c.Acknowledges (replicaUpsertOnDisk X peer name)
        (node.memory.stores, node.disk) points true s := by
      intro s hs
      have hhome : ∀ p ∈ shardPoints (homeShard X) points s, homeShard X p.id = s :=
        fun p hp ↦ (mem_shardPoints.mp hp).1
      obtain ⟨w', d', hcall, -⟩ := h.write he hs hhome
      refine ⟨openedShard name s, by rw [hopened.shards, if_pos hs], ⟨[], ?_⟩, Or.inl rfl⟩
      rw [Collection.results, ReplicaSet.replicas, hopened.shardOf_eq]
      show [(replicaUpsertOnDisk X peer name s _ _ _).2] = _
      rw [hcall]
    have hall : ∀ s ∈ visited ++ rest, s = 0 ∨ s = 1 := by
      intro s hs
      rw [← horder, Collection.mem_shardOrder] at hs
      obtain ⟨p, -, hp⟩ := hs
      rw [← hp, hopened.shardOf_eq]
      exact homeShard_eq X p.id
    have hvisited : ∀ s ∈ visited, s = 0 ∨ s = 1 := fun s hs ↦ hall s (List.mem_append_left _ hs)
    rcases hcase with ⟨rfl, rfl, -⟩ | ⟨-, acked, s, rfl, -, hs⟩
    · rw [List.append_nil] at horder
      have hnodup : visited.Nodup := by
        rw [← horder]
        exact Collection.shardOrder_nodup order points
      rw [← List.nil_append visited] at hnodup
      have hstart : Node.Represents (X := X) J peer ⟨node.memory, node.disk⟩
          (Function.update cat name (some (e.upsertTo X points []))) := by
        rw [CatalogEntry.upsertTo_nil, ← he, Function.update_eq_self]
        exact h
      obtain ⟨w', d', hcalls, h'⟩ := runCalls hopened points hvisited hnodup hstart
      rw [hcalls] at hup
      rw [List.nil_append, CatalogEntry.upsertTo_eq_upsert] at h'
      · exact ⟨_, by simp only [hc, hup], h'⟩
      · intro s hs
        rw [← hopened.shardOf_eq]
        rw [← horder] at hs
        exact Collection.shardPoints_eq_nil hs
    · exact absurd (hack s (hvisited s (by simp))) hs

/-- **A collection is created or deleted.** -/
theorem performCollectionMetaOp (listing : Path → IterOrder String)
    (order : IterOrder (Σ _ : ShardId, ReplicaSet)) {operation : CollectionMetaOperation}
    (hname : Path.IsFileName (Request.metaOp operation : Request V).name) :
    ∃ node', node.performCollectionMetaOp J peer listing order operation
        = (node', some (cat.perform X (.metaOp operation)).2) ∧
      node'.Represents J peer (cat.perform X (.metaOp operation)).1 := by
  rw [Node.performCollectionMetaOp]
  cases operation with
  | createCollection name params =>
    replace hname : Path.IsFileName name := hname
    rw [Catalog.perform]
    cases he : cat name with
    | some e =>
      rw [h.disk.exec_create_of_some hname he]
      exact ⟨node, rfl, h⟩
    | none =>
      obtain ⟨d', hrun, hdisk⟩ := h.disk.exec_create (ε := Empty) listing hname he peer order params
        (h.memory.of_none he)
      rw [hrun]
      refine ⟨_, rfl, h.update hname ?_ (fun _ _ ↦ rfl) hdisk
        (h.memory.insert (Collection.init_opened name ⟨params⟩ order) fun _ ↦ rfl)⟩
      intro s k v hv
      simp at hv
  | deleteCollection name =>
    replace hname : Path.IsFileName name := hname
    rw [Catalog.perform]
    cases he : cat name with
    | none =>
      rw [TableOfContent.exec_delete_of_none (h.memory.lookup_of_none he)]
      exact ⟨node, rfl, h⟩
    | some e =>
      obtain ⟨c, hc, hopened, -⟩ := h.memory.of_some he
      obtain ⟨d', hrun, hdisk⟩ := h.disk.exec_delete (ε := Empty) listing hname he peer order hc
        hopened.path
      rw [hrun]
      have hcat : ∀ n e', Function.update cat name none n = some e' → cat n = some e' := by
        intro n e' he'
        by_cases hn : n = name
        · rw [hn, Function.update_self] at he'
          exact nomatch he'
        · rwa [Function.update_of_ne hn] at he'
      exact ⟨_, rfl, ⟨fun n e' he' ↦ h.proper.isFileName n e' (hcat n e' he'),
        fun n e' he' ↦ h.proper.other n e' (hcat n e' he')⟩,
        fun n e' he' ↦ h.placed n e' (hcat n e' he'), hdisk, h.memory.erase name⟩

/-- **A restart.** -/
theorem start (env : LoadEnv) :
    ∃ node' : Node X, Node.start J peer env node.disk = (node', []) ∧
      node'.Represents J peer cat := by
  obtain ⟨memory, hrun, hmemory⟩ := TableOfContent.exec_load (X := X) (ε := Empty) env peer
      h.disk h.proper
  refine ⟨⟨memory, node.disk⟩, ?_, h.proper, h.placed, h.disk, hmemory⟩
  rw [Node.start, hrun]

end Node.Represents

/-! ## Runs -/

/-- The requests of a run. -/
def Node.requests (events : List (Node.Event V)) : List (Request V) :=
  events.filterMap Node.Event.request

/-- All names are ordinary file names. -/
def ProperNames (requests : List (Request V)) : Prop := ∀ r ∈ requests, Path.IsFileName r.name

namespace Node.Represents

/-- **A run is a run of the catalog**, whatever restarts are in it. -/
theorem run {node : Node X} {cat : Catalog} (h : node.Represents J peer cat)
    {events : List (Node.Event V)} (hnames : ProperNames (Node.requests events)) :
    ∃ node', Node.run J peer events node = (node', cat.answers X (Node.requests events)) ∧
      node'.Represents J peer (cat.run X (Node.requests events)) := by
  induction events generalizing node cat with
  | nil => exact ⟨node, rfl, h⟩
  | cons event events ih =>
    cases event with
    | metaOp listing order operation =>
      obtain ⟨node₁, hstep, h₁⟩ := h.performCollectionMetaOp (X := X) listing order
        (hnames _ List.mem_cons_self)
      obtain ⟨node₂, hrun, h₂⟩ := ih h₁ fun r hr ↦ hnames r (List.mem_cons_of_mem _ hr)
      refine ⟨node₂, ?_, h₂⟩
      rw [Node.run, Node.step, hstep, hrun]
      rfl
    | upsert order name points =>
      obtain ⟨node₁, hstep, h₁⟩ := h.performPointsOp order name points
      obtain ⟨node₂, hrun, h₂⟩ := ih h₁ fun r hr ↦ hnames r (List.mem_cons_of_mem _ hr)
      refine ⟨node₂, ?_, h₂⟩
      rw [Node.run, Node.step, hstep, hrun]
      rfl
    | restart env =>
      obtain ⟨node₁, hstep, h₁⟩ := h.start env
      obtain ⟨node₂, hrun, h₂⟩ := ih h₁ hnames
      refine ⟨node₂, ?_, h₂⟩
      rw [Node.run, Node.step, hstep, hrun]
      rfl

end Node.Represents

/-- **The first start**, in a directory that is empty. -/
theorem Node.represents_start (X : Crates V) (J : ConfigJson) (peer : PeerId) (env : LoadEnv) :
    ∃ node : Node X, Node.start J peer env .empty = (node, []) ∧
      node.Represents J peer fun _ ↦ none := by
  have hord : TableOfContent.collectionsPath.IsOrdinary := by decide
  have hempty : ∀ p : Path, p ≠ [] → (FileTree.empty : Disk).lookup p = none := fun p hp ↦
    FileTree.lookup_empty_of_ne hp
  obtain ⟨d, hmkdir, hview⟩ := Fs.exec_createDirAll (d := .empty) hord env.listing fun q a _ ha ↦ by
    by_cases hq : q = []
    · rw [hq, FileTree.lookup_nil] at ha
      cases ha
    · rw [hempty q hq] at ha
      cases ha
  have hholds : Holds J (fun _ ↦ none) d := by
    refine ⟨by rw [hview, View.withDirs, if_pos List.prefix_rfl], fun name ↦ ?_⟩
    funext r
    rw [View.below_apply, hview, View.withDirs, collectionDir, List.append_assoc,
      if_neg (FileTree.not_append_prefix (by simp)), hempty _ (by simp)]
    rfl
  have hproper : Catalog.Proper fun _ ↦ none := ⟨fun _ _ h ↦ (by cases h), fun _ _ h ↦ by cases h⟩
  obtain ⟨memory, hrun, hmemory⟩ := TableOfContent.exec_load (X := X) (ε := Empty) env peer
      hholds hproper
  have hdir : Fs.exec env.listing (Fs.createDirAll TableOfContent.collectionsPath) d
      = (d, .ok ()) :=
    Fs.exec_createDirAll_of_dir hord hholds.dir
  refine ⟨⟨memory, d⟩, ?_, hproper, fun _ _ h ↦ (by cases h), hholds, hmemory⟩
  rw [Fs.exec, TableOfContent.load, Program.run_bind_of (Program.run_expect_of hdir _)] at hrun
  rw [Node.start, Fs.exec, TableOfContent.load,
    Program.run_bind_of (Program.run_expect_of hmkdir _), hrun]

end Smoldb
