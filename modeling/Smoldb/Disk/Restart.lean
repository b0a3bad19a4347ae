import Smoldb.Disk.Reads

/-!
# Restarts

Somebody who reads from a node cannot tell whether it has been restarted.  `Node.Agree` is what it
means for two nodes that they cannot be told apart: they have the same collections with the same
params, and a read that succeeds at one of them succeeds at the other and returns the same.  Two
nodes that represent one catalog agree (`Represents.agree`), and two runs with the same requests end
in such nodes, so `restarts_lose_nothing` has little left to show.

That two nodes agree would also be so if both had lost everything, or if no read succeeded.
Therefore it says more: a point that is listed is found by its id (`Node.Finds`), no read fails as
long as the points that were sent can be read back (`Node.Answers`), and what was created and not
asked for since is empty (`Node.HasEmpty`).
-/

set_option autoImplicit false

namespace Smoldb

open LastWrite

open FileTree (View)

variable {V : Type} {X : Crates V} {J : ConfigJson} {peer : PeerId}

/-! ## What somebody who reads from a node sees -/

/-- Two reads both succeed, with answers in a relation, or both return an error. -/
def SameOutcome (R : List (Point V) → List (Point V) → Prop) :
    Option (CollectionResult (List (Point V))) → Option (CollectionResult (List (Point V))) → Prop
  | some (.ok ps), some (.ok ps₁) => R ps ps₁
  | some (.error _), some (.error _) => True
  | _, _ => False

theorem SameOutcome.intro {R : List (Point V) → List (Point V) → Prop}
    {a a₁ : Option (CollectionResult (List (Point V)))} (ha : a ≠ none) (ha₁ : a₁ ≠ none)
    (h : ∀ ps, a = some (.ok ps) → ∃ ps₁, a₁ = some (.ok ps₁))
    (h₁ : ∀ ps₁, a₁ = some (.ok ps₁) → ∃ ps, a = some (.ok ps))
    (hR : ∀ ps ps₁, a = some (.ok ps) → a₁ = some (.ok ps₁) → R ps ps₁) : SameOutcome R a a₁ := by
  rcases a with - | ⟨e | ps⟩
  · exact absurd rfl ha
  · rcases a₁ with - | ⟨e₁ | ps₁⟩
    · exact absurd rfl ha₁
    · trivial
    · obtain ⟨ps, hps⟩ := h₁ ps₁ rfl
      cases hps
  · rcases a₁ with - | ⟨e₁ | ps₁⟩
    · exact absurd rfl ha₁
    · obtain ⟨ps₁, hps₁⟩ := h ps rfl
      cases hps₁
    · exact hR ps ps₁ rfl rfl

/-- Two nodes have the same collections, and read the same from them.  Of reads that fail only that
they do is the same: a read stops at the first thing it cannot read, and which that is depends on
the order of a hash map. -/
structure Node.Agree (peer : PeerId) (node node₁ : Node X) : Prop where
  names : ∀ name, name ∈ node.memory.toc.collections ↔ name ∈ node₁.memory.toc.collections
  config : ∀ name c c₁, node.memory.toc.collections.lookup name = some c →
    node₁.memory.toc.collections.lookup name = some c₁ → c.config = c₁.config
  ids : ∀ name c c₁, node.memory.toc.collections.lookup name = some c →
    node₁.memory.toc.collections.lookup name = some c₁ → ∀ order order₁ ids localOnly,
      SameOutcome List.Perm (node.getPoints peer name c order (some ids) none localOnly)
        (node₁.getPoints peer name c₁ order₁ (some ids) none localOnly) ∧
      ∀ s, node.getPoints peer name c order (some ids) (some s) localOnly
        = node₁.getPoints peer name c₁ order₁ (some ids) (some s) localOnly
  list : ∀ name c c₁, node.memory.toc.collections.lookup name = some c →
    node₁.memory.toc.collections.lookup name = some c₁ → ∀ order order₁ shardId,
      SameOutcome Eq (node.getPoints peer name c order none shardId true)
        (node₁.getPoints peer name c₁ order₁ none shardId true)

/-- All reads by id and all local lists at a node succeed. -/
def Node.Answers (peer : PeerId) (node : Node X) : Prop :=
  ∀ name c, node.memory.toc.collections.lookup name = some c → ∀ order,
    (∀ ids localOnly, ∃ ps,
      node.getPoints peer name c order (some ids) none localOnly = some (.ok ps)) ∧
    (∀ ids s localOnly, s ∈ c.replicaHolder.shards → ∃ ps,
      node.getPoints peer name c order (some ids) (some s) localOnly = some (.ok ps)) ∧
    ∀ shardId, ∃ ps, node.getPoints peer name c order none shardId true = some (.ok ps)

/-- Every point of a node is found again by its id. -/
def Node.Finds (peer : PeerId) (node : Node X) : Prop :=
  ∀ name c, node.memory.toc.collections.lookup name = some c → ∀ order order' shardId ps,
    node.getPoints peer name c order none shardId true = some (.ok ps) → ∀ p ∈ ps,
      ∀ localOnly, node.getPoints peer name c order' (some [p.id]) none localOnly = some (.ok [p])

/-- A collection of a node has these params and nothing in it. -/
def Node.HasEmpty (peer : PeerId) (node : Node X) (name : CollectionName) (params : String) :
    Prop :=
  ∃ c, node.memory.toc.collections.lookup name = some c ∧ c.config.params = params ∧
    (∀ order shardId, node.getPoints peer name c order none shardId true = some (.ok [])) ∧
    ∀ order ids localOnly, node.getPoints peer name c order (some ids) none localOnly
      = some (.ok [])

namespace Node.Represents

variable {node node₁ : Node X} {cat : Catalog} (h : node.Represents J peer cat)

include h

theorem exists_entry {name : CollectionName} {c : Collection X}
    (hc : node.memory.toc.collections.lookup name = some c) : ∃ e, cat name = some e :=
  h.memory.mem_iff.mp (AList.lookup_isSome.mp (by rw [hc]; rfl))

/-- **Nodes that represent one catalog agree.** -/
theorem agree (h₁ : node₁.Represents J peer cat) : node.Agree peer node₁ := by
  refine ⟨fun name ↦ by rw [h.memory.mem_iff, h₁.memory.mem_iff], ?_, ?_, ?_⟩
  · intro name c c₁ hc hc₁
    obtain ⟨e, he⟩ := h.exists_entry hc
    rw [(h.opened he hc).config, (h₁.opened he hc₁).config]
  · intro name c c₁ hc hc₁ order order₁ ids localOnly
    obtain ⟨e, he⟩ := h.exists_entry hc
    refine ⟨.intro (node.getPoints_ne_none _ _ _ _ _ _) (node₁.getPoints_ne_none _ _ _ _ _ _)
      (fun ps hps ↦ ?_) (fun ps₁ hps₁ ↦ ?_) fun ps ps₁ hps hps₁ ↦ ?_, fun s ↦ ?_⟩
    · obtain ⟨ps₁, hps₁, -⟩ := h₁.getPoints_ids_clean he hc₁ order₁ _ (h.getPoints_ids he hc hps).1
        localOnly
      exact ⟨ps₁, hps₁⟩
    · obtain ⟨ps, hps, -⟩ := h.getPoints_ids_clean he hc order _ (h₁.getPoints_ids he hc₁ hps₁).1
        localOnly
      exact ⟨ps, hps⟩
    · exact (h.getPoints_ids he hc hps).2.trans (h₁.getPoints_ids he hc₁ hps₁).2.symm
    · rw [h.getPoints_shard he hc, h₁.getPoints_shard he hc₁]
  · intro name c c₁ hc hc₁ order order₁ shardId
    obtain ⟨e, he⟩ := h.exists_entry hc
    refine .intro (node.getPoints_ne_none _ _ _ _ _ _) (node₁.getPoints_ne_none _ _ _ _ _ _)
      (fun ps hps ↦ ?_) (fun ps₁ hps₁ ↦ ?_) fun ps ps₁ hps hps₁ ↦ ?_
    · obtain ⟨ps₁, hps₁, -⟩ := h₁.getPoints_list_clean he hc₁ order₁ _
        (h.getPoints_list he hc hps).1
      exact ⟨ps₁, hps₁⟩
    · obtain ⟨ps, hps, -⟩ := h.getPoints_list_clean he hc order _
        (h₁.getPoints_list he hc₁ hps₁).1
      exact ⟨ps, hps⟩
    · obtain ⟨-, hsorted, hmem⟩ := h.getPoints_list he hc hps
      obtain ⟨-, hsorted₁, hmem₁⟩ := h₁.getPoints_list he hc₁ hps₁
      exact hsorted.eq_of_mem_iff hsorted₁ fun p ↦ by rw [hmem, hmem₁]

theorem finds : node.Finds peer := by
  intro name c hc order order' shardId ps hps p hp localOnly
  obtain ⟨e, he⟩ := h.exists_entry hc
  obtain ⟨-, -, hmem⟩ := h.getPoints_list he hc hps
  have hread := h.read_of_lists he hc ((hmem p).mp hp)
  have hreads : e.ReadsIds X [p.id] := by
    intro id hid v hv
    rw [List.mem_singleton.mp hid] at hv
    obtain ⟨w, hw, hdec⟩ := (Segment.read_eq_some_iff X).mp hread
    rw [← Option.some.inj (hw.symm.trans hv)]
    exact ⟨p, hdec⟩
  obtain ⟨qs, hqs, hperm⟩ := h.getPoints_ids_clean he hc order' _ hreads localOnly
  have hfound : [p.id].filterMap (fun id ↦ e.read X (homeShard X id) id) = [p] :=
    List.filterMap_cons_some hread
  rw [hfound] at hperm
  rw [hqs, List.perm_singleton.mp hperm]

theorem hasEmpty {name params : String} (he : cat name = some ⟨⟨params⟩, fun _ ↦ ∅⟩) :
    node.HasEmpty peer name params := by
  obtain ⟨c, hc, hopened, -⟩ := h.memory.of_some he
  refine ⟨c, hc, by rw [hopened.config], fun order shardId ↦ ?_, fun order ids localOnly ↦ ?_⟩
  · obtain ⟨ps, hps, -, hmem⟩ := h.getPoints_list_clean he hc order shardId
      fun s _ _ k v hv ↦ absurd hv (by simp)
    rw [hps, List.eq_nil_iff_forall_not_mem.mpr fun p hp ↦ CatalogEntry.not_lists ((hmem p).mp hp)]
  · obtain ⟨ps, hps, hperm⟩ := h.getPoints_ids_clean he hc order ids
      (fun id _ v hv ↦ absurd hv (by simp)) localOnly
    have hnone : ids.filterMap (fun id ↦ CatalogEntry.read X ⟨⟨params⟩, fun _ ↦ ∅⟩
        (homeShard X id) id) = [] :=
      List.filterMap_eq_nil_iff.mpr fun id _ ↦ by simp [CatalogEntry.read, Segment.read]
    rw [hnone] at hperm
    rw [hps, hperm.eq_nil]

/-- **If all points that are stored can be read, all reads succeed.** -/
theorem answers (hcat : cat.All X X.Readable) : node.Answers peer := by
  intro name c hc order
  obtain ⟨e, he⟩ := h.exists_entry hc
  have hreads := hcat.readable he
  refine ⟨fun ids localOnly ↦ ?_, fun ids s localOnly hs ↦ ?_, fun shardId ↦ ?_⟩
  · obtain ⟨ps, hps, -⟩ := h.getPoints_ids_clean he hc order ids
      (fun id _ ↦ hreads _ id.intoString) localOnly
    exact ⟨ps, hps⟩
  · rw [h.getPoints_shard he hc, if_pos ((h.opened he hc).mem_iff.mp hs)]
    have hanswers : Segment.Answers X (some ids) (openedStore (e.trees s) 0) :=
      (hreads s).answers (some ids)
    exact ⟨_, congrArg some (LocalShard.getPoints_clean X (LocalShard.zero_mem_init _ _) _
      hanswers)⟩
  · obtain ⟨ps, hps, -⟩ := h.getPoints_list_clean he hc order shardId
      fun s _ _ ↦ hreads s
    exact ⟨ps, hps⟩

end Node.Represents

/-- A node that has not been started yet, in an empty directory. -/
def Node.down : Node X := ⟨⟨⟨∅⟩, .empty⟩, .empty⟩

/-- **Restarts lose nothing and change nothing.**  Take two runs of a node with the same requests in
the same order, each with restarts wherever it has them, and none in one of them if you like; the
names are ordinary file names, and directories and hash maps are iterated in any order.  No request
and no restart panics, and the answers are the same.  At the end both have the same collections with
the same params, reads by id return the same up to order, and local lists are equal; every point of
a list is found again by its id.  A read that fails at one of them fails at the other, and none does
if the points of the requests can be read from their texts.  A collection that was created and not
asked for since is empty. -/
theorem restarts_lose_nothing (X : Crates V) (J : ConfigJson) (peer : PeerId) (env env₁ : LoadEnv)
    (events events₁ : List (Node.Event V))
    (hrequests : Node.requests events = Node.requests events₁)
    (hnames : ProperNames (Node.requests events)) :
    ∃ (node node₁ : Node X) (answers : List Answer),
      Node.run J peer (.restart env :: events) .down = (node, answers) ∧
      Node.run J peer (.restart env₁ :: events₁) .down = (node₁, answers) ∧
      none ∉ answers ∧ node.Agree peer node₁ ∧ node.Finds peer ∧
      ((∀ r ∈ Node.requests events, ∀ p ∈ r.points, X.Readable p) → node.Answers peer) ∧
      ∀ before name params after, Node.requests events
          = before ++ .metaOp (.createCollection name params) :: after →
        answers[before.length]? = some (some (.ok true)) → (∀ r ∈ after, r.name ≠ name) →
        node.HasEmpty peer name params := by
  obtain ⟨start, hstart, h⟩ := Node.represents_start X J peer env
  obtain ⟨start₁, hstart₁, h₁⟩ := Node.represents_start X J peer env₁
  obtain ⟨node, hrun, h⟩ := h.run hnames
  obtain ⟨node₁, hrun₁, h₁⟩ := h₁.run (hrequests ▸ hnames)
  rw [← hrequests] at hrun₁ h₁
  refine ⟨node, node₁, Catalog.answers X (Node.requests events) fun _ ↦ none, ?_, ?_,
    Catalog.none_notMem_answers X _ _, h.agree h₁, h.finds, fun hreadable ↦ ?_, ?_⟩
  · rw [Node.run, Node.step, Node.down, hstart, hrun]
    rfl
  · rw [Node.run, Node.step, Node.down, hstart₁, hrun₁]
    rfl
  · refine h.answers (Catalog.All.run (fun name e he ↦ ?_) hreadable)
    cases he
  · intro before name params after hsplit hok hafter
    refine h.hasEmpty ?_
    rw [hsplit, Catalog.answers_append, List.getElem?_append_right
      (Catalog.length_answers X before _).le, Catalog.length_answers, Nat.sub_self,
      Catalog.answers, List.getElem?_cons_zero, Option.some_inj, Option.some_inj] at hok
    have hrun : Catalog.run X (before ++ .metaOp (.createCollection name params) :: after)
          (fun _ ↦ none)
        = ((Catalog.run X before fun _ ↦ none).perform X
            (.metaOp (.createCollection name params))).1.run X after :=
      List.foldl_append
    rw [hsplit, hrun, Catalog.run_of_ne hafter, Catalog.perform_create hok]

/-- A collection is made, written to, deleted and made again, with restarts in between if
`restart` is there. -/
def remade (restart : List (Node.Event Bool)) : List (Node.Event Bool) :=
  [.metaOp (fun _ ↦ .insertion) .insertion (.createCollection "c" "p")] ++ restart ++
    [.upsert .insertion "c" [⟨.id 1, true⟩, ⟨.id 2, false⟩]] ++ restart ++
    [.metaOp (fun _ ↦ .insertion) .insertion (.deleteCollection "c")] ++ restart ++
    [.metaOp (fun _ ↦ .insertion) .insertion (.createCollection "c" "q")] ++ restart

/-- A collection that is made again, with restarts and without. -/
theorem restarts_lose_nothing_remade : ∃ (node node₁ : Node Crates.bool) (answers : List Answer),
    Node.run .plain 101 (.restart .insertion :: remade [.restart .reversed]) .down
      = (node, answers) ∧
    Node.run .plain 101 (.restart .insertion :: remade []) .down = (node₁, answers) ∧
    node.Agree 101 node₁ := by
  have hnames : ProperNames (Node.requests (remade [.restart .reversed])) := by
    intro r hr
    simp only [Node.requests, remade, Node.Event.request, List.cons_append, List.nil_append,
      List.filterMap_cons, List.filterMap_nil, List.mem_cons, List.not_mem_nil, or_false] at hr
    rcases hr with rfl | rfl | rfl | rfl <;> decide
  obtain ⟨node, node₁, answers, hrun, hrun₁, -, hagree, -⟩ := restarts_lose_nothing Crates.bool
    .plain 101 .insertion .insertion (remade [.restart .reversed]) (remade []) rfl hnames
  exact ⟨node, node₁, answers, hrun, hrun₁, hagree⟩

end Smoldb
