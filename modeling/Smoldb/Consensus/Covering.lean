import Smoldb.Consensus.Shape

/-!
# Do the replica sets cover the peers?

A peer that becomes known gets remote shards in all collections there are, by whichever of the two
handlers heard of it.  A collection that is made afterwards gets none: `Collection::init` has a note
that says so.  Whether the replica sets of a node cover the peers it knows is therefore decided when
a collection is inserted.  If a peer is known then whose remote shards are not about to be added,
they never will be, and `Overlooks` says that a step is of that kind.

`covering_iff` says that these are the only steps that are to blame.  The invariant is `Covering`: a
peer is in the replica sets of every collection, or some operation in progress is going to see to
it.  It is stated with the operations in progress because the two things that a node keeps are
behind different locks: a peer is known a step before its remote shards are added, and in between a
collection may be inserted, which then gets them as well.  When no operation is in progress,
`Covering` says that everything is covered.

Deleting a collection and making it again comes to the same as making a new one, and is overlooked
in the same way.
-/

set_option autoImplicit false

namespace Smoldb

variable {V : Type} {X : Crates V}

/-- The replica set of every shard has a remote shard for the peer. -/
def Collection.Covers (self : Collection X) (p : PeerId) : Prop :=
  ∀ s rs, self.replicaHolder.shards.lookup s = some rs → ∃ r ∈ rs.remotes, r.peerId = p

/-- Adding remote shards for a peer covers it, and whoever has been covered before. -/
theorem Collection.covers_addRemoteShards {c : Collection X} {p q : PeerId}
    (h : c.Covers p ∨ q = p) (name : CollectionName) :
    ({ c with replicaHolder := c.replicaHolder.addRemoteShards q name } :
      Collection X).Covers p := by
  intro s rs hrs
  rw [ReplicaHolder.lookup_addRemoteShards, Option.map_eq_some_iff] at hrs
  obtain ⟨rs₀, hrs₀, rfl⟩ := hrs
  obtain hq | hq := ReplicaHolder.any_or_new q rs₀
  · rw [ReplicaHolder.addRemote_of_any hq]
    obtain h | rfl := h
    · exact h s rs₀ hrs₀
    · exact hq
  · rw [ReplicaHolder.addRemote_of_new hq]
    obtain h | rfl := h
    · obtain ⟨r, hr, hrp⟩ := h s rs₀ hrs₀
      exact ⟨r, List.mem_append_left _ hr, hrp⟩
    · exact ⟨⟨s, name, q⟩, List.mem_append_right _ (List.mem_singleton_self _), rfl⟩

namespace Server

/-- The node knows the peer, and the peer is not the node itself. -/
def Knows (self : Server X) (p : PeerId) : Prop :=
  p ∈ self.persistent.peers ∧ p ≠ self.persistent.peerId

/-- The replica sets of a node cover its peers. -/
def Covered (self : Server X) : Prop :=
  ∀ name c, self.toc.collections.lookup name = some c → ∀ p, self.Knows p → c.Covers p

/-- The step inserts a collection, and there is a peer that the node knows and that no operation in
progress is about to add remote shards for. -/
def Overlooks (self : Server X) : Action → Prop
  | .advance i => ∃ name c, self.tasks[i]? = some (.insertCollection name c) ∧
      name ∉ self.toc.collections ∧ ∃ p, self.Knows p ∧ ∀ t ∈ self.tasks, ¬ t.Adds p
  | _ => False

/-- The states a node can get into without such a step. -/
inductive Attentive (U : UriCrate) (J : ConfigJson) : Server X → Prop
  | start (p2pUri : Uri) (peerId : PeerId) {toc : TableOfContent X} (h : toc.Loaded J peerId) :
    Attentive U J (.start p2pUri peerId toc)
  | step {s : Server X} (h : Attentive U J s) {a : Action} (ha : ¬ s.Overlooks a) :
    Attentive U J (s.step U a)

variable {U : UriCrate} {J : ConfigJson} {s : Server X}

theorem Attentive.reachable (h : s.Attentive U J) : s.Reachable U J := by
  induction h with
  | start p2pUri peerId h => exact .start p2pUri peerId h
  | step _ _ ih => exact ih.step _

/-! ## The invariant -/

/-- A peer is in the replica sets, or is going to be. -/
def Covering (self : Server X) : Prop :=
  ∀ name c, self.toc.collections.lookup name = some c → ∀ p, self.Knows p →
    c.Covers p ∨ ∃ t ∈ self.tasks, t.Adds p

/-- An operation that is not the one that goes on stays in progress. -/
theorem exists_adds_advance {tasks : List (Task X)} {i : ℕ} {t : Task X} {p : PeerId}
    (hi : tasks[i]? = some t) (ht : ¬ t.Adds p) (h : ∃ t ∈ tasks, t.Adds p)
    (rest : List (Task X)) : ∃ t ∈ tasks.eraseIdx i ++ rest, t.Adds p := by
  obtain ⟨t', ht', hadds⟩ := h
  obtain ⟨j, hj⟩ := List.mem_iff_getElem?.mp ht'
  have hij : j ≠ i := by
    rintro rfl
    rw [hi, Option.some.injEq] at hj
    exact ht (hj ▸ hadds)
  exact ⟨t', List.mem_append_left _ (List.mem_eraseIdx_iff_getElem?.mpr ⟨j, hij, hj⟩), hadds⟩

theorem exists_adds_append {tasks : List (Task X)} {p : PeerId} (rest : List (Task X))
    (h : ∃ t ∈ tasks, t.Adds p) : ∃ t ∈ tasks ++ rest, t.Adds p := by
  obtain ⟨t, ht, hadds⟩ := h
  exact ⟨t, List.mem_append_left _ ht, hadds⟩

/-- The invariant is kept as long as no operation is lost that sees to a peer. -/
theorem Covering.of_tasks (h : s.Covering) {tasks : List (Task X)}
    (hkeep : ∀ p, (∃ t ∈ s.tasks, t.Adds p) → ∃ t ∈ tasks, t.Adds p) :
    ({ s with tasks := tasks } : Server X).Covering :=
  fun name c hc p hp ↦ (h name c hc p hp).imp_right (hkeep p)

/-- A peer is learned of, and there is an operation that sees to it. -/
theorem Covering.addPeer (h : s.Covering) {q : PeerId} {uri : Uri} {tasks : List (Task X)}
    (hkeep : ∀ p, (∃ t ∈ s.tasks, t.Adds p) → ∃ t ∈ tasks, t.Adds p)
    (hq : ∃ t ∈ tasks, t.Adds q) :
    ({ s with persistent := s.persistent.addPeer q uri, tasks := tasks } : Server X).Covering := by
  rintro name c hc p ⟨hp, hne⟩
  obtain rfl | hp := Persistent.mem_addPeer.mp hp
  · exact Or.inr hq
  · exact (h name c hc p ⟨hp, hne⟩).imp_right (hkeep p)

/-- A collection is inserted, and all peers it lacks are seen to, or the name is taken. -/
theorem Covering.insertCollection (h : s.Covering) {i : ℕ} {name : CollectionName}
    {c : Collection X} (hi : s.tasks[i]? = some (.insertCollection name c))
    (ha : ¬ s.Overlooks (.advance i)) {tasks : List (Task X)}
    (hkeep : ∀ p, (∃ t ∈ s.tasks, t.Adds p) → ∃ t ∈ tasks, t.Adds p) :
    ({ s with toc := s.toc.insertCollection name c, tasks := tasks } : Server X).Covering := by
  intro name' c' hc' p hp
  obtain hc' | ⟨rfl, rfl⟩ := TableOfContent.lookup_insertCollection hc'
  · exact (h name' c' hc' p hp).imp_right (hkeep p)
  · by_cases hmem : name' ∈ s.toc.collections
    · -- the name is taken, and nothing is inserted
      have hsame : s.toc.insertCollection name' c' = s.toc := if_pos hmem
      rw [hsame] at hc'
      exact (h name' c' hc' p hp).imp_right (hkeep p)
    · refine Or.inr (hkeep p ?_)
      by_contra hnone
      exact ha ⟨name', c', hi, hmem, p, hp, fun t ht hadds ↦ hnone ⟨t, ht, hadds⟩⟩

/-- Remote shards for a peer are added to all collections. -/
theorem Covering.addRemoteShards (h : s.Covering) {q : PeerId} {tasks : List (Task X)}
    (hkeep : ∀ p, q ≠ p → (∃ t ∈ s.tasks, t.Adds p) → ∃ t ∈ tasks, t.Adds p) :
    ({ s with toc := s.toc.addRemoteShards q, tasks := tasks } : Server X).Covering := by
  intro name c hc p hp
  rw [TableOfContent.lookup_addRemoteShards, Option.map_eq_some_iff] at hc
  obtain ⟨c₀, hc₀, rfl⟩ := hc
  by_cases hqp : q = p
  · exact Or.inl (Collection.covers_addRemoteShards (Or.inr hqp) name)
  · exact (h name c₀ hc₀ p hp).imp
      (fun hcov ↦ Collection.covers_addRemoteShards (Or.inl hcov) name) (hkeep p hqp)

/-- One step keeps the invariant, unless it overlooks a peer. -/
theorem Covering.step (h : s.Covering) {a : Action} (ha : ¬ s.Overlooks a) :
    (s.step U a).Covering := by
  cases a with
  | createCollection name params order => exact h.of_tasks fun _ ↦ exists_adds_append _
  | deleteCollection name =>
    intro name' c hc p hp
    exact h name' c (TableOfContent.lookup_of_erase hc) p hp
  | addPeerToKnown message =>
    rw [Server.step]
    split
    · -- the operation that begins with this step sees to the new peer
      exact h.addPeer (fun _ ↦ exists_adds_append _)
        ⟨_, List.mem_append_right _ (List.mem_singleton_self _), rfl⟩
    · exact h
  | bootstrap answer => exact h.of_tasks fun _ ↦ exists_adds_append _
  | advance i =>
    cases hi : s.tasks[i]? with
    | none =>
      rw [Server.step, hi]
      exact h
    | some t =>
      rw [step_advance hi]
      have heffect := t.effect U s.persistent s.toc
      generalize t.step U s.persistent s.toc = r at heffect ⊢
      cases heffect with
      | inserts name c =>
        exact h.insertCollection hi ha fun p hp ↦ exists_adds_advance hi (fun ht ↦ ht) hp _
      | @adds _ rest q hq hrest =>
        exact h.addRemoteShards fun p hqp hp ↦
          exists_adds_advance hi (fun ht ↦ hqp (Task.adds_unique hq ht)) hp _
      | @learns q text uri peers hq huri =>
        exact h.addPeer (fun p hp ↦ exists_adds_advance hi (fun ht ↦ ht) hp _)
          ⟨_, List.mem_append_right _ (List.mem_singleton_self _), rfl⟩
      | talks ht hrest =>
        exact h.of_tasks fun p hp ↦ exists_adds_advance hi (ht.not_adds p) hp _

theorem Attentive.covering (h : s.Attentive U J) : s.Covering := by
  induction h with
  | start p2pUri peerId h =>
    intro name c hc p ⟨hp, hne⟩
    exact absurd (ConsensusState.mem_dummy.mp hp).symm hne
  | step _ ha ih => exact ih.step ha

/-- A collection that is inserted has no remote shard for the peer that was overlooked. -/
theorem Overlooks.not_covered {a : Action} (ha : s.Overlooks a) (h : s.Shaped) :
    ¬ (s.step U a).Covered := by
  cases a with
  | createCollection name params order => exact ha.elim
  | deleteCollection name => exact ha.elim
  | addPeerToKnown message => exact ha.elim
  | bootstrap answer => exact ha.elim
  | advance i =>
    obtain ⟨name, c, hi, hname, p, hp, -⟩ := ha
    obtain ⟨config, path, order, rfl⟩ := h.tasks _ (List.mem_of_getElem? hi)
    intro hcov
    rw [step_advance hi] at hcov
    have hlookup : (s.toc.insertCollection name (.init name config path order)).collections.lookup
        name = some (.init name config path order) := by
      rw [TableOfContent.insertCollection, if_neg hname, AList.lookup_insert]
    obtain ⟨r, hr, -⟩ := hcov name _ hlookup p hp 0 _
      (by rw [Collection.lookup_init, if_pos rfl])
    cases hr

end Server

/-- **Replica sets cover the peers** once nothing is in progress, as long as no collection is
inserted while a peer is known whose remote shards are not about to be added; and they do not, right
after one is. -/
theorem covering_iff (X : Crates V) (U : UriCrate) (J : ConfigJson) :
    (∀ s : Server X, s.Attentive U J → s.tasks = [] → s.Covered) ∧
    ∀ s : Server X, s.Attentive U J → ∀ a, (s.step U a).tasks = [] →
      ((s.step U a).Covered ↔ ¬ s.Overlooks a) := by
  have hcovered : ∀ s : Server X, s.Attentive U J → s.tasks = [] → s.Covered := by
    intro s h htasks name c hc p hp
    obtain hcov | ⟨t, ht, -⟩ := h.covering name c hc p hp
    · exact hcov
    · rw [htasks] at ht
      exact nomatch ht
  refine ⟨hcovered, fun s h a htasks ↦ ⟨fun hcov ha ↦ ?_, fun ha ↦ ?_⟩⟩
  · exact ha.not_covered h.reachable.shaped hcov
  · exact hcovered _ (h.step ha) htasks

/-- A node that has made a collection before it heard of a peer. -/
theorem covering_iff_secondHeard :
    ((Server.first Crates.bool).run .plain (secondHeard ++ [.advance 0])).Covered := by
  have h₀ : (Server.first Crates.bool).Attentive .plain .plain :=
    .start _ _ (TableOfContent.loaded_empty .plain 101)
  have h₁ := h₀.step (a := .createCollection "c" "" .insertion) fun ha ↦ ha
  have h₂ := h₁.step (a := .advance 0) fun ⟨_, _, _, _, p, hp, _⟩ ↦
    hp.2 (ConsensusState.mem_dummy.mp hp.1).symm
  have h₃ := h₂.step (a := .addPeerToKnown .second) fun ha ↦ ha
  have h₄ := h₃.step (a := .advance 0) fun ⟨_, _, hi, _⟩ ↦ nomatch hi
  have h₅ := h₄.step (a := .advance 0) fun ⟨_, _, hi, _⟩ ↦ nomatch hi
  exact (covering_iff Crates.bool .plain .plain).1 _ h₅ rfl

/-- A node hears of a peer, and then makes a collection. -/
def heardSecond : List Server.Action :=
  [.addPeerToKnown .second, .advance 0, .advance 0, .createCollection "c" "" .insertion, .advance 0]

/-- The peer gets no remote shards in the new collection. -/
theorem not_covered_heardSecond : ¬ ∀ s : Server Crates.bool, s.Reachable .plain .plain →
    s.tasks = [] → s.Covered := by
  intro h
  have hcov := h _ ((Server.reachable_first .plain .plain).run heardSecond) rfl
  obtain ⟨r, hr, -⟩ := hcov "c" _ rfl 102 ⟨by decide, by decide⟩ 0 _ rfl
  exact nomatch hr

end Smoldb
