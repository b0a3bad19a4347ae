import Smoldb.Consensus.Identity
import Smoldb.Live.Cluster

/-!
# The nodes of a cluster at work

What `Network` has for nodes that are only ever started holds for nodes that also stop, as far as it
is about one node.  The invariant has two layers.

* `Server.IsNode` is about a node: it got where it is by steps of its own, it keeps the id that it
  was started with, no operation of it is about to add a remote shard for the node itself, and every
  collection it has in memory has the two shards that it is made with.
* `Network.Orderly` is about all of them: every node that is up is one, under its own id, and no
  node joins through itself, whatever stage its join is at.

Both are kept by everything that happens, with a lemma for each thing that can: a node is started or
stops, takes a step of an operation, or goes on with a join.

They are what the rest needs.  As every collection has the two shards that it is made with, all
nodes route alike, so a point that is sent on goes to the shard of the same number.  And no node has
a remote shard that stands for itself, since no node joins through itself and a node is told only of
those that join; so an upsert does not call its own node.
-/

set_option autoImplicit false

namespace Smoldb

variable {V : Type} {X : Crates V} {U : UriCrate} {J : ConfigJson}

/-! ## The shards of a collection -/

/-- The collection has the shards that `Collection::init` makes. -/
def Collection.TwoShards (c : Collection X) : Prop :=
  ∀ s, s ∈ c.replicaHolder.shards ↔ s = 0 ∨ s = 1

theorem Collection.init_twoShards (name : CollectionName) (config : CollectionConfig) (path : Path)
    (order : IterOrder (Σ _ : ShardId, ReplicaSet)) :
    (Collection.init (X := X) name config path order).TwoShards := fun _ ↦ Collection.mem_init

/-- All such collections route alike. -/
theorem Collection.TwoShards.shardOf_eq {c c' : Collection X} (h : c.TwoShards)
    (h' : c'.TwoShards) : c.shardOf = c'.shardOf :=
  ReplicaHolder.shardOf_congr fun s ↦ (h s).trans (h' s).symm

/-! ## One node -/

/-- What holds of a node. -/
structure Server.IsNode (U : UriCrate) (J : ConfigJson) (p : PeerId) (s : Server X) : Prop where
  reachable : s.Reachable U J
  peerId : s.persistent.peerId = p
  identity : s.KeepsIdentity
  apart : ∀ t ∈ s.tasks, ¬ t.Adds p
  shards : ∀ name c, s.toc.collections.lookup name = some c → c.TwoShards

namespace Server.IsNode

variable {p : PeerId} {s : Server X}

theorem start {toc : TableOfContent X} (p2pUri : Uri) (h : toc.Loaded J p)
    (hshards : ∀ name c, toc.collections.lookup name = some c → c.TwoShards) :
    (Server.start p2pUri p toc).IsNode U J p where
  reachable := .start p2pUri p h
  peerId := rfl
  identity := keepsIdentity_start h
  apart _ ht := absurd ht (by simp [Server.start])
  shards := hshards

/-- What an operation does next is to add remote shards for the node itself only if it was that
already. -/
theorem not_adds_rest {t rest : Task X} (hpeer : s.persistent.peerId = p)
    (h : (t.step U s.persistent s.toc).2.2 = some rest) : ¬ rest.Adds p := by
  have heffect := t.effect U s.persistent s.toc
  generalize t.step U s.persistent s.toc = r at heffect h
  cases heffect with
  | inserts name collection => exact absurd h (by simp)
  | adds hadds hrest => exact Option.some.inj h ▸ hrest.not_adds p
  | @learns q text uri peers hq huri =>
    rw [← Option.some.inj h]
    exact fun heq ↦ hq (heq.trans hpeer.symm)
  | talks ht hrest => exact (hrest rest h).not_adds p

/-- A step inserts no other collections than those that are to be inserted. -/
theorem shards_step (h : s.IsNode U J p) (a : Action) {name : CollectionName} {c : Collection X}
    (hc : (s.step U a).toc.collections.lookup name = some c) : c.TwoShards := by
  cases a with
  | createCollection name params order => exact h.shards _ c hc
  | deleteCollection name => exact h.shards _ c (TableOfContent.lookup_of_erase hc)
  | bootstrap answer => exact h.shards _ c hc
  | addPeerToKnown message =>
    rw [Server.step] at hc
    split at hc <;> exact h.shards _ c hc
  | advance i =>
    cases hi : s.tasks[i]? with
    | none =>
      rw [Server.step, hi] at hc
      exact h.shards _ c hc
    | some t =>
      have ht := h.reachable.shaped.tasks t (List.mem_of_getElem? hi)
      rw [step_advance hi] at hc
      have heffect := t.effect U s.persistent s.toc
      generalize t.step U s.persistent s.toc = r at heffect hc
      cases heffect with
      | inserts name' collection =>
        obtain hc | ⟨rfl, rfl⟩ := TableOfContent.lookup_insertCollection hc
        · exact h.shards _ c hc
        · obtain ⟨config, path, order, rfl⟩ := ht
          exact Collection.init_twoShards name config path order
      | adds hadds hrest =>
        rw [TableOfContent.lookup_addRemoteShards, Option.map_eq_some_iff] at hc
        obtain ⟨c₀, hc₀, rfl⟩ := hc
        exact fun s ↦ ReplicaHolder.mem_addRemoteShards.trans (h.shards _ c₀ hc₀ s)
      | learns peers hq huri => exact h.shards _ c hc
      | talks htalks hrest => exact h.shards _ c hc

/-- **A step keeps it**, unless another node makes itself known with the id of this one. -/
theorem step (h : s.IsNode U J p) {a : Action}
    (hheard : ∀ message, a = .addPeerToKnown message → message.id ≠ p) :
    (s.step U a).IsNode U J p where
  reachable := h.reachable.step a
  peerId := step_peerId.trans h.peerId
  identity := by
    refine (h.identity.step_iff h.reachable.shaped a).mpr fun himpersonates ↦ ?_
    cases a with
    | createCollection name params order => exact himpersonates
    | deleteCollection name => exact himpersonates
    | bootstrap answer => exact himpersonates
    | addPeerToKnown message => exact hheard message rfl (himpersonates.1.trans h.peerId)
    | advance i =>
      obtain ⟨t, ht, hadds, -⟩ := himpersonates
      rw [h.peerId] at hadds
      exact h.apart t (List.mem_of_getElem? ht) hadds
  apart t ht := by
    cases a with
    | createCollection name params order =>
      obtain ht | ht := List.mem_append.mp ht
      · exact h.apart t ht
      · rw [List.mem_singleton.mp ht]
        exact fun hadds ↦ hadds
    | deleteCollection name => exact h.apart t ht
    | bootstrap answer =>
      obtain ht | ht := List.mem_append.mp ht
      · exact h.apart t ht
      · rw [List.mem_singleton.mp ht]
        exact fun hadds ↦ hadds
    | addPeerToKnown message =>
      rw [Server.step] at ht
      split at ht
      · obtain ht | ht := List.mem_append.mp ht
        · exact h.apart t ht
        · rw [List.mem_singleton.mp ht]
          exact hheard message rfl
      · exact h.apart t ht
    | advance i =>
      cases hi : s.tasks[i]? with
      | none =>
        rw [Server.step, hi] at ht
        exact h.apart t ht
      | some t₀ =>
        rw [step_advance hi] at ht
        obtain ht | ht := mem_tasks_advance ht
        · exact h.apart t ht
        · exact not_adds_rest h.peerId ht
  shards _ _ hc := h.shards_step a hc

end Server.IsNode

/-! ## All nodes -/

namespace Network

/-- What holds of the nodes of a cluster and of the joins. -/
structure Orderly (U : UriCrate) (J : ConfigJson) (net : Network X) : Prop where
  nodes : ∀ x s, net.nodes x = some s → s.IsNode U J x
  joins : ∀ join ∈ net.joins, join.joiner ≠ join.via ∧
    ∀ message, join.stage = .requested message → message.id = join.joiner

namespace Orderly

variable {net : Network X}

theorem empty : (⟨fun _ ↦ none, []⟩ : Network X).Orderly U J where
  nodes _ _ hs := absurd hs (by simp)
  joins _ hj := absurd hj (by simp)

/-- A node takes a step. -/
theorem stepAt (h : net.Orderly U J) (peer : PeerId) {a : Server.Action}
    (hheard : ∀ message, a = .addPeerToKnown message → message.id ≠ peer) :
    (net.stepAt U peer a).Orderly U J := by
  rw [Network.stepAt]
  cases hs : net.nodes peer with
  | none => exact h
  | some s =>
    refine ⟨fun x s' hs' ↦ ?_, h.joins⟩
    by_cases hx : x = peer
    · subst hx
      simp only [Function.update_self, Option.some.injEq] at hs'
      rw [← hs']
      exact (h.nodes x s hs).step hheard
    · simp only [Function.update_of_ne hx] at hs'
      exact h.nodes x s' hs'

/-- A join gets to another stage. -/
theorem setStage (h : net.Orderly U J) {i : ℕ} {join : Join} (hi : join ∈ net.joins)
    {stage : Join.Stage} (hstage : ∀ message, stage ≠ .requested message) :
    (net.setStage i join stage).Orderly U J where
  nodes := h.nodes
  joins j hj := by
    obtain hj | rfl := List.mem_or_eq_of_mem_set hj
    · exact h.joins j hj
    · exact ⟨(h.joins join hi).1, fun message heq ↦ absurd heq (hstage message)⟩

/-- A node sends its answer. -/
theorem sendAnswer (h : net.Orderly U J) (peer : PeerId) (s : Server X) (joiner : PeerId) :
    (net.sendAnswer peer s joiner).Orderly U J where
  nodes := h.nodes
  joins j hj := by
    obtain ⟨j₀, hj₀, rfl⟩ := List.mem_map.mp hj
    have hjoin := h.joins j₀ hj₀
    cases hstage : j₀.stage with
    | received =>
      simp only
      split
      · exact ⟨hjoin.1, fun message heq ↦ absurd heq (by simp)⟩
      · exact hjoin
    | requested message => exact hjoin
    | answered answer => exact hjoin
    | completed answer => exact hjoin

/-- A node is started. -/
theorem started (h : net.Orderly U J) {peer : PeerId} {s : Server X} (hs : s.IsNode U J peer)
    {joins : List Join} (hjoins : ∀ join ∈ joins, join ∈ net.joins ∨ (join.joiner ≠ join.via ∧
      ∀ message, join.stage = .requested message → message.id = join.joiner)) :
    (⟨Function.update net.nodes peer (some s), joins⟩ : Network X).Orderly U J where
  nodes x s' hs' := by
    by_cases hx : x = peer
    · subst hx
      simp only [Function.update_self, Option.some.injEq] at hs'
      exact hs' ▸ hs
    · simp only [Function.update_of_ne hx] at hs'
      exact h.nodes x s' hs'
  joins join hj := (hjoins join hj).elim (h.joins join) id

/-- A node that is started on its own. -/
theorem boot (h : net.Orderly U J) {peer : PeerId} {p2pUrl : String} {toc : TableOfContent X}
    (htoc : toc.Loaded J peer)
    (hshards : ∀ name c, toc.collections.lookup name = some c → c.TwoShards) :
    (net.boot U peer p2pUrl toc).Orderly U J := by
  rw [Network.boot]
  split
  · exact h.started (.start _ htoc hshards) fun _ hj ↦ Or.inl hj
  · exact h

/-- A node that stops. -/
theorem halt (h : net.Orderly U J) (peer : PeerId) : (net.halt peer).Orderly U J where
  nodes x s hs := by
    by_cases hx : x = peer
    · subst hx
      exact absurd hs (by simp [Network.halt])
    · rw [Network.halt] at hs
      simp only [Function.update_of_ne hx] at hs
      exact h.nodes x s hs
  joins join hj := h.joins join (List.mem_filter.mp hj).1

/-- The message a node makes itself known with has its id. -/
theorem bootstrapMessage_id {persistent : Persistent} {message : AddPeerToKnownMessage}
    (h : persistent.bootstrapMessage = .ok message) : message.id = persistent.peerId := by
  rw [Persistent.bootstrapMessage] at h
  split at h
  · rw [← Except.ok.inj h]
  · exact absurd h (by simp)

/-- **A step of the cluster keeps it**, if a node that joins has loaded such collections. -/
theorem step (h : net.Orderly U J) {a : Action X}
    (hjoin : ∀ joiner p2pUrl toc via, a = .join joiner p2pUrl toc via → toc.Loaded J joiner ∧
      ∀ name c, toc.collections.lookup name = some c → c.TwoShards) :
    (net.step U a).Orderly U J := by
  cases a with
  | join joiner p2pUrl toc via =>
    obtain ⟨htoc, hshards⟩ := hjoin joiner p2pUrl toc via rfl
    rw [Network.step]
    split
    · rename_i p2pUri sv hurl hnone hvia
      simp only
      split
      · rename_i message hmessage
        refine h.started (.start p2pUri htoc hshards) fun join hj ↦ ?_
        obtain hj | hj := List.mem_append.mp hj
        · exact Or.inl hj
        · rw [List.mem_singleton.mp hj]
          refine Or.inr ⟨fun heq ↦ ?_, fun message' heq ↦ ?_⟩
          · rw [show joiner = via from heq, hvia] at hnone
            exact absurd hnone (by simp)
          · rw [← Join.Stage.requested.inj heq]
            exact bootstrapMessage_id hmessage
      · exact h
    · exact h
  | request i =>
    rw [Network.step]
    split
    · exact h
    · rename_i join hi
      split
      · rename_i message hstage
        obtain ⟨hne, hid⟩ := h.joins join (List.mem_of_getElem? hi)
        refine (h.stepAt join.via fun message' heq ↦ ?_).setStage ?_ (by simp)
        · rw [← Server.Action.addPeerToKnown.inj heq, hid message hstage]
          exact hne
        · rw [Network.stepAt]
          split <;> exact List.mem_of_getElem? hi
      · exact h
  | answer i =>
    rw [Network.step]
    split
    · exact h
    · rename_i join hi
      split
      · refine (h.stepAt join.joiner (by simp)).setStage ?_ (by simp)
        rw [Network.stepAt]
        split <;> exact List.mem_of_getElem? hi
      · exact h
  | advance peer i =>
    rw [Network.step]
    split
    · exact h
    · split
      · exact (h.sendAnswer peer _ _).stepAt peer (by simp)
      · exact h.stepAt peer (by simp)
  | createCollection peer name params order => exact h.stepAt peer (by simp)
  | deleteCollection peer name => exact h.stepAt peer (by simp)

end Orderly

end Network

end Smoldb
