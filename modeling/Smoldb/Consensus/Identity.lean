import Smoldb.Consensus.Shape
import Smoldb.Lib.Runs

/-!
# Who a node takes itself for

`bootstrap` skips the node itself in the answer it gets, and `add_peer_to_known` does not look
whether the peer that makes itself known has the id of the node.  If one does, its URI takes the
place of the node's own, and every collection there is gets a remote shard that stands for the node
itself.

`KeepsIdentity` is what should hold: the node lists itself with its own URI, and replicates nothing
to itself.  `identity_iff` says when a run puts an end to that, by the steps of the run that
`Impersonates` picks: a message with the id of the node comes in that has another URI, or the second
half of the handler adds the remote shards while there is a shard to add them to.  The two come
apart, since a message with the node's own URI does no harm to the list of peers, and no harm at all
to a node that has no collections.

As for the addresses, there is an equivalence for one step, and `Runs.forall_run_iff` makes one for
runs of it.
-/

set_option autoImplicit false

namespace Smoldb

variable {V : Type} {X : Crates V}

/-- No shard of the collection has a remote shard for the peer. -/
def Collection.Without (self : Collection X) (p : PeerId) : Prop :=
  ∀ s rs, self.replicaHolder.shards.lookup s = some rs → ∀ r ∈ rs.remotes, r.peerId ≠ p

/-- Remote shards for a peer are missing in the end if they have been, and are not for this peer,
or there is no shard to add them to. -/
theorem Collection.without_addRemoteShards {c : Collection X} {p q : PeerId} (h : c.Without p)
    (name : CollectionName) :
    ({ c with replicaHolder := c.replicaHolder.addRemoteShards q name } : Collection X).Without p ↔
      (q = p → ∀ s, s ∉ c.replicaHolder.shards) := by
  constructor
  · rintro hwithout rfl s hs
    obtain ⟨rs, hrs⟩ := Option.isSome_iff_exists.mp (AList.lookup_isSome.mpr hs)
    have hlookup : (c.replicaHolder.addRemoteShards q name).shards.lookup s
        = some (ReplicaHolder.addRemote q name s rs) := by
      rw [ReplicaHolder.lookup_addRemoteShards, hrs, Option.map_some]
    rw [ReplicaHolder.addRemote_of_new (h s rs hrs)] at hlookup
    exact hwithout s _ hlookup ⟨s, name, q⟩ (List.mem_append_right _ (List.mem_singleton_self _))
      rfl
  · intro hq s rs hrs r hr
    rw [ReplicaHolder.lookup_addRemoteShards, Option.map_eq_some_iff] at hrs
    obtain ⟨rs₀, hrs₀, rfl⟩ := hrs
    obtain hany | hnew := ReplicaHolder.any_or_new q rs₀
    · rw [ReplicaHolder.addRemote_of_any hany] at hr
      exact h s rs₀ hrs₀ r hr
    · rw [ReplicaHolder.addRemote_of_new hnew] at hr
      obtain hr | hr := List.mem_append.mp hr
      · exact h s rs₀ hrs₀ r hr
      · rw [List.mem_singleton.mp hr]
        rintro rfl
        exact hq rfl s (AList.lookup_isSome.mp (Option.isSome_iff_exists.mpr ⟨rs₀, hrs₀⟩))

namespace Server

/-- The node lists itself with its own URI, and replicates nothing to itself. -/
structure KeepsIdentity (s : Server X) : Prop where
  uri : s.persistent.peers[s.persistent.peerId]? = some s.p2pUri
  remotes : ∀ name c, s.toc.collections.lookup name = some c → c.Without s.persistent.peerId

/-- The step makes the node take another for itself: a message with the id of the node has another
URI, or after a message with the id of the node its remote shards are added while there are shards
to add them to. -/
def Impersonates (U : UriCrate) (self : Server X) : Action → Prop
  | .addPeerToKnown message => message.id = self.persistent.peerId ∧
      ∃ uri, message.uri.map U.parse = some (.ok uri) ∧ uri ≠ self.p2pUri
  | .advance i => ∃ t, self.tasks[i]? = some t ∧ t.Adds self.persistent.peerId ∧
      ∃ name c s, self.toc.collections.lookup name = some c ∧ s ∈ c.replicaHolder.shards
  | _ => False

variable {U : UriCrate} {J : ConfigJson} {s : Server X}

/-- The news of a peer leaves a node its identity, unless it gives the node another URI. -/
theorem KeepsIdentity.addPeerToKnown_iff (h : s.KeepsIdentity) (message : AddPeerToKnownMessage) :
    (s.step U (.addPeerToKnown message)).KeepsIdentity ↔
      ¬ s.Impersonates U (.addPeerToKnown message) := by
  rw [Server.step]
  split
  · rename_i uri huri
    have hget : (s.persistent.addPeer message.id uri).peers[s.persistent.peerId]? =
        if message.id = s.persistent.peerId then some uri
        else s.persistent.peers[s.persistent.peerId]? := Persistent.getElem?_addPeer
    constructor
    · rintro hkeeps ⟨hid, uri', huri', hne⟩
      have hown : (s.persistent.addPeer message.id uri).peers[s.persistent.peerId]?
          = some s.p2pUri := hkeeps.uri
      rw [hget, if_pos hid, Option.some.injEq] at hown
      rw [huri, Option.some.injEq, Except.ok.injEq] at huri'
      exact hne (huri'.symm.trans hown)
    · intro ha
      refine ⟨?_, h.remotes⟩
      show (s.persistent.addPeer message.id uri).peers[s.persistent.peerId]? = some s.p2pUri
      rw [hget]
      split
      · rename_i hid
        by_contra hne
        exact ha ⟨hid, uri, huri, fun heq ↦ hne (congrArg some heq)⟩
      · exact h.uri
  · rename_i hbad
    exact ⟨fun _ ha ↦ ha.2.elim fun uri huri ↦ hbad uri huri.1, fun _ ↦ h⟩

/-- Remote shards for a peer leave a node its identity, unless the peer is the node itself and there
are shards to add them to. -/
theorem KeepsIdentity.addRemoteShards_iff (h : s.KeepsIdentity) (q : PeerId)
    (tasks : List (Task X)) :
    ({ s with toc := s.toc.addRemoteShards q, tasks := tasks } : Server X).KeepsIdentity ↔
      ¬ (q = s.persistent.peerId ∧ ∃ name c shard, s.toc.collections.lookup name = some c ∧
        shard ∈ c.replicaHolder.shards) := by
  constructor
  · rintro hkeeps ⟨hown, name, c, shard, hc, hshard⟩
    have hlookup := TableOfContent.lookup_addRemoteShards s.toc q name
    rw [hc, Option.map_some] at hlookup
    have hwithout := hkeeps.remotes name _ hlookup
    rw [Collection.without_addRemoteShards (h.remotes name c hc)] at hwithout
    exact hwithout hown shard hshard
  · intro ha
    refine ⟨h.uri, fun name c hc ↦ ?_⟩
    rw [TableOfContent.lookup_addRemoteShards, Option.map_eq_some_iff] at hc
    obtain ⟨c₀, hc₀, rfl⟩ := hc
    rw [Collection.without_addRemoteShards (h.remotes name c₀ hc₀)]
    rintro rfl shard hshard
    exact ha ⟨rfl, name, c₀, shard, hc₀, hshard⟩

/-- A node that keeps its identity goes on to, unless the step makes it take another for itself. -/
theorem KeepsIdentity.step_iff (h : s.KeepsIdentity) (hshaped : s.Shaped) (a : Action) :
    (s.step U a).KeepsIdentity ↔ ¬ s.Impersonates U a := by
  cases a with
  | createCollection name params order => exact ⟨fun _ ha ↦ ha, fun _ ↦ ⟨h.uri, h.remotes⟩⟩
  | deleteCollection name =>
    refine ⟨fun _ ha ↦ ha, fun _ ↦ ⟨h.uri, fun name' c hc ↦ ?_⟩⟩
    exact h.remotes name' c (TableOfContent.lookup_of_erase hc)
  | addPeerToKnown message => exact h.addPeerToKnown_iff message
  | bootstrap answer => exact ⟨fun _ ha ↦ ha, fun _ ↦ ⟨h.uri, h.remotes⟩⟩
  | advance i =>
    cases hi : s.tasks[i]? with
    | none =>
      rw [Server.step, hi]
      refine ⟨fun _ ha ↦ ?_, fun _ ↦ h⟩
      obtain ⟨t, ht, _⟩ := ha
      rw [hi] at ht
      cases ht
    | some t =>
      have ht : s.Impersonates U (.advance i) ↔ t.Adds s.persistent.peerId ∧
          ∃ name c shard, s.toc.collections.lookup name = some c ∧
            shard ∈ c.replicaHolder.shards := by
        simp [Impersonates, hi]
      rw [step_advance hi, ht]
      have heffect := t.effect U s.persistent s.toc
      generalize t.step U s.persistent s.toc = r at heffect ⊢
      cases heffect with
      | inserts name c =>
        refine ⟨fun _ ha ↦ ha.1, fun _ ↦ ⟨h.uri, fun name' c' hc' ↦ ?_⟩⟩
        obtain hc' | ⟨rfl, rfl⟩ := TableOfContent.lookup_insertCollection hc'
        · exact h.remotes name' c' hc'
        · obtain ⟨config, path, order, rfl⟩ := hshaped.tasks _ (List.mem_of_getElem? hi)
          intro shard rs hrs r hr
          rw [(Collection.init_shaped name' config path order).remotes shard rs hrs] at hr
          cases hr
      | @adds _ rest q hq hrest =>
        have hown : t.Adds s.persistent.peerId ↔ q = s.persistent.peerId :=
          ⟨fun hadds ↦ Task.adds_unique hq hadds, fun heq ↦ heq ▸ hq⟩
        rw [hown]
        exact h.addRemoteShards_iff q _
      | @learns q text uri peers hq huri =>
        refine ⟨fun _ ha ↦ ha.1, fun _ ↦ ⟨?_, h.remotes⟩⟩
        show (s.persistent.addPeer q uri).peers[s.persistent.peerId]? = some s.p2pUri
        rw [Persistent.getElem?_addPeer, if_neg hq]
        exact h.uri
      | talks htalks hrest =>
        exact ⟨fun _ ha ↦ htalks.not_adds _ ha.1, fun _ ↦ ⟨h.uri, h.remotes⟩⟩

theorem keepsIdentity_start {p2pUri : Uri} {peerId : PeerId} {toc : TableOfContent X}
    (h : toc.Loaded J peerId) : (Server.start p2pUri peerId toc).KeepsIdentity where
  uri := by simp [Server.start, ConsensusState.dummy]
  remotes name c hc s rs hrs r hr := by
    rw [(h.shaped hc).remotes s rs hrs] at hr
    cases hr

end Server

/-- **A node keeps its identity** all along a run exactly if no step of the run makes it take
another for itself. -/
theorem identity_iff (U : UriCrate) (J : ConfigJson) (p2pUri : Uri) (peerId : PeerId)
    {toc : TableOfContent X} (h : toc.Loaded J peerId) (actions : List Server.Action) :
    (∀ done, done <+: actions →
      ((Server.start p2pUri peerId toc).run U done).KeepsIdentity) ↔
    ∀ done a, done ++ [a] <+: actions →
      ¬ ((Server.start p2pUri peerId toc).run U done).Impersonates U a := by
  have hinv : ∀ (s : Server X) (a : Server.Action), s.Shaped → (s.step U a).Shaped :=
    fun _ a hs ↦ hs.step U a
  have hstep : ∀ (s : Server X) (a : Server.Action), s.Shaped → s.KeepsIdentity →
      ((s.step U a).KeepsIdentity ↔ ¬ s.Impersonates U a) :=
        fun _ a hs hkeeps ↦ hkeeps.step_iff hs a
  have hstart : (Server.start p2pUri peerId toc).Shaped :=
    (Server.Reachable.start (U := U) p2pUri peerId h).shaped
  exact Runs.forall_run_iff hinv hstep actions hstart (Server.keepsIdentity_start h)

/-- A node that only ever heard of another. -/
theorem identity_iff_second :
    ((Server.first Crates.bool).run .plain [.addPeerToKnown .second]).KeepsIdentity := by
  refine (identity_iff .plain .plain "http://0.0.0.0:5001/" 101
    (TableOfContent.loaded_empty .plain 101) [.addPeerToKnown .second]).mpr
    (fun done a hprefix ha ↦ ?_) _ List.prefix_rfl
  obtain rfl : done = [] := by
    have hlength := hprefix.length_le
    rw [List.length_append, List.length_singleton, List.length_singleton] at hlength
    exact List.eq_nil_of_length_eq_zero (by omega)
  rw [List.nil_append, List.prefix_cons_iff] at hprefix
  simp only [List.cons.injEq, List.prefix_nil] at hprefix
  obtain hnil | ⟨_, ⟨rfl, _⟩, _⟩ := hprefix
  · exact nomatch hnil
  · exact nomatch ha.1

/-- The second node of the table makes itself known with the id of the first. -/
def AddPeerToKnownMessage.impostor : AddPeerToKnownMessage :=
  ⟨some "http://0.0.0.0:5002", some 9920, 101⟩

/-- The URI of the other node takes the place of the node's own. -/
theorem not_keepsIdentity_impostor : ¬ ∀ s : Server Crates.bool, s.Reachable .plain .plain →
    s.KeepsIdentity := by
  intro h
  have hkeeps := h _ ((Server.reachable_first .plain .plain).step (.addPeerToKnown .impostor))
  have huri : (some "http://0.0.0.0:5002/" : Option Uri) = some "http://0.0.0.0:5001/" := hkeeps.uri
  exact absurd huri (by decide)

end Smoldb
