import Smoldb.Consensus.Shape
import Smoldb.Lib.Runs

/-!
# Where a node looks for its peers

The addresses of the peers are in three places.  `Persistent` has those that the peers announced.
`peer_address_by_id` is shared with the channel service of the table of contents, and `add_peer`
passes it over, so it has the node itself and nobody else.  The remote shards have a channel service
of their own, with a table of three addresses that is part of the program.

So the three agree only as long as the node knows nobody but itself.  `Addressed` says that they do,
and `addresses_iff` says which steps put an end to that, in a run of a node from its start.

* `Misplaces` picks the steps.  A peer is added, other than the node itself under its own address,
  by either of the two handlers; or the node gets remote shards that stand for itself, and the table
  in the program has another address for its id than it was started with.
* `Listed` is the invariant that all states have: the shape of the replica sets, and that the shared
  map has the node itself and nobody else.

The rest is an equivalence for one step, for states that are `Listed` and `Addressed` so far, and
`Runs.forall_run_iff` makes one for runs of it.  URIs are compared as they are displayed, and the
ones in the table are written so too.
-/

set_option autoImplicit false

namespace Smoldb

variable {V : Type} {X : Crates V}

/-- The operations of the remote shard use this address. -/
def RemoteShard.Finds (self : RemoteShard) (uri : Uri) : Prop :=
  self.currentAddress self.getChannelService = .ok uri

/-- It depends on the peer alone. -/
theorem RemoteShard.finds_congr {r : RemoteShard} (r' : RemoteShard) (h : r.peerId = r'.peerId)
    (uri : Uri) :
    r.Finds uri ↔ r'.Finds uri := by
  rw [Finds, Finds, currentAddress, currentAddress, h]
  rfl

/-- Every remote shard of the collection finds the address that its peer announced. -/
def Collection.FindsRemotes (persistent : Persistent) (self : Collection X) : Prop :=
  ∀ s rs, self.replicaHolder.shards.lookup s = some rs → ∀ r ∈ rs.remotes,
    ∃ uri, r.Finds uri ∧ persistent.peers[r.peerId]? = some uri

/-- Remote shards that are added for a peer find it if the first one does. -/
theorem Collection.findsRemotes_addRemoteShards {persistent : Persistent} {c : Collection X}
    {p : PeerId} {uri : Uri} (h : c.FindsRemotes persistent) (hp : persistent.peers[p]? = some uri)
    (name : CollectionName) :
    ({ c with replicaHolder := c.replicaHolder.addRemoteShards p name } :
        Collection X).FindsRemotes persistent ↔
      ∀ s, s ∈ c.replicaHolder.shards → (⟨s, name, p⟩ : RemoteShard).Finds uri := by
  have hfound : ∀ r : RemoteShard, r.peerId = p →
      ((∃ uri, r.Finds uri ∧ persistent.peers[r.peerId]? = some uri) ↔ r.Finds uri) := by
    rintro r rfl
    rw [hp]
    simp
  constructor
  · intro hfinds s hs
    obtain ⟨rs, hrs⟩ := Option.isSome_iff_exists.mp (AList.lookup_isSome.mpr hs)
    have hlookup : (c.replicaHolder.addRemoteShards p name).shards.lookup s
        = some (ReplicaHolder.addRemote p name s rs) := by
      rw [ReplicaHolder.lookup_addRemoteShards, hrs, Option.map_some]
    obtain ⟨r, hr, hrp⟩ : ∃ r ∈ (ReplicaHolder.addRemote p name s rs).remotes, r.peerId = p := by
      obtain hany | hnew := ReplicaHolder.any_or_new p rs
      · rwa [ReplicaHolder.addRemote_of_any hany]
      · rw [ReplicaHolder.addRemote_of_new hnew]
        exact ⟨⟨s, name, p⟩, List.mem_append_right _ (List.mem_singleton_self _), rfl⟩
    rw [RemoteShard.finds_congr r hrp.symm, ← hfound r hrp]
    exact hfinds s _ hlookup r hr
  · intro hall s rs hrs r hr
    rw [ReplicaHolder.lookup_addRemoteShards, Option.map_eq_some_iff] at hrs
    obtain ⟨rs₀, hrs₀, rfl⟩ := hrs
    obtain hany | hnew := ReplicaHolder.any_or_new p rs₀
    · rw [ReplicaHolder.addRemote_of_any hany] at hr
      exact h s rs₀ hrs₀ r hr
    · rw [ReplicaHolder.addRemote_of_new hnew] at hr
      obtain hr | hr := List.mem_append.mp hr
      · exact h s rs₀ hrs₀ r hr
      · rw [List.mem_singleton.mp hr, hfound _ rfl]
        exact hall s (AList.lookup_isSome.mp (Option.isSome_iff_exists.mpr ⟨rs₀, hrs₀⟩))

namespace Server

/-- The map that is shared with the channel service has the peers the node knows. -/
def SharesAddresses (self : Server X) : Prop :=
  ∀ p, self.peerAddressById.lookup p = self.persistent.peers[p]?

/-- The remote shards of all collections find the addresses that were announced. -/
def FindsRemotes (self : Server X) : Prop :=
  ∀ name c, self.toc.collections.lookup name = some c → c.FindsRemotes self.persistent

/-- All three places have the addresses that were announced. -/
structure Addressed (s : Server X) : Prop where
  shared : s.SharesAddresses
  remotes : s.FindsRemotes

/-- The step adds a peer other than the node itself, or the node with another URI, or it adds remote
shards that stand for the node itself and do not find it. -/
def Misplaces (U : UriCrate) (self : Server X) : Action → Prop
  | .addPeerToKnown message => ∃ uri, message.uri.map U.parse = some (.ok uri) ∧
      ¬ (message.id = self.persistent.peerId ∧ uri = self.p2pUri)
  | .advance i =>
      (∃ peer peers uri, self.tasks[i]? = some (.bootstrap (peer :: peers)) ∧
        peer.id ≠ self.persistent.peerId ∧ U.parse peer.uri = .ok uri) ∨
      ∃ t name c s, self.tasks[i]? = some t ∧ t.Adds self.persistent.peerId ∧
        self.toc.collections.lookup name = some c ∧ s ∈ c.replicaHolder.shards ∧
        ¬ (⟨s, name, self.persistent.peerId⟩ : RemoteShard).Finds self.p2pUri
  | _ => False

/-- The shared map has the node itself, in every state. -/
structure Listed (s : Server X) : Prop where
  shaped : s.Shaped
  shared : s.peerAddressById = AList.singleton s.persistent.peerId s.p2pUri

variable {U : UriCrate} {J : ConfigJson} {s : Server X}

theorem Listed.step (h : s.Listed) (a : Action) : (s.step U a).Listed where
  shaped := h.shaped.step U a
  shared := by
    rw [step_peerAddressById, step_peerId, step_p2pUri]
    exact h.shared

/-- The shared map has the known peers if the node knows itself and nobody else. -/
theorem Listed.sharesAddresses_iff (h : s.Listed) : s.SharesAddresses ↔
    ∀ p, s.persistent.peers[p]? = if p = s.persistent.peerId then some s.p2pUri else none := by
  refine forall_congr' fun p ↦ ?_
  have hlookup : s.peerAddressById.lookup p
      = if p = s.persistent.peerId then some s.p2pUri else none := by
    rw [h.shared, ← AList.insert_empty]
    split
    · rename_i hp
      rw [hp, AList.lookup_insert]
    · rename_i hp
      rw [AList.lookup_insert_ne hp, AList.lookup_empty]
  rw [hlookup]
  exact eq_comm

/-- A peer that is added goes unnoticed if it is the node itself. -/
theorem Listed.sharesAddresses_addPeer (h : s.Listed) (hs : s.SharesAddresses) {p : PeerId}
    {uri : Uri} (tasks : List (Task X)) :
    ({ s with persistent := s.persistent.addPeer p uri, tasks := tasks } :
        Server X).SharesAddresses ↔ p = s.persistent.peerId ∧ uri = s.p2pUri := by
  have hget := h.sharesAddresses_iff.mp hs
  constructor
  · intro hshares
    have hp := hshares p
    rw [hs p, hget p] at hp
    simp only [Persistent.getElem?_addPeer, if_true] at hp
    split at hp
    · rename_i hown
      exact ⟨hown, (Option.some.inj hp).symm⟩
    · exact nomatch hp
  · rintro ⟨rfl, rfl⟩ q
    simp only [Persistent.getElem?_addPeer]
    rw [hs q, hget q]
    by_cases hq : q = s.persistent.peerId
    · rw [if_pos hq, if_pos hq.symm]
    · rw [if_neg hq, if_neg (Ne.symm hq)]

/-- Remote shards for a known peer, at a node that knows itself only. -/
theorem Listed.findsRemotes_addRemoteShards (h : s.Listed) (hs : s.SharesAddresses)
    (hfinds : s.FindsRemotes) {t : Task X} {i : ℕ} {p : PeerId} (hi : s.tasks[i]? = some t)
    (hp : t.Adds p) (tasks : List (Task X)) :
    ({ s with toc := s.toc.addRemoteShards p, tasks := tasks } : Server X).FindsRemotes ↔
      ¬ s.Misplaces U (.advance i) := by
  have hget := h.sharesAddresses_iff.mp hs
  have hknown := (h.shaped.tasks t (List.mem_of_getElem? hi)).mem_of_adds hp
  obtain rfl : p = s.persistent.peerId := by
    by_contra hne
    rw [← Std.ExtTreeMap.isSome_getElem?_iff_mem, hget p, if_neg hne] at hknown
    exact nomatch hknown
  have hown : s.persistent.peers[s.persistent.peerId]? = some s.p2pUri := by
    rw [hget, if_pos rfl]
  constructor
  · rintro hall (⟨peer, peers, uri, hi', -⟩ | ⟨_, name, c, shard, hi', -, hc, hshard, hnot⟩)
    · rw [hi, Option.some.injEq] at hi'
      rw [hi'] at hp
      exact hp.elim
    · have hlookup := TableOfContent.lookup_addRemoteShards s.toc s.persistent.peerId name
      rw [hc, Option.map_some] at hlookup
      have hc' := hall name _ hlookup
      rw [Collection.findsRemotes_addRemoteShards (hfinds name c hc) hown] at hc'
      exact hnot (hc' shard hshard)
  · intro hno name c hc
    simp only [TableOfContent.lookup_addRemoteShards, Option.map_eq_some_iff] at hc
    obtain ⟨c₀, hc₀, rfl⟩ := hc
    rw [Collection.findsRemotes_addRemoteShards (hfinds name c₀ hc₀) hown]
    intro shard hshard
    by_contra hnot
    exact hno (Or.inr ⟨t, name, c₀, shard, hi, hp, hc₀, hshard, hnot⟩)

theorem misplaces_bootstrap {i : ℕ} {peers : List Peer}
    (hi : s.tasks[i]? = some (.bootstrap peers)) :
    s.Misplaces U (.advance i) ↔ ∃ peer rest uri, peers = peer :: rest ∧
      peer.id ≠ s.persistent.peerId ∧ U.parse peer.uri = .ok uri := by
  simp [Misplaces, hi, Task.Adds]

/-- An operation that is not in a bootstrap and adds no remote shards misplaces nothing. -/
theorem not_misplaces_of_quiet {i : ℕ} {t : Task X} (hi : s.tasks[i]? = some t)
    (hadds : ∀ p, ¬ t.Adds p) (hpeers : ∀ peers, t ≠ .bootstrap peers) :
    ¬ s.Misplaces U (.advance i) := by
  simp [Misplaces, hi, hadds, hpeers]

/-- The news of a peer leaves the addresses where they are looked up, unless it is of another one or
has another URI. -/
theorem Addressed.addPeerToKnown_iff (h : s.Addressed) (hl : s.Listed)
    (message : AddPeerToKnownMessage) :
    (s.step U (.addPeerToKnown message)).Addressed ↔ ¬ s.Misplaces U (.addPeerToKnown message) := by
  rw [Server.step]
  split
  · rename_i uri huri
    have hmisplaces : s.Misplaces U (.addPeerToKnown message) ↔
        ¬ (message.id = s.persistent.peerId ∧ uri = s.p2pUri) := by
      simp [Misplaces, huri]
    rw [hmisplaces, not_not]
    refine ⟨fun haddr ↦ (hl.sharesAddresses_addPeer h.shared _).mp haddr.shared, fun hown ↦ ?_⟩
    have hshared := (hl.sharesAddresses_addPeer h.shared
      (s.tasks ++ [.addRemotes message.id])).mpr hown
    refine ⟨hshared, fun name c hc shard rs hrs r hr ↦ ?_⟩
    obtain ⟨uri', hfinds, hget⟩ := h.remotes name c hc shard rs hrs r hr
    refine ⟨uri', hfinds, ?_⟩
    rw [← hshared r.peerId, ← hget]
    exact h.shared r.peerId
  · rename_i hbad
    exact ⟨fun _ ha ↦ ha.elim fun uri huri ↦ hbad uri huri.1, fun _ ↦ h⟩

/-- A bootstrap leaves them there, unless it takes up another peer. -/
theorem Addressed.bootstrap_iff (h : s.Addressed) (hl : s.Listed) {i : ℕ} {peers : List Peer}
    (hi : s.tasks[i]? = some (.bootstrap peers)) :
    (s.step U (.advance i)).Addressed ↔ ¬ s.Misplaces U (.advance i) := by
  have hkeep : ∀ tasks : List (Task X), ({ s with tasks := tasks } : Server X).Addressed :=
    fun tasks ↦ ⟨h.shared, h.remotes⟩
  rw [step_advance hi]
  cases peers with
  | nil =>
    refine ⟨fun _ ↦ ?_, fun _ ↦ hkeep _⟩
    rw [misplaces_bootstrap hi]
    rintro ⟨_, _, _, hnil, -⟩
    cases hnil
  | cons peer peers =>
    rw [misplaces_bootstrap hi, Task.step]
    split
    · rename_i hown
      refine ⟨fun _ ha ↦ ?_, fun _ ↦ hkeep _⟩
      obtain ⟨_, _, _, hcons, hne, _⟩ := ha
      rw [← (List.cons.inj hcons).1] at hne
      exact hne hown
    · rename_i hne
      split
      · rename_i e huri
        refine ⟨fun _ ha ↦ ?_, fun _ ↦ hkeep _⟩
        obtain ⟨_, _, uri, hcons, _, huri'⟩ := ha
        rw [← (List.cons.inj hcons).1, huri] at huri'
        cases huri'
      · rename_i uri huri
        refine ⟨fun haddr ↦ ?_, fun hno ↦ absurd ⟨peer, peers, uri, rfl, hne, huri⟩ hno⟩
        exact absurd ((hl.sharesAddresses_addPeer h.shared _).mp haddr.shared).1 hne

/-- The addresses of a node stay where they are looked up, unless the step misplaces one. -/
theorem Addressed.step_iff (h : s.Addressed) (hl : s.Listed) (a : Action) :
    (s.step U a).Addressed ↔ ¬ s.Misplaces U a := by
  have hkeep : ∀ tasks : List (Task X), ({ s with tasks := tasks } : Server X).Addressed :=
    fun tasks ↦ ⟨h.shared, h.remotes⟩
  cases a with
  | createCollection name params order => exact ⟨fun _ ha ↦ ha, fun _ ↦ hkeep _⟩
  | bootstrap answer => exact ⟨fun _ ha ↦ ha, fun _ ↦ hkeep _⟩
  | deleteCollection name =>
    refine ⟨fun _ ha ↦ ha, fun _ ↦ ⟨h.shared, fun name' c hc ↦ ?_⟩⟩
    exact h.remotes name' c (TableOfContent.lookup_of_erase hc)
  | addPeerToKnown message => exact h.addPeerToKnown_iff hl message
  | advance i =>
    cases hi : s.tasks[i]? with
    | none =>
      rw [Server.step, hi]
      refine ⟨fun _ ha ↦ ?_, fun _ ↦ h⟩
      obtain ⟨peer, peers, uri, ht, -⟩ | ⟨t, -, -, -, ht, -⟩ := ha
      · cases hi.symm.trans ht
      · cases hi.symm.trans ht
    | some t =>
      cases t with
      | bootstrap peers => exact h.bootstrap_iff hl hi
      | insertCollection name c =>
        rw [step_advance hi]
        refine ⟨fun _ ↦ not_misplaces_of_quiet hi (fun _ hp ↦ hp) fun _ ht ↦ (by cases ht),
          fun _ ↦ ⟨h.shared, fun name' c' hc' ↦ ?_⟩⟩
        obtain hc' | ⟨rfl, rfl⟩ := TableOfContent.lookup_insertCollection hc'
        · exact h.remotes name' c' hc'
        · obtain ⟨config, path, order, rfl⟩ := hl.shaped.tasks _ (List.mem_of_getElem? hi)
          intro shard rs hrs r hr
          rw [(Collection.init_shaped name' config path order).remotes shard rs hrs] at hr
          cases hr
      | addRemotes p =>
        rw [step_advance hi, ← hl.findsRemotes_addRemoteShards h.shared h.remotes hi rfl
          (s.tasks.eraseIdx i ++ [.answer p])]
        exact ⟨fun haddr ↦ haddr.remotes, fun hremotes ↦ ⟨h.shared, hremotes⟩⟩
      | bootstrapRemotes p peers =>
        rw [step_advance hi, ← hl.findsRemotes_addRemoteShards h.shared h.remotes hi rfl
          (s.tasks.eraseIdx i ++ [.bootstrap peers])]
        exact ⟨fun haddr ↦ haddr.remotes, fun hremotes ↦ ⟨h.shared, hremotes⟩⟩
      | answer p =>
        rw [step_advance hi]
        exact ⟨fun _ ↦ not_misplaces_of_quiet hi (fun _ hp ↦ hp) fun _ ht ↦ (by cases ht),
          fun _ ↦ hkeep _⟩

theorem listed_start {p2pUri : Uri} {peerId : PeerId} {toc : TableOfContent X}
    (h : toc.Loaded J peerId) : (Server.start p2pUri peerId toc).Listed where
  shaped := (Server.Reachable.start (U := .plain) p2pUri peerId h).shaped
  shared := rfl

theorem addressed_start {p2pUri : Uri} {peerId : PeerId} {toc : TableOfContent X}
    (h : toc.Loaded J peerId) : (Server.start p2pUri peerId toc).Addressed where
  shared := by
    rw [(listed_start h).sharesAddresses_iff]
    intro p
    rw [Server.start, ConsensusState.getElem?_dummy]
    exact if_congr eq_comm rfl rfl
  remotes name c hc s rs hrs r hr := by
    rw [(h.shaped hc).remotes s rs hrs] at hr
    exact nomatch hr

end Server

/-- **Every remote is reachable at its announced address** all along a run exactly if no step of the
run misplaces an address. -/
theorem addresses_iff (U : UriCrate) (J : ConfigJson) (p2pUri : Uri) (peerId : PeerId)
    {toc : TableOfContent X} (h : toc.Loaded J peerId) (actions : List Server.Action) :
    (∀ done, done <+: actions → ((Server.start p2pUri peerId toc).run U done).Addressed) ↔
    ∀ done a, done ++ [a] <+: actions →
      ¬ ((Server.start p2pUri peerId toc).run U done).Misplaces U a := by
  have hinv : ∀ (s : Server X) (a : Server.Action), s.Listed → (s.step U a).Listed :=
    fun _ a hs ↦ hs.step a
  have hstep : ∀ (s : Server X) (a : Server.Action), s.Listed → s.Addressed →
      ((s.step U a).Addressed ↔ ¬ s.Misplaces U a) := fun _ a hs haddr ↦ haddr.step_iff hs a
  exact Runs.forall_run_iff hinv hstep actions (Server.listed_start h) (Server.addressed_start h)

/-- The first node of the table makes itself known. -/
def AddPeerToKnownMessage.first : AddPeerToKnownMessage :=
  ⟨some "http://0.0.0.0:5001", some 9920, 101⟩

/-- A node makes a collection, and then hears of itself. -/
def firstHeard : List Server.Action :=
  [.createCollection "c" "" .insertion, .advance 0, .addPeerToKnown .first, .advance 0]

/-- The remote shards that stand for the node find it. -/
theorem addresses_iff_first : ((Server.first Crates.bool).run .plain firstHeard).Addressed := by
  refine (addresses_iff .plain .plain "http://0.0.0.0:5001/" 101
    (TableOfContent.loaded_empty .plain 101) firstHeard).mpr ?_ _ List.prefix_rfl
  have hinserts := Server.not_misplaces_of_quiet (U := .plain)
    (s := (Server.first Crates.bool).step .plain (.createCollection "c" "" .insertion)) (i := 0) rfl
    (fun _ hp ↦ hp) fun _ ht ↦ (nomatch ht)
  have hcons := @Runs.forall_steps_cons (Server Crates.bool) _ (Server.step .plain)
    fun s a ↦ ¬ s.Misplaces .plain a
  refine hcons.mpr ⟨fun ha ↦ ha, hcons.mpr ⟨hinserts, hcons.mpr ⟨?_, hcons.mpr ⟨?_, ?_⟩⟩⟩⟩
  · rintro ⟨uri, huri, hne⟩
    rw [← Except.ok.inj (Option.some.inj huri)] at hne
    exact hne ⟨rfl, rfl⟩
  · rintro (⟨peer, peers, uri, ht, -⟩ | ⟨t, name, c, shard, -, -, -, -, hnot⟩)
    · exact nomatch ht
    · exact hnot rfl
  · exact fun done a hprefix ↦ absurd (List.prefix_nil.mp hprefix) (by simp)

/-- A peer that is not in the table of the program. -/
def AddPeerToKnownMessage.fourth : AddPeerToKnownMessage :=
  ⟨some "http://0.0.0.0:5004", some 9920, 104⟩

/-- A node makes a collection, and then hears of a peer that is not in the table. -/
def fourthHeard : List Server.Action :=
  [.createCollection "c" "" .insertion, .advance 0, .addPeerToKnown .fourth, .advance 0]

/-- The shared map misses the peer, and the remote shards for it find no address. -/
theorem not_addressed_fourth :
    (¬ ∀ s : Server Crates.bool, s.Reachable .plain .plain → s.SharesAddresses) ∧
    ¬ ∀ s : Server Crates.bool, s.Reachable .plain .plain → s.FindsRemotes := by
  have hreach := (Server.reachable_first (X := Crates.bool) .plain .plain).run fourthHeard
  constructor
  · intro h
    exact absurd (h _ hreach 104) (by decide)
  · intro h
    obtain ⟨uri, hfinds, -⟩ := h _ hreach "c" _ rfl 0 _ rfl _ (List.mem_singleton_self _)
    exact nomatch hfinds

end Smoldb
