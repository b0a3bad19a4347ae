import Smoldb.Disk.Catalog
import Smoldb.Json

/-!
# Who is in the cluster

A node keeps two things about the other nodes: a map from peer ids to URIs, in `Persistent`, and the
remote shards in the replica sets of its collections.  Both change when a peer makes itself known to
the node (`RaftService::add_peer_to_known`) and when the node itself joins a cluster
(`Consensus::bootstrap`).  Neither is on disk: a node that is started knows only itself.  There is a
second map of addresses, `peer_address_by_id`, which is filled when the node is started and not
written again.

The two things are behind different locks, so each operation is a sequence of steps, and between two
of them anything may happen that takes the same locks.  `Task` is an operation that has begun, by
what it does next, and `Server.step` is one step of one of them.  A step is what happens under one
lock: the collections are locked while the remote shards of a peer are added to all of them.

`Task.Effect` says once what a step of an operation can do to the two things and to the operation,
and the invariants of a node are all derived from it:

* the replica sets have one shape (`Consensus/Shape.lean`);
* they cover the peers, or not (`Consensus/Covering.lean`);
* the node is who it is, or not (`Consensus/Identity.lean`);
* and where it looks for its peers (`Consensus/Addresses.lean`).

`Consensus/Network.lean` has the whole cluster.

A URI is kept as the text it is displayed as, which is all the code ever does with it.
-/

set_option autoImplicit false

namespace Smoldb

variable {V : Type} {X : Crates V}

/-- What the code takes from the `http` crate. -/
structure UriCrate where
  /-- `parse::<http::Uri>`. -/
  parse : String → Except String Uri
  /-- What is displayed can be parsed, and is displayed the same again. -/
  parse_display : ∀ s uri, parse s = .ok uri → parse uri = .ok uri

/-! ## The peers of a node -/

/-- `Persistent`: the id of the node, and the URIs of the peers it knows. -/
structure Persistent where
  peerId : PeerId
  peers : Std.ExtTreeMap PeerId Uri

/-- `ConsensusState::dummy`: a node that is started knows itself. -/
def ConsensusState.dummy (p2pUri : Uri) (peerId : PeerId) : Persistent :=
  ⟨peerId, (∅ : Std.ExtTreeMap PeerId Uri).insert peerId p2pUri⟩

/-- `ConsensusState::add_peer`. -/
def Persistent.addPeer (self : Persistent) (peerId : PeerId) (uri : Uri) : Persistent :=
  { self with peers := self.peers.insert peerId uri }

/-- A peer in a message. -/
structure Peer where
  id : PeerId
  uri : String
  deriving DecidableEq

/-- `AddPeerToKnownMessage`. -/
structure AddPeerToKnownMessage where
  uri : Option String
  port : Option UInt32
  id : PeerId

/-- `AllPeers`. -/
structure AllPeers where
  allPeers : List Peer
  firstPeerId : PeerId
  deriving DecidableEq

/-- The answer of `add_peer_to_known`: all peers the node knows. -/
def Persistent.allPeers (self : Persistent) : AllPeers :=
  ⟨self.peers.toList.map fun entry ↦ ⟨entry.1, entry.2⟩, self.peerId⟩

/-- The message `bootstrap` makes the node known with. -/
def Persistent.bootstrapMessage (self : Persistent) : Except String AddPeerToKnownMessage :=
  match self.peers[self.peerId]? with
  | some peerUri => .ok ⟨some peerUri, some 9920, self.peerId⟩
  | none => .error s!"Peer with ID {self.peerId} not found in persistent state"

/-- The remote shards of a peer are added to all collections. -/
def TableOfContent.addRemoteShards (self : TableOfContent X) (peerId : PeerId) :
    TableOfContent X :=
  ⟨self.collections.mapValues fun name collection ↦
    { collection with replicaHolder := collection.replicaHolder.addRemoteShards peerId name }⟩

/-- A collection that has been made goes into the table of contents. -/
def TableOfContent.insertCollection (self : TableOfContent X) (name : CollectionName)
    (collection : Collection X) : TableOfContent X :=
  if name ∈ self.collections then self else ⟨self.collections.insert name collection⟩

namespace Persistent

variable {self : Persistent} {p q : PeerId} {uri : Uri}

@[simp] theorem addPeer_peerId : (self.addPeer p uri).peerId = self.peerId := rfl

theorem getElem?_addPeer :
    (self.addPeer p uri).peers[q]? = if p = q then some uri else self.peers[q]? := by
  simp [addPeer, Std.ExtTreeMap.getElem?_insert]

@[simp] theorem mem_addPeer : q ∈ (self.addPeer p uri).peers ↔ p = q ∨ q ∈ self.peers := by
  simp [addPeer, Std.ExtTreeMap.mem_insert]

end Persistent

@[simp] theorem ConsensusState.mem_dummy {uri : Uri} {p q : PeerId} :
    q ∈ (ConsensusState.dummy uri p).peers ↔ p = q := by
  simp [ConsensusState.dummy, Std.ExtTreeMap.mem_insert]

@[simp] theorem ConsensusState.dummy_peerId {uri : Uri} {p : PeerId} :
    (ConsensusState.dummy uri p).peerId = p := rfl

theorem ConsensusState.getElem?_dummy {uri : Uri} {p q : PeerId} :
    (ConsensusState.dummy uri p).peers[q]? = if p = q then some uri else none := by
  simp [ConsensusState.dummy, Std.ExtTreeMap.getElem?_insert]

namespace TableOfContent

theorem lookup_addRemoteShards (self : TableOfContent X) (p : PeerId) (name : CollectionName) :
    (self.addRemoteShards p).collections.lookup name
      = (self.collections.lookup name).map fun collection ↦
          { collection with replicaHolder := collection.replicaHolder.addRemoteShards p name } :=
  HashMap.lookup_mapValues _ _ _

/-- What is in the table of contents after an insertion has been there, or is what was inserted. -/
theorem lookup_insertCollection {self : TableOfContent X} {name name' : CollectionName}
    {collection c : Collection X}
    (h : (self.insertCollection name collection).collections.lookup name' = some c) :
    self.collections.lookup name' = some c ∨ name' = name ∧ c = collection := by
  rw [insertCollection] at h
  split at h
  · exact Or.inl h
  · by_cases hname : name' = name
    · rw [hname, AList.lookup_insert] at h
      exact Or.inr ⟨hname, (Option.some.inj h).symm⟩
    · rw [AList.lookup_insert_ne hname] at h
      exact Or.inl h

/-- What is in the table of contents after a deletion has been there. -/
theorem lookup_of_erase {self : TableOfContent X} {name name' : CollectionName} {c : Collection X}
    (h : (self.collections.erase name).lookup name' = some c) :
    self.collections.lookup name' = some c := by
  by_cases hname : name' = name
  · rw [hname, AList.lookup_erase] at h
    exact nomatch h
  · rwa [AList.lookup_erase_ne hname] at h

end TableOfContent

/-! ## One node, and everything it has begun -/

/-- An operation of a node that has begun, by what it does next. -/
inductive Task {V : Type} (X : Crates V) where
  /-- A collection is created: its files are there, and it is to be inserted. -/
  | insertCollection (name : CollectionName) (collection : Collection X)
  /-- `add_peer_to_known`: the peer is added, and its remote shards are to be. -/
  | addRemotes (peerId : PeerId)
  /-- `add_peer_to_known`: the remote shards are added, and the answer is to be sent. -/
  | answer (peerId : PeerId)
  /-- `bootstrap`: these peers of the answer are to be added. -/
  | bootstrap (peers : List Peer)
  /-- `bootstrap`: a peer is added, and its remote shards are to be. -/
  | bootstrapRemotes (peerId : PeerId) (peers : List Peer)

/-- What a node knows of others, the collections it has, and what it is doing. -/
structure Server {V : Type} (X : Crates V) where
  p2pUri : Uri
  persistent : Persistent
  /-- The map that `ConsensusState` shares with the channel service of the table of contents. -/
  peerAddressById : HashMap PeerId Uri
  toc : TableOfContent X
  tasks : List (Task X)

/-- The next step of an operation, and the rest of it. -/
def Task.step (U : UriCrate) (persistent : Persistent) (toc : TableOfContent X) :
    Task X → Persistent × TableOfContent X × Option (Task X)
  | insertCollection name collection => (persistent, toc.insertCollection name collection, none)
  | addRemotes peerId => (persistent, toc.addRemoteShards peerId, some (.answer peerId))
  | answer _ => (persistent, toc, none)
  | bootstrap [] => (persistent, toc, none)
  | bootstrap (peer :: peers) =>
    if peer.id = persistent.peerId then (persistent, toc, some (.bootstrap peers))
    else
      match U.parse peer.uri with
      | .error _ => (persistent, toc, none)
      | .ok uri => (persistent.addPeer peer.id uri, toc, some (.bootstrapRemotes peer.id peers))
  | bootstrapRemotes peerId peers =>
    (persistent, toc.addRemoteShards peerId, some (.bootstrap peers))

namespace Task

/-- The operation is about to add the remote shards of a peer. -/
def Adds (p : PeerId) : Task X → Prop
  | addRemotes q => q = p
  | bootstrapRemotes q _ => q = p
  | _ => False

/-- The operation is about to do something else than to change the collections. -/
def Talks : Task X → Prop
  | answer _ => True
  | bootstrap _ => True
  | _ => False

/-- What one step of an operation can do. -/
inductive Effect (U : UriCrate) (persistent : Persistent) (toc : TableOfContent X) :
    Task X → Persistent × TableOfContent X × Option (Task X) → Prop
  | inserts (name : CollectionName) (collection : Collection X) :
    Effect U persistent toc (.insertCollection name collection)
      (persistent, toc.insertCollection name collection, none)
  | adds {t rest : Task X} {p : PeerId} (h : t.Adds p) (hrest : rest.Talks) :
    Effect U persistent toc t (persistent, toc.addRemoteShards p, some rest)
  | learns {p : PeerId} {text : String} {uri : Uri} (peers : List Peer)
      (hp : p ≠ persistent.peerId) (huri : U.parse text = .ok uri) :
    Effect U persistent toc (.bootstrap (⟨p, text⟩ :: peers))
      (persistent.addPeer p uri, toc, some (.bootstrapRemotes p peers))
  | talks {t : Task X} {rest : Option (Task X)} (h : t.Talks)
      (hrest : ∀ r, rest = some r → r.Talks) :
    Effect U persistent toc t (persistent, toc, rest)

theorem effect (U : UriCrate) (persistent : Persistent) (toc : TableOfContent X) (t : Task X) :
    Effect U persistent toc t (t.step U persistent toc) := by
  cases t with
  | insertCollection name collection => exact .inserts name collection
  | addRemotes p => exact .adds rfl trivial
  | answer p => exact .talks trivial fun r hr ↦ (nomatch hr)
  | bootstrapRemotes p peers => exact .adds rfl trivial
  | bootstrap peers =>
    cases peers with
    | nil => exact .talks trivial fun r hr ↦ (nomatch hr)
    | cons peer peers =>
      rw [step]
      split
      · refine .talks trivial fun r hr ↦ ?_
        rw [← Option.some.inj hr]
        trivial
      · rename_i hp
        split
        · exact .talks trivial fun r hr ↦ (nomatch hr)
        · rename_i uri huri
          exact .learns peers hp huri

theorem adds_unique {t : Task X} {p q : PeerId} (hp : t.Adds p) (hq : t.Adds q) : p = q := by
  cases t with
  | addRemotes peerId => exact hp.symm.trans hq
  | bootstrapRemotes peerId peers => exact hp.symm.trans hq
  | insertCollection name collection => exact hp.elim
  | answer peerId => exact hp.elim
  | bootstrap peers => exact hp.elim

theorem Talks.not_adds {t : Task X} (h : t.Talks) (p : PeerId) : ¬ t.Adds p := by
  cases t with
  | answer peerId => exact fun ht ↦ ht
  | bootstrap peers => exact fun ht ↦ ht
  | insertCollection name collection => exact h.elim
  | addRemotes peerId => exact h.elim
  | bootstrapRemotes peerId peers => exact h.elim

end Task

namespace Server

/-- What can happen at a node. -/
inductive Action where
  /-- A collection has been made by `create_collection`, its files included. -/
  | createCollection (name params : String) (order : IterOrder (Σ _ : ShardId, ReplicaSet))
  | deleteCollection (name : String)
  /-- A peer makes itself known. -/
  | addPeerToKnown (message : AddPeerToKnownMessage)
  /-- The node has asked to join, and this is the answer. -/
  | bootstrap (answer : AllPeers)
  /-- The operation in this place goes on. -/
  | advance (i : ℕ)

/-- One step of a node. -/
def step (U : UriCrate) (self : Server X) : Action → Server X
  | .createCollection name params order =>
    { self with tasks := self.tasks ++ [.insertCollection name
        (.init name ⟨params⟩ (TableOfContent.collectionsPath.join name) order)] }
  | .deleteCollection name => { self with toc := ⟨self.toc.collections.erase name⟩ }
  | .addPeerToKnown message =>
    match message.uri.map U.parse with
    | some (.ok uri) =>
      { self with
        persistent := self.persistent.addPeer message.id uri
        tasks := self.tasks ++ [.addRemotes message.id] }
    | _ => self -- an `unwrap` panics, and nothing has changed yet
  | .bootstrap answer => { self with tasks := self.tasks ++ [.bootstrap answer.allPeers] }
  | .advance i =>
    match self.tasks[i]? with
    | none => self
    | some task =>
      let (persistent, toc, rest) := task.step U self.persistent self.toc
      { self with
        persistent := persistent
        toc := toc
        tasks := self.tasks.eraseIdx i ++ rest.toList }

theorem step_advance {U : UriCrate} {self : Server X} {i : ℕ} {t : Task X}
    (hi : self.tasks[i]? = some t) : self.step U (.advance i) =
      let r := t.step U self.persistent self.toc
      { self with
        persistent := r.1
        toc := r.2.1
        tasks := self.tasks.eraseIdx i ++ r.2.2.toList } := by
  rw [step, hi]

/-- What a node is doing after a step of an operation it was doing before, or is the rest of it. -/
theorem mem_tasks_advance {tasks : List (Task X)} {i : ℕ} {rest : Option (Task X)} {t : Task X}
    (h : t ∈ tasks.eraseIdx i ++ rest.toList) : t ∈ tasks ∨ rest = some t := by
  obtain h | h := List.mem_append.mp h
  · exact Or.inl (List.mem_of_mem_eraseIdx h)
  · exact Or.inr (Option.mem_toList.mp h)

variable {U : UriCrate} {self : Server X} {a : Action}

@[simp] theorem step_peerId : (self.step U a).persistent.peerId = self.persistent.peerId := by
  cases a with
  | createCollection name params order => rfl
  | deleteCollection name => rfl
  | bootstrap answer => rfl
  | addPeerToKnown message => rw [step]; split <;> rfl
  | advance i =>
    cases hi : self.tasks[i]? with
    | none => rw [step, hi]
    | some t =>
      rw [step_advance hi]
      have heffect := t.effect U self.persistent self.toc
      generalize t.step U self.persistent self.toc = r at heffect ⊢
      cases heffect <;> rfl

@[simp] theorem step_p2pUri : (self.step U a).p2pUri = self.p2pUri := by
  cases a with
  | createCollection name params order => rfl
  | deleteCollection name => rfl
  | bootstrap answer => rfl
  | addPeerToKnown message => rw [step]; split <;> rfl
  | advance i =>
    cases hi : self.tasks[i]? with
    | none => rw [step, hi]
    | some t => rw [step_advance hi]

@[simp] theorem step_peerAddressById :
    (self.step U a).peerAddressById = self.peerAddressById := by
  cases a with
  | createCollection name params order => rfl
  | deleteCollection name => rfl
  | bootstrap answer => rfl
  | addPeerToKnown message => rw [step]; split <;> rfl
  | advance i =>
    cases hi : self.tasks[i]? with
    | none => rw [step, hi]
    | some t => rw [step_advance hi]

/-- One step after the other. -/
def run (U : UriCrate) (actions : List Action) (self : Server X) : Server X :=
  actions.foldl (step U) self

/-- A node that is started, with the collections it has loaded. -/
def start (p2pUri : Uri) (peerId : PeerId) (toc : TableOfContent X) : Server X :=
  ⟨p2pUri, ConsensusState.dummy p2pUri peerId, AList.singleton peerId p2pUri, toc, []⟩

end Server

/-- What `TableOfContent::load` returns, from any disk and whatever the operating system answers. -/
def TableOfContent.Loaded (J : ConfigJson) (peer : PeerId) (toc : TableOfContent X) : Prop :=
  ∃ (env : LoadEnv) (answer : Disk → (op : DiskOp) → Disk × op.Reply) (d d' : Disk)
    (memory : Memory X),
    (TableOfContent.load J env peer : Fs Empty _).run answer d = (d', .ok memory) ∧
      memory.toc = toc

/-- The states a node can get into, from any start. -/
inductive Server.Reachable (U : UriCrate) (J : ConfigJson) : Server X → Prop
  | start (p2pUri : Uri) (peerId : PeerId) {toc : TableOfContent X} (h : toc.Loaded J peerId) :
    Reachable U J (.start p2pUri peerId toc)
  | step {s : Server X} (h : Reachable U J s) (a : Action) : Reachable U J (s.step U a)

theorem Server.Reachable.run {U : UriCrate} {J : ConfigJson} {s : Server X} (h : s.Reachable U J)
    (actions : List Server.Action) : (s.run U actions).Reachable U J := by
  induction actions generalizing s with
  | nil => exact h
  | cons a actions ih => exact ih (h.step a)

/-! ## A node of the address table -/

/-- URIs of a scheme and a host, whose texts are all right.  They are displayed with a slash at the
end, whether it was in the text or not. -/
def UriCrate.plain : UriCrate where
  parse text := .ok (if text.toList.getLast? = some '/' then text else text ++ "/")
  parse_display text uri h := by
    have hlast : uri.toList.getLast? = some '/' := by
      rw [← Except.ok.inj h]
      split
      next hslash => exact hslash
      next => rw [String.toList_append]; exact List.getLast?_concat
    rw [if_pos hlast]

/-- There is nothing to load in an empty working directory. -/
theorem TableOfContent.loaded_empty (J : ConfigJson) (peer : PeerId) :
    (⟨∅⟩ : TableOfContent X).Loaded J peer :=
  ⟨.insertion, Disk.answer LoadEnv.insertion.listing, .empty, _, ⟨⟨∅⟩, Stores.empty⟩, rfl, rfl⟩

/-- The first node of the table, started in an empty working directory. -/
def Server.first (X : Crates V) : Server X := .start "http://0.0.0.0:5001/" 101 ⟨∅⟩

theorem Server.reachable_first (U : UriCrate) (J : ConfigJson) :
    (Server.first X).Reachable U J :=
  .start _ _ (TableOfContent.loaded_empty J 101)

/-- The second node of the table makes itself known. -/
def AddPeerToKnownMessage.second : AddPeerToKnownMessage :=
  ⟨some "http://0.0.0.0:5002", some 9920, 102⟩

end Smoldb
