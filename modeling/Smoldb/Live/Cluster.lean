import Smoldb.Cluster.Calls
import Smoldb.Consensus.Joining
import Smoldb.Live.Durability

/-!
# A cluster at work

`LiveCluster` puts together what is elsewhere on its own: a cluster that grows, `Network`, and
collections that are worked on, `LiveCollection`.  Nodes are started, join a cluster and stop;
collections are made and deleted; and clients send upserts and reads to any node, which get on one
call after the other, in any interleaving.

An upsert of a client calls other nodes for the remote shards of its collection.  Such a call is
taken up by the handler at the node it leads to, which is a request of its own there, and returns
when the handler is done.  It may also fail at any time: there is no address, the node is not there,
it has no such collection, the handler fails, or it takes too long.  Then the handler may still be
at work.

## What is in a state

* `network`: the nodes that are up, with their collections in memory, and the joins.
* `homes`: all collections that there have been.  A collection is at home in a directory of a node,
  from when it is made until it is deleted, and its home remembers what was asked of it, over all
  stops of the node.
* `disk`: which home is in a directory now.  A collection that is deleted and made again gets a new
  one.
* `waits`: the handler that a request waits for.

`Touches` says once what a step can do to the collection in a home, and `step_home` that it does
nothing else.  Everything about all collections is proved along it.

Nothing waits for a lock here, so more can happen than in the program: there a collection is not
deleted while it is worked on.  Where a call leads is the oracle `connect` of the event `send`; it
need not be the node that the call is meant for, and a run in which it always is has `Honest`
events.
-/

set_option autoImplicit false

namespace Smoldb

variable {V : Type} {X : Crates V}

/-! ## Nodes that stop -/

namespace Network

/-- A node is started on its own. -/
def boot (U : UriCrate) (self : Network X) (peer : PeerId) (p2pUrl : String)
    (toc : TableOfContent X) : Network X :=
  match U.parse p2pUrl, self.nodes peer with
  | .ok p2pUri, none =>
    { self with nodes := Function.update self.nodes peer (some (.start p2pUri peer toc)) }
  | _, _ => self

/-- A node stops, and its joins come to nothing. -/
def halt (self : Network X) (peer : PeerId) : Network X :=
  ⟨Function.update self.nodes peer none,
    self.joins.filter fun join ↦ join.joiner ≠ peer ∧ join.via ≠ peer⟩

end Network

/-! ## The state -/

/-- The directory of a collection at a node, and what is going on in it. -/
structure Home {V : Type} (X : Crates V) where
  peer : PeerId
  name : CollectionName
  live : LiveCollection X

/-- A request to a collection. -/
structure Address where
  home : ℕ
  request : ℕ
  deriving DecidableEq

/-- A cluster with everything that is going on in it. -/
structure LiveCluster {V : Type} (X : Crates V) where
  network : Network X
  homes : List (Home X)
  /-- Which home a collection has, if there is a directory for it. -/
  disk : PeerId → CollectionName → Option ℕ
  /-- The handler that a request waits for. -/
  waits : Address → Option Address

/-- Something that happens in a cluster. -/
inductive ClusterEvent {V : Type} (X : Crates V) where
  /-- A node joins, goes on with it, or makes or deletes a collection. -/
  | network (a : Network.Action X)
  | boot (peer : PeerId) (p2pUrl : String) (toc : TableOfContent X)
  /-- A node stops, and this is what is left in its trees. -/
  | halt (peer : PeerId) (recovered : ℕ → ShardId → String → Option String)
  /-- An upsert of a client. -/
  | upsert (peer : PeerId) (name : CollectionName) (order : IterOrder (ShardId × List PointId))
    (points : List (Point V))
  /-- A read by id of a client. -/
  | read (peer : PeerId) (name : CollectionName) (order : IterOrder (ShardId × List PointId))
    (ids : List PointId)
  /-- A request makes its next call of sled. -/
  | advance (a : Address) (failure : Option (String × Bool))
  /-- The call to another node that a request makes is taken up. -/
  | send (a : Address) (connect : Uri → Except String PeerId)
    (order : IterOrder (ShardId × List PointId))
  /-- The handler that a request waits for is done. -/
  | reply (a : Address)
  /-- The call to another node that a request makes fails. -/
  | fail (a : Address) (e : CollectionError)

namespace LiveCluster

/-- Nothing has been started, and all disks are empty. -/
def empty (X : Crates V) : LiveCluster X := ⟨⟨fun _ ↦ none, []⟩, [], fun _ _ ↦ none, fun _ ↦ none⟩

/-- A request. -/
def request (self : LiveCluster X) (a : Address) : Option (LiveRequest V) :=
  self.homes[a.home]?.bind fun home ↦ home.live.requests[a.request]?

/-- The call that a request makes next. -/
def pending (self : LiveCluster X) (a : Address) : Option (PointCall V) :=
  match self.request a with
  | some ⟨_, some (.call op _)⟩ => some op
  | _ => none

/-- The collection that a node has under a name. -/
def collection (self : LiveCluster X) (peer : PeerId) (name : CollectionName) :
    Option (Collection X) := self.network.cluster.collection peer name

/-- What happens to one collection. -/
def inHome (self : LiveCluster X) (i : ℕ) (f : LiveCollection X → LiveCollection X) :
    LiveCluster X :=
  { self with homes := self.homes.modify i fun home ↦ { home with live := f home.live } }

/-- A request comes in at a node. -/
def arrive (self : LiveCluster X) (peer : PeerId) (name : CollectionName) (e : LiveEvent X) :
    LiveCluster X :=
  match self.collection peer name, self.disk peer name with
  | some c, some i => self.inHome i fun l ↦ (l.step (.become c)).step e
  | _, _ => self

/-- The address of the next request to a collection. -/
def next (self : LiveCluster X) (peer : PeerId) (name : CollectionName) : Option Address :=
  match self.collection peer name, self.disk peer name with
  | some _, some i => self.homes[i]?.map fun home ↦ ⟨i, home.live.requests.length⟩
  | _, _ => none

/-- A call to another node returns. -/
def resume (self : LiveCluster X) (a : Address) (result : CollectionResult Unit) : LiveCluster X :=
  { self.inHome a.home fun l ↦ l.step (.advance a.request ⟨none, result⟩) with
    waits := Function.update self.waits a none }

/-- `RemoteShard::upsert_points`, as far as the handler of `PointsInternalService::upsert_points`:
where the call leads to, and what is sent there. -/
def call (self : LiveCluster X) (connect : Uri → Except String PeerId) (shard : RemoteShard)
    (points : List (Point V)) : Option (PeerId × List (Point V)) :=
  match shard.currentAddress (self.network.cluster.channelService shard) with
  | .error _ => none
  | .ok uri =>
    match connect uri, decodePoints X (points.filterMap (Point.toGrpc X)) with
    | .ok peer, some sent => some (peer, sent)
    | _, _ => none

/-- A node joins, goes on with it, or makes or deletes a collection.  A collection is only made if
its directory is not there, and deleted if the node has it. -/
def administer (U : UriCrate) (self : LiveCluster X) : Network.Action X → LiveCluster X
  | .createCollection peer name params order =>
    match self.network.nodes peer, self.disk peer name with
    | some _, none =>
      { self with
        network := self.network.step U (.createCollection peer name params order)
        homes := self.homes ++ [⟨peer, name,
          .new (.init name ⟨params⟩ (TableOfContent.collectionsPath.join name) order)⟩]
        disk := Function.update self.disk peer
          (Function.update (self.disk peer) name (some self.homes.length)) }
    | _, _ => self
  | .deleteCollection peer name =>
    match self.collection peer name with
    | some _ =>
      { self with
        network := self.network.step U (.deleteCollection peer name)
        disk := Function.update self.disk peer (Function.update (self.disk peer) name none) }
    | none => self
  | a => { self with network := self.network.step U a }

/-- Something happens. -/
def step (U : UriCrate) (self : LiveCluster X) : ClusterEvent X → LiveCluster X
  | .network a => self.administer U a
  | .boot peer p2pUrl toc => { self with network := self.network.boot U peer p2pUrl toc }
  | .halt peer recovered =>
    { self with
      network := self.network.halt peer
      homes := self.homes.mapIdx fun i (home : Home X) ↦
        if home.peer = peer then { home with live := home.live.step (.stop (recovered i)) }
        else home }
  | .upsert peer name order points => self.arrive peer name (.upsert order points false)
  | .read peer name order ids => self.arrive peer name (.read order ids)
  | .advance a failure =>
    match self.pending a with
    | some (.upsertRemote ..) => self
    | _ => self.inHome a.home fun l ↦ l.step (.advance a.request ⟨failure, .ok ()⟩)
  | .send a connect order =>
    match self.waits a, self.pending a with
    | none, some (.upsertRemote _ shard points) =>
      match self.call connect shard points with
      | some (peer, sent) =>
        match self.next peer shard.collection with
        | some b =>
          { self.arrive peer shard.collection (.upsert order sent true) with
            waits := Function.update self.waits a (some b) }
        | none => self
      | none => self
    | _, _ => self
  | .reply a =>
    match (self.waits a).bind self.request with
    | some ⟨_, some (.ok .upserted)⟩ => self.resume a (.ok ())
    | _ => self
  | .fail a e =>
    match self.pending a with
    | some (.upsertRemote ..) => self.resume a (.error e)
    | _ => self

/-- One thing after the other. -/
def run (U : UriCrate) (self : LiveCluster X) (events : List (ClusterEvent X)) : LiveCluster X :=
  events.foldl (step U) self

/-- A node has loaded what is on its disk. -/
structure Loads (J : ConfigJson) (cluster : LiveCluster X) (peer : PeerId)
    (toc : TableOfContent X) : Prop where
  loaded : toc.Loaded J peer
  collections : ∀ name, (toc.collections.lookup name).isSome = (cluster.disk peer name).isSome
  shards : ∀ name c i home, toc.collections.lookup name = some c → cluster.disk peer name = some i →
    cluster.homes[i]? = some home →
      ∀ s, s ∈ c.replicaHolder.shards ↔ s ∈ home.live.collection.replicaHolder.shards

/-- A node loads what is on its disk, the name of a collection is that of a directory, and a tree is
left with what it can be left with. -/
def Proper (J : ConfigJson) (self : LiveCluster X) : ClusterEvent X → Prop
  | .network (.join joiner _ toc _) => self.Loads J joiner toc
  | .network (.createCollection _ name _ _) => Path.IsFileName name
  | .boot peer _ toc => self.Loads J peer toc
  | .halt peer recovered => ∀ (i : ℕ) (home : Home X), self.homes[i]? = some home →
    home.peer = peer → ∀ s key, (home.live.trees s).Recovers key (recovered i s key)
  | _ => True

/-- Everything that happens is proper. -/
def AllProper (U : UriCrate) (J : ConfigJson) : List (ClusterEvent X) → LiveCluster X → Prop
  | [], _ => True
  | e :: events, self => self.Proper J e ∧ AllProper U J events (self.step U e)

end LiveCluster

/-- Calls lead to the peer they are meant for. -/
def ClusterEvent.Honest : ClusterEvent X → Prop
  | send _ connect _ => ∀ (shard : RemoteShard) (uri : Uri) (peer : PeerId),
    shard.currentAddress shard.getChannelService = .ok uri → connect uri = .ok peer →
      peer = shard.peerId
  | _ => True

/-- The collection of a node is deleted. -/
def ClusterEvent.Deletes (peer : PeerId) (name : CollectionName) : ClusterEvent X → Prop
  | network (.deleteCollection peer' name') => peer' = peer ∧ name' = name
  | _ => False

namespace LiveCluster

variable {U : UriCrate} {J : ConfigJson} {self : LiveCluster X}

/-! ## Runs -/

theorem run_append (A B : List (ClusterEvent X)) :
    self.run U (A ++ B) = (self.run U A).run U B := List.foldl_append

theorem run_cons (e : ClusterEvent X) (events : List (ClusterEvent X)) :
    self.run U (e :: events) = (self.step U e).run U events := rfl

theorem allProper_append {A B : List (ClusterEvent X)} :
    AllProper U J (A ++ B) self ↔ AllProper U J A self ∧ AllProper U J B (self.run U A) := by
  induction A generalizing self with
  | nil => exact ⟨fun h ↦ ⟨trivial, h⟩, fun h ↦ h.2⟩
  | cons e A ih => rw [List.cons_append, AllProper, AllProper, ih, run_cons, and_assoc]

/-! ## What a step does to a collection -/

/-- What can happen to the collection in a home. -/
inductive Touches (U : UriCrate) (self : LiveCluster X) (e : ClusterEvent X) (i : ℕ)
    (home : Home X) : LiveCollection X → Prop
  | rests : Touches U self e i home home.live
  /-- An upsert of a client comes in. -/
  | upserts {c : Collection X} {order : IterOrder (ShardId × List PointId)}
    {points : List (Point V)} (he : e = .upsert home.peer home.name order points)
    (hc : self.collection home.peer home.name = some c)
    (hi : self.disk home.peer home.name = some i) :
    Touches U self e i home ((home.live.step (.become c)).step (.upsert order points false))
  /-- A read of a client comes in. -/
  | reads {c : Collection X} {order : IterOrder (ShardId × List PointId)} {ids : List PointId}
    (he : e = .read home.peer home.name order ids)
    (hc : self.collection home.peer home.name = some c)
    (hi : self.disk home.peer home.name = some i) :
    Touches U self e i home ((home.live.step (.become c)).step (.read order ids))
  /-- A call of another node is taken up. -/
  | hears {c : Collection X} {a : Address} {connect : Uri → Except String PeerId}
    {order : IterOrder (ShardId × List PointId)} {s : ShardId} {shard : RemoteShard}
    {points sent : List (Point V)} (he : e = .send a connect order)
    (hname : shard.collection = home.name)
    (ha : self.pending a = some (.upsertRemote s shard points))
    (hcall : self.call connect shard points = some (home.peer, sent))
    (hc : self.collection home.peer home.name = some c)
    (hi : self.disk home.peer home.name = some i) :
    Touches U self e i home ((home.live.step (.become c)).step (.upsert order sent true))
  /-- A request makes a call.  One to another node has succeeded if the handler is done, and nobody
  is waited for any more. -/
  | calls (j : ℕ) (outcome : CallOutcome)
    (h : ∀ s shard points, self.pending ⟨i, j⟩ = some (.upsertRemote s shard points) →
      (self.step U e).waits ⟨i, j⟩ = none ∧ (outcome.remote = .ok () →
        ∃ b asked, self.waits ⟨i, j⟩ = some b ∧
          self.request b = some ⟨asked, some (.ok .upserted)⟩)) :
    Touches U self e i home (home.live.step (.advance j outcome))
  /-- The node stops. -/
  | halts {recovered : ℕ → ShardId → String → Option String} (he : e = .halt home.peer recovered) :
    Touches U self e i home (home.live.step (.stop (recovered i)))

/-- The collections on a disk have a home. -/
def Housed (self : LiveCluster X) : Prop := ∀ peer name i, self.disk peer name = some i →
  ∃ home, self.homes[i]? = some home ∧ home.peer = peer ∧ home.name = name

section Step

variable {i j : ℕ} {home : Home X}

theorem getElem?_inHome (f : LiveCollection X → LiveCollection X) :
    (self.inHome j f).homes[i]? = (self.homes[i]?).map fun home ↦
      if j = i then { home with live := f home.live } else home := List.getElem?_modify ..

/-- Where a request comes in, and where not. -/
theorem arrive_home (peer : PeerId) (name : CollectionName) (hhoused : self.Housed)
    (e : LiveEvent X) (hi : self.homes[i]? = some home) :
    (self.arrive peer name e).homes[i]? = some home ∨
      peer = home.peer ∧ name = home.name ∧ self.disk home.peer home.name = some i ∧
        ∃ c, self.collection home.peer home.name = some c ∧ (self.arrive peer name e).homes[i]?
          = some { home with live := (home.live.step (.become c)).step e } := by
  rw [arrive]
  cases hc : self.collection peer name with
  | none => exact Or.inl hi
  | some c =>
    cases hdisk : self.disk peer name with
    | none => exact Or.inl hi
    | some j =>
      simp only [getElem?_inHome, hi, Option.map_some]
      by_cases hij : j = i
      · subst hij
        obtain ⟨home', hhome', rfl, rfl⟩ := hhoused peer name j hdisk
        obtain rfl := Option.some.inj (hi.symm.trans hhome')
        exact Or.inr ⟨rfl, rfl, hdisk, c, hc, by rw [if_pos rfl]⟩
      · exact Or.inl (by rw [if_neg hij])

/-- What a call to another node returns goes to the request that has made it. -/
theorem resume_home {a : Address} (result : CollectionResult Unit)
    (hi : self.homes[i]? = some home) :
    (self.resume a result).homes[i]? = some home ∨
      a.home = i ∧ (self.resume a result).homes[i]?
        = some { home with live := home.live.step (.advance a.request ⟨none, result⟩) } := by
  by_cases hij : a.home = i
  · refine Or.inr ⟨hij, ?_⟩
    rw [resume, getElem?_inHome, hi, Option.map_some, if_pos hij]
  · refine Or.inl ?_
    rw [resume, getElem?_inHome, hi, Option.map_some, if_neg hij]

theorem administer_home (a : Network.Action X) (hi : self.homes[i]? = some home) :
    (self.administer U a).homes[i]? = some home := by
  cases a with
  | createCollection peer name params order =>
    rw [administer]
    split
    · rw [List.getElem?_append_left (List.getElem?_eq_some_iff.mp hi).1]
      exact hi
    · exact hi
  | deleteCollection peer name =>
    rw [administer]
    split <;> exact hi
  | join joiner p2pUrl toc via => exact hi
  | request i => exact hi
  | answer i => exact hi
  | advance peer i => exact hi

/-- **What a step does to a collection.** -/
theorem step_home (hhoused : self.Housed) (e : ClusterEvent X)
    (hi : self.homes[i]? = some home) :
    ∃ l, (self.step U e).homes[i]? = some { home with live := l } ∧ self.Touches U e i home l := by
  have hrests : ∀ {cluster : LiveCluster X}, cluster.homes[i]? = some home →
      ∃ l, cluster.homes[i]? = some { home with live := l } ∧ self.Touches U e i home l :=
    fun h ↦ ⟨_, h, .rests⟩
  cases e with
  | network a => exact hrests (administer_home a hi)
  | boot peer p2pUrl toc => exact hrests hi
  | halt peer recovered =>
    have hget : (self.step U (.halt peer recovered)).homes[i]?
        = some (if home.peer = peer then { home with live := home.live.step (.stop (recovered i)) }
            else home) := by
      rw [step, List.getElem?_mapIdx, hi, Option.map_some]
    by_cases hpeer : home.peer = peer
    · subst hpeer
      rw [if_pos rfl] at hget
      exact ⟨_, hget, .halts rfl⟩
    · rw [if_neg hpeer] at hget
      exact hrests hget
  | upsert peer name order points =>
    obtain hsame | ⟨rfl, rfl, hdisk, c, hc, hget⟩ :=
      arrive_home peer name hhoused (.upsert order points false) hi
    · exact hrests hsame
    · exact ⟨_, hget, .upserts rfl hc hdisk⟩
  | read peer name order ids =>
    obtain hsame | ⟨rfl, rfl, hdisk, c, hc, hget⟩ :=
      arrive_home peer name hhoused (.read order ids) hi
    · exact hrests hsame
    · exact ⟨_, hget, .reads rfl hc hdisk⟩
  | advance a failure =>
    rw [step]
    split
    · exact hrests hi
    · rename_i hpending
      simp only [getElem?_inHome, hi, Option.map_some]
      by_cases hij : a.home = i
      · subst hij
        rw [if_pos rfl]
        exact ⟨_, rfl, .calls a.request _ fun s shard points hremote ↦
          absurd hremote (hpending s shard points)⟩
      · rw [if_neg hij]
        exact ⟨_, rfl, .rests⟩
  | send a connect order =>
    rw [step]
    split
    · rename_i s shard points hwaits hpending
      split
      · rename_i peer sent hcall
        split
        · rename_i b hb
          obtain hsame | ⟨rfl, hname, hdisk, c, hc, hget⟩ := arrive_home peer
            shard.collection hhoused (.upsert order sent true) hi
          · exact hrests hsame
          · exact ⟨_, hget, .hears rfl hname hpending hcall hc hdisk⟩
        · exact hrests hi
      · exact hrests hi
    · exact hrests hi
  | reply a =>
    rw [step]
    split
    · rename_i asked hrequest
      obtain ⟨b, hb, hdone⟩ := Option.bind_eq_some_iff.mp hrequest
      obtain hsame | ⟨rfl, hget⟩ := resume_home (a := a) (.ok ()) hi
      · exact hrests hsame
      · refine ⟨_, hget, .calls a.request _ fun _ _ _ _ ↦ ⟨?_, fun _ ↦ ⟨b, asked, hb, hdone⟩⟩⟩
        rw [step]
        simp only [hrequest]
        exact Function.update_self ..
    · exact hrests hi
  | fail a error =>
    rw [step]
    split
    · rename_i hpending
      obtain hsame | ⟨rfl, hget⟩ := resume_home (a := a) (.error error) hi
      · exact hrests hsame
      · refine ⟨_, hget, .calls a.request _ fun _ _ _ _ ↦ ⟨?_, fun hok ↦ absurd hok (by simp)⟩⟩
        rw [step]
        simp only [hpending]
        exact Function.update_self ..
    · exact hrests hi

end Step

end LiveCluster

end Smoldb
