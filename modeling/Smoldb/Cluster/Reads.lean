import Smoldb.Cluster.Calls
import Smoldb.Cluster.Formation
import Smoldb.Storage.Retrieve

/-!
# Reads in a cluster

`Collection.getPoints_ids` and `Collection.getPoints_none` say what a read makes of the answers of
the replicas.  Here are the answers: a shard of the node itself answers from its tree, and a remote
shard with what the handler at the other end reads from the trees of its node, less the points whose
id is not a number.

A read by id only ever asks the node itself, whatever `local_only` is.

Three things can be known of the trees of a collection.  `Stores.Sound`: every text is that of a
point, under its own key.  `Stores.Readable`: it is read as some point, if not as the one that was
written.  `Placed`, in `Cluster/Placement.lean`: the point is in the shard of its id.  A read that
meets a text which cannot be read fails as a whole, so it takes `Readable` to say that a read
succeeds, and `Sound` with payloads that are read as they were written to say what it returns.
-/

set_option autoImplicit false

namespace Smoldb

open LastWrite

variable {V : Type} {X : Crates V}

/-- What is stored under an id in a shard of a node. -/
def Stores.read (X : Crates V) (w : Stores) (peer : PeerId) (name : CollectionName) (s : ShardId)
    (id : PointId) : Option (Point V) := Segment.read X (w ⟨peer, name, s⟩ 0) id.intoString

/-- All points stored in a shard of a node. -/
def Stores.points (X : Crates V) (w : Stores) (peer : PeerId) (name : CollectionName)
    (s : ShardId) : List (Point V) := Segment.points X (w ⟨peer, name, s⟩ 0)

/-- All trees of a collection of a node have points in them, under their own keys. -/
def Stores.Sound (X : Crates V) (w : Stores) (peer : PeerId) (name : CollectionName) : Prop :=
  ∀ s, Segment.Sound X (w ⟨peer, name, s⟩ 0)

/-- All trees of a collection of a node can be read. -/
def Stores.Readable (X : Crates V) (w : Stores) (peer : PeerId) (name : CollectionName) : Prop :=
  ∀ s, Segment.Readable X (w ⟨peer, name, s⟩ 0)

theorem Stores.Sound.readable [X.PointsRoundTrip] {w : Stores} {peer : PeerId}
    {name : CollectionName} (h : w.Sound X peer name) : w.Readable X peer name :=
  fun s ↦ (h s).readable

/-! ## Reads by id -/

section ByIds

variable {cl : Cluster X} {peer : PeerId} {name : CollectionName} {c : Collection X}
  {env : ClusterReadEnv} {w : Stores}

/-- **What a read by id returns** when it succeeds, up to order. -/
theorem Cluster.getPoints_ids {ids : List PointId} {localOnly : Bool} {ps : List (Point V)}
    (hok : cl.getPoints peer name c env (some ids) none localOnly w = some (.ok ps)) :
    ps.Perm (ids.filterMap fun id ↦ w.read X peer name (c.shardOf id) id) := by
  refine (Collection.getPoints_ids (g := fun s ↦ w.read X peer name s)
    (Q := fun _ _ ↦ True) ?_ hok).2
  intro s rs ids qs _ hread
  exact ⟨fun _ _ ↦ trivial, (LocalShard.getPoints_eq_ok X (Option.some.inj hread)).2⟩

variable (cl) in
/-- A read by id succeeds as long as sled answers, if what is stored under the ids can be read. -/
theorem Cluster.getPoints_ids_clean (hc : c.WellFormed) {s₀ : ShardId}
    (hs₀ : s₀ ∈ c.replicaHolder.shards) (hsled : ∀ s, env.sled s = .clean) (ids : List PointId)
    (hreadable : ∀ id ∈ ids,
      Segment.ReadableAt X (w ⟨peer, name, c.shardOf id⟩ 0) id.intoString) (localOnly : Bool) :
    ∃ ps, cl.getPoints peer name c env (some ids) none localOnly w = some (.ok ps) ∧
      ps.Perm (ids.filterMap fun id ↦ w.read X peer name (c.shardOf id) id) := by
  refine Collection.getPoints_ids_total (g := fun s ↦ w.read X peer name s) ?_ hs₀ env.order
    localOnly
  intro s rs as hrs has
  have hanswers : Segment.Answers X (some as) (w ⟨peer, name, s⟩ 0) := by
    intro id hid
    obtain ⟨hmem, rfl⟩ := has id hid
    exact hreadable id hmem
  rw [Cluster.replicaGet, Smoldb.replicaGet, hsled]
  exact congrArg some (LocalShard.getPoints_clean X (hc.segment s rs hrs) _ hanswers)

end ByIds

/-! ## Lists of one node -/

section LocalLists

variable {peer : PeerId} {name : CollectionName} {sled : ShardId → SledReads} {w : Stores}
  {remote : ShardId → RemoteShard → Option (List PointId) →
    Option (CollectionResult (List (Point V)))}

/-- What the shard of the node itself answers, if it answers. -/
theorem replicaGet_local_eq_ok {s : ShardId} {shard : LocalShard} {ps : List (Point V)}
    (h : replicaGet X peer name sled w remote s (.localShard shard) none = some (.ok ps)) :
    ps = w.points X peer name s :=
  (LocalShard.getPoints_eq_ok X (Option.some.inj h)).2

theorem replicaGet_local_clean {s : ShardId} {shard : LocalShard} (h0 : 0 ∈ shard.segments)
    (hsled : sled s = .clean) (hreadable : Segment.Readable X (w ⟨peer, name, s⟩ 0)) :
    replicaGet X peer name sled w remote s (.localShard shard) none
      = some (.ok (w.points X peer name s)) := by
  rw [replicaGet, hsled]
  exact congrArg some (LocalShard.getPoints_clean X h0 none hreadable)

/-- The points a list of one node is made from. -/
def Collection.localPoints (c : Collection X) (shardId : Option ShardId) (peer : PeerId)
    (name : CollectionName) (w : Stores) : List (Point V) :=
  (Collection.selected shardId c.replicaHolder.shards.entries).flatMap fun e ↦
    w.points X peer name e.1

/-- **What a list of one node returns**, when it succeeds. -/
theorem Collection.getPoints_list_local {c : Collection X}
    {order : IterOrder (ShardId × List PointId)} {shardId : Option ShardId} {ps : List (Point V)}
    (hok : c.getPoints (replicaGet X peer name sled w remote) order none shardId true
      = some (.ok ps)) : ps = firsts (c.localPoints shardId peer name w) := by
  obtain ⟨hlists, rfl⟩ := Collection.getPoints_none.mp hok
  rw [Collection.localPoints]
  congr 1
  refine List.flatMap_congr fun e he ↦ ?_
  have hlist := hlists e he (.localShard e.2.localShard) List.mem_cons_self
  rw [Collection.listedAll, ReplicaSet.replicas, if_pos rfl, List.flatMap_singleton]
  exact replicaGet_local_eq_ok hlist

/-- A list of one node only succeeds if everything in the shards it is about can be read. -/
theorem Collection.readable_of_getPoints_list_local {c : Collection X}
    {order : IterOrder (ShardId × List PointId)} {shardId : Option ShardId} {ps : List (Point V)}
    (hok : c.getPoints (replicaGet X peer name sled w remote) order none shardId true
      = some (.ok ps)) :
    ∀ e ∈ Collection.selected shardId c.replicaHolder.shards.entries,
      Segment.Readable X (w ⟨peer, name, e.1⟩ 0) := by
  intro e he
  have hlist := (Collection.getPoints_none.mp hok).1 e he (.localShard e.2.localShard)
    List.mem_cons_self
  exact (LocalShard.getPoints_eq_ok X (Option.some.inj hlist)).1

/-- A list of one node succeeds as long as sled answers, if everything in the shards it is about
can be read. -/
theorem Collection.getPoints_list_local_clean {c : Collection X} (hc : c.WellFormed)
    (order : IterOrder (ShardId × List PointId)) {shardId : Option ShardId}
    (hsled : ∀ s, sled s = .clean)
    (hreadable : ∀ e ∈ Collection.selected shardId c.replicaHolder.shards.entries,
      Segment.Readable X (w ⟨peer, name, e.1⟩ 0)) :
    c.getPoints (replicaGet X peer name sled w remote) order none shardId true
      = some (.ok (firsts (c.localPoints shardId peer name w))) := by
  have hread : ∀ e ∈ Collection.selected shardId c.replicaHolder.shards.entries,
      replicaGet X peer name sled w remote e.1 (.localShard e.2.localShard) none
        = some (.ok (w.points X peer name e.1)) := by
    intro e he
    have hlookup : c.replicaHolder.shards.lookup e.1 = some e.2 :=
      AList.mem_lookup_iff.mpr (List.mem_filter.mp he).1
    exact replicaGet_local_clean (hc.segment e.1 e.2 hlookup) (hsled e.1) (hreadable e he)
  have hlisted : ∀ e ∈ Collection.selected shardId c.replicaHolder.shards.entries,
      Collection.listed (replicaGet X peer name sled w remote) e.1 (.localShard e.2.localShard)
        = w.points X peer name e.1 := by
    intro e he
    rw [Collection.listed, hread e he]
  refine Collection.getPoints_none.mpr ⟨fun e he r hr ↦ ?_, ?_⟩
  · rw [ReplicaSet.replicas, if_pos rfl, List.mem_singleton] at hr
    rw [hr, hlisted e he]
    exact hread e he
  · rw [Collection.localPoints]
    congr 1
    refine List.flatMap_congr fun e he ↦ ?_
    rw [Collection.listedAll, ReplicaSet.replicas, if_pos rfl, List.flatMap_singleton,
      hlisted e he]

end LocalLists

/-! ## Lists from other nodes -/

/-- What is made of the points that the handler at a node sends back to a list of one shard. -/
def sent (c : Collection X) (shardId : ShardId) (peer : PeerId) (name : CollectionName)
    (w : Stores) : List (Point V) :=
  resent X (firsts (c.localPoints (some shardId) peer name w))

/-- **What a remote shard answers to a list**, when it answers. -/
theorem RemoteShard.getPoints_none_eq_ok {self : RemoteShard} {cl : Cluster X}
    {env : CallEnv ReadEnv}
    {w : Stores} {ps : List (Point V)} (h : self.getPoints cl env none w = some (.ok ps)) :
    ∃ peer c, cl.Reaches env self peer ∧ cl.collection peer self.collection = some c ∧
      ps = sent c self.id peer self.collection w := by
  simp only [RemoteShard.getPoints] at h
  cases haddr : self.currentAddress (cl.channelService self) with
  | error e => simp [haddr] at h
  | ok uri =>
    cases hconn : env.connect uri with
    | error e => simp [haddr, hconn] at h
    | ok peer =>
      simp only [haddr, hconn, Cluster.callGet] at h
      cases hreq : env.request with
      | some status => simp [hreq] at h
      | none =>
        cases hnode : cl.node peer with
        | none => simp [hreq, hnode] at h
        | some toc =>
          simp only [hreq, hnode, PointsInternalService.getPoints] at h
          cases hc : toc.collections.lookup self.collection with
          | none => simp [hc] at h
          | some c =>
            simp only [hc, Option.isNone_none, if_true] at h
            cases hget : c.getPoints (replicaGet X peer self.collection env.handler.sled w
                noRemoteGet)
                env.handler.order none (some self.id) true with
            | none => simp [hget] at h
            | some result =>
              cases result with
              | error e => simp [hget] at h
              | ok qs =>
                cases hrep : env.reply with
                | some status => simp [hget, hrep] at h
                | none =>
                  simp only [hget, hrep, decodePoints_toGrpc, Option.map_some, Option.some.injEq,
                    Except.ok.injEq] at h
                  refine ⟨peer, c, ⟨uri, haddr, hconn⟩, ?_, ?_⟩
                  · rw [Cluster.collection, hnode, Option.bind_some, hc]
                  · rw [← h, Collection.getPoints_list_local hget]
                    rfl

/-- A remote shard answers a list if the call goes through and sled answers at the other end. -/
theorem RemoteShard.getPoints_none_clean {self : RemoteShard} {cl : Cluster X}
    {env : CallEnv ReadEnv} {w : Stores} {peer : PeerId} {c : Collection X}
    (hreach : cl.Reaches env self peer) (hreq : env.request = none) (hrep : env.reply = none)
    (hsled : ∀ s, env.handler.sled s = .clean) (hcoll : cl.collection peer self.collection = some c)
    (hc : c.WellFormed) (hreadable : w.Readable X peer self.collection) :
    self.getPoints cl env none w = some (.ok (sent c self.id peer self.collection w)) := by
  obtain ⟨uri, haddr, hconn⟩ := hreach
  rw [Cluster.collection, Option.bind_eq_some_iff] at hcoll
  obtain ⟨toc, hnode, hlookup⟩ := hcoll
  have hget : c.getPoints (replicaGet X peer self.collection env.handler.sled w noRemoteGet)
      env.handler.order none (some self.id) true
        = some (.ok (firsts (c.localPoints (some self.id) peer self.collection w))) :=
    Collection.getPoints_list_local_clean hc env.handler.order hsled fun e _ ↦ hreadable e.1
  simp only [RemoteShard.getPoints, haddr, hconn, Cluster.callGet, hreq, hnode,
    PointsInternalService.getPoints, hlookup, Option.isNone_none, if_true, hget, hrep,
    decodePoints_toGrpc, Option.map_some]
  rfl

end Smoldb
