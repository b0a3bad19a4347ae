import Smoldb.Cluster
import Smoldb.Json

/-!
# Clusters that share a collection

`Cluster.Hosts` says which collection a node has under a name, and `Cluster.Replicated` that a list
of nodes all have the collection, with the same shards, and know each other as remotes.  It is what
the theorems about clusters take for granted, so it should be what a cluster comes to.

`Cluster.joined` is how such a cluster comes about: every node makes the collection on its own, and
adds remote shards for each of the others when it hears of it.  `joined_replicated` says that the
nodes then replicate the collection, in whatever order they have heard of each other.  By induction
over what a node has heard, its shards stay those it has made, and the remotes of each are the peers
it has heard of, once each: `Collection.Knows`.

The rest are the environments that examples need: one in which everything works, and the same with
some of the nodes down.
-/

set_option autoImplicit false

namespace Smoldb

variable {V : Type} {X : Crates V}

/-- The node `peer` has the collection `name`, and it is `c`. -/
structure Cluster.Hosts (cl : Cluster X) (peer : PeerId) (name : CollectionName)
    (c : Collection X) : Prop where
  collection : cl.collection peer name = some c
  id : c.id = name
  wellFormed : c.WellFormed

/-- A collection with given shards whose remotes are given peers. -/
structure Collection.Knows (c : Collection X) (shards : List ShardId) (peers : List PeerId) :
    Prop where
  shards : ∀ s, s ∈ c.replicaHolder.shards ↔ s ∈ shards
  remotes : ∀ s rs, c.replicaHolder.shards.lookup s = some rs →
    (rs.remotes.map RemoteShard.peerId).Perm peers

/-- The nodes `peers` all have the collection `name`, with the same shards, and each knows all the
others. -/
structure Cluster.Replicated (cl : Cluster X) (name : CollectionName) (shards : List ShardId)
    (peers : List PeerId) : Prop where
  nodup : peers.Nodup
  nonempty : shards ≠ []
  hosts : ∀ peer ∈ peers, ∃ c, cl.Hosts peer name c ∧ c.Knows shards (peers.erase peer)

/-- Two nodes of the cluster route alike. -/
theorem Collection.Knows.shardOf_eq {c c' : Collection X} {shards : List ShardId}
    {peers peers' : List PeerId} (h : c.Knows shards peers) (h' : c'.Knows shards peers') :
    c.replicaHolder.shardOf = c'.replicaHolder.shardOf :=
  ReplicaHolder.shardOf_congr fun s ↦ (h.shards s).trans (h'.shards s).symm

theorem Collection.Knows.exists_mem {c : Collection X} {shards : List ShardId}
    {peers : List PeerId} (h : c.Knows shards peers) (hne : shards ≠ []) :
    ∃ s, s ∈ c.replicaHolder.shards := by
  obtain ⟨s, hs⟩ := List.exists_mem_of_ne_nil shards hne
  exact ⟨s, (h.shards s).mpr hs⟩

/-! ## How a cluster is formed -/

/-- A collection that hears of peers one after the other. -/
def Collection.join (c : Collection X) (peers : List PeerId) : Collection X :=
  peers.foldl Collection.addRemoteShards c

theorem Collection.WellFormed.join {c : Collection X} (h : c.WellFormed) (peers : List PeerId) :
    (c.join peers).WellFormed := by
  induction peers generalizing c with
  | nil => exact h
  | cons p ps ih => exact ih (h.addRemoteShards p)

theorem Collection.join_id (c : Collection X) (peers : List PeerId) : (c.join peers).id = c.id := by
  induction peers generalizing c with
  | nil => rfl
  | cons p ps ih => exact ih (c.addRemoteShards p)

/-- A peer that is new to a collection becomes a remote of every shard. -/
theorem Collection.Knows.addRemoteShards {c : Collection X} {shards : List ShardId}
    {peers : List PeerId} (h : c.Knows shards peers) {peer : PeerId} (hnew : peer ∉ peers) :
    (c.addRemoteShards peer).Knows shards (peers ++ [peer]) := by
  constructor
  · intro s
    rw [Collection.addRemoteShards, ReplicaHolder.mem_addRemoteShards, h.shards]
  · intro s rs hrs
    rw [Collection.addRemoteShards, ReplicaHolder.lookup_addRemoteShards,
      Option.map_eq_some_iff] at hrs
    obtain ⟨rs₀, hrs₀, rfl⟩ := hrs
    have hperm := h.remotes s rs₀ hrs₀
    have hany : ¬ rs₀.remotes.any (fun r ↦ r.peerId = peer) = true := by
      intro hany
      obtain ⟨r, hr, hp⟩ := List.any_eq_true.mp hany
      rw [decide_eq_true_iff] at hp
      exact hnew (hperm.mem_iff.mp (List.mem_map.mpr ⟨r, hr, hp⟩))
    rw [ReplicaHolder.addRemote, if_neg hany, List.map_append]
    exact hperm.append_right [peer]

theorem Collection.Knows.join {c : Collection X} {shards : List ShardId} {known : List PeerId}
    (h : c.Knows shards known) (peers : List PeerId) (hnodup : (known ++ peers).Nodup) :
    (c.join peers).Knows shards (known ++ peers) := by
  induction peers generalizing c known with
  | nil => rwa [List.append_nil]
  | cons p ps ih =>
    have hnew : p ∉ known := by
      intro hp
      exact (List.nodup_append.mp hnodup).2.2 p hp p List.mem_cons_self rfl
    rw [List.append_cons] at hnodup ⊢
    exact ih (h.addRemoteShards hnew) hnodup

theorem Collection.init_knows (id : CollectionName) (config : CollectionConfig) (path : Path)
    (order : IterOrder (Σ _ : ShardId, ReplicaSet)) :
    (Collection.init (X := X) id config path order).Knows [0, 1] [] := by
  constructor
  · intro s
    rw [Collection.mem_init]
    simp
  · intro s rs hrs
    rw [Collection.lookup_init] at hrs
    split at hrs
    · rw [← Option.some.inj hrs]; exact List.Perm.nil
    · split at hrs
      · rw [← Option.some.inj hrs]; exact List.Perm.nil
      · exact nomatch hrs

/-- The collection of a node that made it and then heard of the others. -/
def Collection.joined (name : CollectionName) (peers : List PeerId) (peer : PeerId) :
    Collection X :=
  (Collection.init name ⟨""⟩ ["storage", "collections", name] .insertion).join (peers.erase peer)

/-- The cluster of nodes that each made the collection and heard of all the others. -/
def Cluster.joined (X : Crates V) (name : CollectionName) (peers : List PeerId) : Cluster X where
  node peer := if peer ∈ peers then some ⟨[⟨name, .joined name peers peer⟩].toAList⟩ else none
  channelService shard := shard.getChannelService

theorem Cluster.joined_hosts {name : CollectionName} {peers : List PeerId} {peer : PeerId}
    (h : peer ∈ peers) : (Cluster.joined X name peers).Hosts peer name
      (.joined name peers peer) where
  collection := by
    have hnode : (Cluster.joined X name peers).node peer
        = some ⟨[⟨name, .joined name peers peer⟩].toAList⟩ := if_pos h
    rw [Cluster.collection, hnode, Option.bind_some, AList.lookup_to_alist, List.dlookup_cons_eq]
  id := Collection.join_id _ _
  wellFormed := (Collection.init_wellFormed _ _ _ _).join _

/-- **Nodes that heard of each other replicate the collection.** -/
theorem Cluster.joined_replicated {name : CollectionName} {peers : List PeerId}
    (h : peers.Nodup) : (Cluster.joined X name peers).Replicated name [0, 1] peers where
  nodup := h
  nonempty := by simp
  hosts peer hpeer := by
    have hknows := (Collection.init_knows (X := X) name ⟨""⟩ ["storage", "collections", name]
      .insertion).join (peers.erase peer) (by simpa using h.erase peer)
    exact ⟨_, Cluster.joined_hosts hpeer, hknows⟩

/-! ## The network of the address table

The addresses of the source's own table, with a server behind each of them. -/

/-- Where the addresses of the table lead. -/
def Uri.connect (uri : Uri) : Except String PeerId :=
  if uri = "http://0.0.0.0:5001/" then .ok 101
  else if uri = "http://0.0.0.0:5002/" then .ok 102
  else if uri = "http://0.0.0.0:5003/" then .ok 103
  else .error "connection refused"

/-- A write in which sled answers every call. -/
def WriteEnv.clean : WriteEnv := ⟨.insertion, fun _ ↦ .clean⟩

/-- A read in which sled answers every call. -/
def ReadEnv.clean : ReadEnv := ⟨.insertion, fun _ ↦ .clean⟩

/-- The status of a call to a node that is not there. -/
def Status.down : Status := ⟨.unavailable, "transport error"⟩

/-- A call, of which the request is lost if the node is down. -/
def CallEnv.over {η : Type} (handler : η) (down : Bool) : CallEnv η where
  connect := Uri.connect
  request := if down then some .down else none
  handler := handler
  reply := none
  aborted := .down

/-- A write in which calls to some nodes fail and nothing else does. -/
def ClusterWriteEnv.without (down : List PeerId) : ClusterWriteEnv where
  toWriteEnv := .clean
  remote _ peer := .over .clean (peer ∈ down)

/-- A read in which calls to some nodes fail and nothing else does. -/
def ClusterReadEnv.without (down : List PeerId) : ClusterReadEnv where
  toReadEnv := .clean
  remote _ peer := .over .clean (peer ∈ down)

end Smoldb
