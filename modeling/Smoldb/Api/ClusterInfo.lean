import Smoldb.Api
import Smoldb.Consensus.Shape
import Smoldb.Cluster.Remote

/-!
# What a node says of its cluster

`get_cluster` returns the peers a node knows, and `get_collection_cluster_info` the shards of a
collection: those of the node itself with the number of their points, and the remote ones.

`clusterInfo_consistent` compares them, in every state of a node.  The remote shards make up a
table, with a row for every shard of the node and a column for each of some peers that the node
knows: that is `Collection.Shaped`, the invariant of the collections of a node.  The numbers of
points are those of the lists the node would return, as long as every point that was ever written
can be read from its text.  A shard counts the keys of its tree and decodes nothing, while a list
decodes every value and fails with the first one that it cannot read.
-/

set_option autoImplicit false

namespace Smoldb

variable {V : Type} {X : Crates V}

/-- `Dispatcher::get_cluster_info`. -/
def Dispatcher.getClusterInfo (consensusState : Option Persistent) : Option Persistent :=
  consensusState

/-- `get_cluster`. -/
def Http.getCluster (consensusState : Option Persistent) : CollectionResult Persistent :=
  match Dispatcher.getClusterInfo consensusState with
  | some clusterInfo => .ok clusterInfo
  | none => .error (.serviceError "Cluster info is not available")

namespace CollectionClusterInfo

variable {c : Collection X} {peer : PeerId} {name : CollectionName} {w : Stores}

/-- The ids of the shards. -/
theorem shardIds_ofCollection : (ofCollection c peer name w).localShards.map
    CollectionClusterLocalShard.shardId = c.replicaHolder.shards.keys := by
  rw [ofCollection, List.map_map]
  rfl

theorem shardCount_ofCollection : (ofCollection c peer name w).shardCount
    = (ofCollection c peer name w).localShards.length := by
  rw [ofCollection, List.length_map]

/-- **The remote shards make up a table.** -/
theorem remoteShards_of_shaped {peers : List PeerId} (h : c.Shaped name peers) :
    (ofCollection c peer name w).remoteShards
      = (ofCollection c peer name w).localShards.flatMap fun l ↦
          peers.map fun p ↦ ⟨p, l.shardId, "Active"⟩ := by
  rw [ofCollection, List.flatMap_map]
  refine List.flatMap_congr fun e he ↦ ?_
  rw [h.remotes e.1 e.2 (AList.mem_lookup_iff.mpr he), List.map_map]
  rfl

/-- A shard counts the points of its list. -/
theorem pointCount_eq (h : w.Readable X peer name) (hc : c.WellFormed)
    {l : CollectionClusterLocalShard} (hl : l ∈ (ofCollection c peer name w).localShards) :
    l.pointCount = (c.localPoints (some l.shardId) peer name w).length := by
  obtain ⟨e, he, rfl⟩ := List.mem_map.mp hl
  have hrs : c.replicaHolder.shards.lookup e.1 = some e.2 := AList.mem_lookup_iff.mpr he
  rw [Collection.localPoints, Collection.selected_some hrs, List.flatMap_singleton, Stores.points,
    (h e.1).length_points]
  exact if_pos (hc.segment e.1 e.2 hrs)

theorem sum_pointCount (h : w.Readable X peer name) (hc : c.WellFormed) :
    ((ofCollection c peer name w).localShards.map CollectionClusterLocalShard.pointCount).sum
      = (c.localPoints none peer name w).length := by
  rw [← h.countPoints_eq hc, ofCollection, List.map_map]
  rfl

end CollectionClusterInfo

/-- **What a node says of a collection** is consistent, in every state in which only points were
written that can be read from their texts.  It has as many shards as `get_collection` counts, and no
two with one id.  The remote shards are all pairs of a shard and one of some peers, of which
`get_cluster` has every one.  A shard has as many points as its list, and the collection has as many
as the list of all shards. -/
theorem Http.clusterInfo_consistent {U : UriCrate} {J : ConfigJson} {s : Server X}
    (h : s.Reachable U J) {name : CollectionName} {c : Collection X}
    (hc : s.toc.collections.lookup name = some c) {w : Stores}
    (hw : Reachable X s.persistent.peerId name X.Readable c w) :
    ∃ clusterInfo info cluster,
      getCollectionClusterInfo s.toc s.persistent.peerId name w = .ok clusterInfo ∧
      getCollection s.toc name = .ok info ∧ getCluster (some s.persistent) = .ok cluster ∧
      clusterInfo.shardCount = clusterInfo.localShards.length ∧
      clusterInfo.shardCount = info.shardCount ∧
      (clusterInfo.localShards.map CollectionClusterLocalShard.shardId).Nodup ∧
      (∃ peers : List PeerId, peers.Nodup ∧ (∀ p ∈ peers, p ∈ cluster.peers) ∧
        clusterInfo.remoteShards = clusterInfo.localShards.flatMap fun l ↦
          peers.map fun p ↦ ⟨p, l.shardId, "Active"⟩) ∧
      ∀ (cl : Cluster X) (env : ClusterReadEnv), (∀ shardId, env.sled shardId = .clean) →
        (∀ l ∈ clusterInfo.localShards, ∃ list,
          cl.getPoints s.persistent.peerId name c env none (some l.shardId) true w
            = some (.ok list) ∧ l.pointCount = list.length) ∧
        ∃ list, cl.getPoints s.persistent.peerId name c env none none true w = some (.ok list) ∧
          (clusterInfo.localShards.map CollectionClusterLocalShard.pointCount).sum
            = list.length := by
  obtain ⟨-, hwf, -⟩ := hw.collection
  obtain ⟨peers, hshaped, hpeers⟩ := h.shaped.toc name c hc
  refine ⟨.ofCollection c s.persistent.peerId name w, .ofCollection c, s.persistent, ?_, ?_, rfl,
    CollectionClusterInfo.shardCount_ofCollection, rfl, ?_,
    ⟨peers, hshaped.nodup, hpeers, CollectionClusterInfo.remoteShards_of_shaped hshaped⟩, ?_⟩
  · rw [getCollectionClusterInfo, hc]
  · rw [getCollection, hc]
  · rw [CollectionClusterInfo.shardIds_ofCollection]
    exact c.replicaHolder.shards.keys_nodup
  · intro cl env hsled
    have hlist : ∀ shardId, cl.getPoints s.persistent.peerId name c env none shardId true w
        = some (.ok (firsts (c.localPoints shardId s.persistent.peerId name w))) :=
      fun _ ↦ Collection.getPoints_list_local_clean hwf env.order hsled
        fun e _ ↦ hw.readable e.1
    refine ⟨fun l hl ↦ ⟨_, hlist (some l.shardId), ?_⟩, _, hlist none, ?_⟩
    · rw [CollectionClusterInfo.pointCount_eq hw.readable hwf hl,
        (firsts_perm (hw.placed.localPoints_nodup _)).length_eq]
    · rw [CollectionClusterInfo.sum_pointCount hw.readable hwf,
        (firsts_perm hw.placed.localPoints_ids_nodup).length_eq]

/-- A second node sends points to a node that has heard of it. -/
def sentBySecond : UpsertPointsRequest :=
  ⟨"c", ([⟨.id 1, true⟩, ⟨.id 2, false⟩, ⟨.id 3, true⟩] : List (Point Bool)).filterMap
    (Point.toGrpc Crates.bool), none⟩

/-- A node with a collection that has heard of a second one, and got points from it. -/
theorem Http.clusterInfo_consistent_secondHeard :
    let toc := ((Server.first Crates.bool).run .plain secondHeard).toc
    let w := (PointsInternalService.upsertPoints toc 101 noRemote .clean
      sentBySecond .empty).1
    ∃ c clusterInfo, toc.collections.lookup "c" = some c ∧
      getCollectionClusterInfo toc 101 "c" w = .ok clusterInfo ∧
      (∃ list, (Cluster.joined Crates.bool "c" [101, 102]).getPoints 101 "c" c (.without []) none
          none true w = some (.ok list) ∧ list.length = 3 ∧
        (clusterInfo.localShards.map CollectionClusterLocalShard.pointCount).sum = 3) ∧
      clusterInfo.shardCount = 2 ∧
      clusterInfo.remoteShards = [⟨102, 0, "Active"⟩, ⟨102, 1, "Active"⟩] := by
  intro toc w
  have hreach := (Server.reachable_first (X := Crates.bool) .plain .plain).run secondHeard
  have hw : Reachable Crates.bool 101 "c" Crates.bool.Readable _ w :=
    .internal (.addRemote (.init ⟨""⟩ (TableOfContent.collectionsPath.join "c") .insertion
      (Stores.empty_fresh 101 "c")) 102) (show toc.collections.lookup "c" = some _ from rfl) _ _ rfl
      fun _ _ p _ ↦ Crates.bool.readable p
  obtain ⟨clusterInfo, -, -, hinfo, -, -, -, -, -, -, hcounts⟩ :=
    clusterInfo_consistent hreach (show _ = some _ from rfl) hw
  obtain ⟨-, list, hlist, hsum⟩ := hcounts (Cluster.joined Crates.bool "c" [101, 102])
    (.without []) fun _ ↦ rfl
  have hcomputed : ∀ info, getCollectionClusterInfo toc 101 "c" w = .ok info →
      (info.localShards.map CollectionClusterLocalShard.pointCount).sum = 3 ∧ info.shardCount = 2 ∧
        info.remoteShards = [⟨102, 0, "Active"⟩, ⟨102, 1, "Active"⟩] := by
    intro info h
    rw [← Except.ok.inj h]
    decide
  obtain ⟨hthree, hshards, hremotes⟩ := hcomputed clusterInfo hinfo
  exact ⟨_, clusterInfo, rfl, hinfo, ⟨list, hlist, by rw [← hsum, hthree], hthree⟩, hshards,
    hremotes⟩

end Smoldb
