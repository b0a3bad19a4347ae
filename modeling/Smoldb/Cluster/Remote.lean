import Smoldb.Cluster.Placement

/-!
# A remote shard stands for a shard

A remote shard and the shard it stands for implement one trait.  They do it differently: the remote
shard drops the ids that are strings, tells apart `None` and an empty list by a flag, and the
handler at the other end lists a shard through a map of all points, and drops what it cannot send.

`remote_reads_like_local` says that what comes back is what the shard itself answers, as far as it
can be sent: the same points as often, for the list of a shard and for any ids, whatever the order
in which a map is iterated.  It goes in two steps, what the handler answers to a list of one shard
(`Collection.getPoints_shard_list`), and what the remote shard makes of the answer
(`RemoteShard.getPoints_of_read`).  That the store of the shard is well formed, as it is in every
state, is what the handler needs to list it through a map without losing anything.
-/

set_option autoImplicit false

namespace Smoldb

variable {V : Type} {X : Crates V} {peer : PeerId} {name : CollectionName} {c : Collection X}
  {w : Stores}

/-- The ids of a request that can be sent. -/
def numericIds (ids : Option (List PointId)) : Option (List PointId) :=
  ids.map (List.filter PointId.isId)

/-- The one entry that is selected. -/
theorem Collection.selected_some {s : ShardId} {rs : ReplicaSet}
    (hrs : c.replicaHolder.shards.lookup s = some rs) :
    Collection.selected (some s) c.replicaHolder.shards.entries = [⟨s, rs⟩] := by
  have hmem : (⟨s, rs⟩ : Σ _ : ShardId, ReplicaSet) ∈ c.replicaHolder.shards.entries :=
    AList.mem_lookup_iff.mp hrs
  have hiff : ∀ e, e ∈ Collection.selected (some s) c.replicaHolder.shards.entries ↔
      e = ⟨s, rs⟩ := by
    intro e
    rw [Collection.selected, List.mem_filter]
    constructor
    · rintro ⟨he, hs⟩
      obtain ⟨t, rs'⟩ := e
      obtain rfl : t = s := by simpa using hs
      have hlookup : c.replicaHolder.shards.lookup t = some rs' := AList.mem_lookup_iff.mpr he
      rw [Option.some.inj (hlookup.symm.trans hrs)]
    · rintro rfl
      exact ⟨hmem, by simp⟩
  have hnodup : (Collection.selected (some s) c.replicaHolder.shards.entries).Nodup :=
    c.replicaHolder.shards.nodupKeys.nodup.filter _
  refine List.perm_singleton.mp ((List.perm_ext_iff_of_nodup hnodup
      (List.nodup_singleton _)).mpr ?_)
  exact fun e ↦ (hiff e).trans List.mem_singleton.symm

/-- **What the handler answers to a list of one shard**, as long as the shard can be read. -/
theorem Collection.getPoints_shard_list {s : ShardId} {rs : ReplicaSet}
    (hrs : c.replicaHolder.shards.lookup s = some rs) {sled : ShardId → SledReads}
    {remote : ShardId → RemoteShard → Option (List PointId) →
      Option (CollectionResult (List (Point V)))}
    (order : IterOrder (ShardId × List PointId)) {ps : List (Point V)}
    (hread : rs.localShard.getPoints X (sled s) none (w ⟨peer, name, s⟩) = .ok ps) :
    c.getPoints (replicaGet X peer name sled w remote) order none (some s) true
      = some (.ok (firsts ps)) := by
  have hanswer : replicaGet X peer name sled w remote s (.localShard rs.localShard) none
      = some (.ok ps) := congrArg some hread
  refine Collection.getPoints_none.mpr ?_
  rw [Collection.selected_some hrs]
  have hlisted : Collection.listed (replicaGet X peer name sled w remote) s
      (.localShard rs.localShard) = ps := by rw [Collection.listed, hanswer]
  refine ⟨fun e he r hr ↦ ?_, ?_⟩
  · rw [List.mem_singleton.mp he] at hr ⊢
    rw [ReplicaSet.replicas, if_pos rfl, List.mem_singleton] at hr
    rw [hr, hlisted]
    exact hanswer
  · rw [List.flatMap_singleton, Collection.listedAll, ReplicaSet.replicas, if_pos rfl,
      List.flatMap_singleton, hlisted]

/-- Ids that are sent come back as they were. -/
theorem map_id_filterMap (ids : List PointId) :
    (ids.filterMap fun | .id n => some n | .uuid _ => none).map PointId.id
      = ids.filter PointId.isId := by
  induction ids with
  | nil => rfl
  | cons id ids ih =>
    cases id with
    | id n => exact congrArg (PointId.id n :: ·) ih
    | uuid s => exact ih

/-- **What a remote shard answers**, as long as the shard it stands for can be read. -/
theorem RemoteShard.getPoints_of_read {shard : RemoteShard} {rs : ReplicaSet}
    (hrs : c.replicaHolder.shards.lookup shard.id = some rs) {cl : Cluster X}
    (hc : cl.collection peer shard.collection = some c) {env : CallEnv ReadEnv}
    (hreach : cl.Reaches env shard peer) (hreq : env.request = none) (hrep : env.reply = none)
    {ids : Option (List PointId)} {ps : List (Point V)}
    (hread : rs.localShard.getPoints X (env.handler.sled shard.id) (numericIds ids)
      (w ⟨peer, shard.collection, shard.id⟩) = .ok ps) :
    shard.getPoints cl env ids w
      = some (.ok (resent X (if ids.isNone then firsts ps else ps))) := by
  obtain ⟨uri, haddr, hconn⟩ := hreach
  rw [Cluster.collection, Option.bind_eq_some_iff] at hc
  obtain ⟨toc, hnode, hlookup⟩ := hc
  cases ids with
  | none =>
    have hget : c.getPoints (replicaGet X peer shard.collection env.handler.sled w noRemoteGet) _
        none (some shard.id) true = _ :=
      Collection.getPoints_shard_list hrs env.handler.order hread
    simp only [RemoteShard.getPoints, haddr, hconn, Cluster.callGet, hreq, hnode,
      PointsInternalService.getPoints, hlookup, Option.isNone_none, if_true, hget, hrep,
      decodePoints_toGrpc, Option.map_some]
  | some ids =>
    have hget : c.getPoints (replicaGet X peer shard.collection env.handler.sled w noRemoteGet)
        env.handler.order (some (ids.filter PointId.isId)) (some shard.id) true
          = some (.ok ps) := by
      simp only [Collection.getPoints, ReplicaHolder.getReplicaSet, hrs]
      exact congrArg some hread
    rw [RemoteShard.getPoints]
    generalize hnumbers : List.filterMap _ ((some ids).getD []) = numbers
    have hmap : numbers.map PointId.id = ids.filter PointId.isId := by
      rw [← hnumbers]
      exact map_id_filterMap ids
    simp only [haddr, hconn, Cluster.callGet, hreq, hnode, PointsInternalService.getPoints, hlookup,
      Option.isNone_some, hmap, Bool.false_eq_true, if_false, hget, hrep, decodePoints_toGrpc,
      Option.map_some]

/-- **A remote shard reads like the shard it stands for.**  In every state a collection of a node
can get into, a remote shard for one of its shards, served by that node, answers with the points the
shard itself has for the ids that can be sent, as often as they are there, less those whose id is a
string.  If no id can be sent it answers with nothing. -/
theorem remote_reads_like_local [X.PayloadsRoundTrip] {shard : RemoteShard}
    {P : Point V → Prop} (h : Reachable X peer shard.collection P c w) {cl : Cluster X}
    (hc : cl.collection peer shard.collection = some c) {rs : ReplicaSet}
    (hrs : c.replicaHolder.shards.lookup shard.id = some rs) {env : CallEnv ReadEnv}
    (hreach : cl.Reaches env shard peer) (hreq : env.request = none) (hrep : env.reply = none)
    (ids : Option (List PointId)) :
    (∀ ps, rs.localShard.getPoints X (env.handler.sled shard.id) (numericIds ids)
        (w ⟨peer, shard.collection, shard.id⟩) = .ok ps →
      ∃ qs, shard.getPoints cl env ids w = some (.ok qs) ∧ qs.Perm (numeric ps)) ∧
    ∀ l, ids = some l → (∀ id ∈ l, id.isId = false) →
      shard.getPoints cl env ids w = some (.ok []) := by
  constructor
  · intro ps hread
    refine ⟨_, RemoteShard.getPoints_of_read hrs hc hreach hreq hrep hread, ?_⟩
    rw [resent_eq]
    cases ids with
    | none =>
      have hps : ps = w.points X peer shard.collection shard.id :=
        (LocalShard.getPoints_eq_ok X hread).2
      have hnodup := h.placed.points_ids_nodup shard.id
      rw [← hps] at hnodup
      exact (firsts_perm hnodup).filter _
    | some ids => exact .refl _
  · rintro l rfl hl
    have hnone : numericIds (some l) = some [] := by
      rw [numericIds, Option.map_some, List.filter_eq_nil_iff.mpr fun id hid ↦ by simp [hl id hid]]
    have h0 : 0 ∈ rs.localShard.segments := h.collection.2.1.segment _ _ hrs
    have hread : rs.localShard.getPoints X (env.handler.sled shard.id) (numericIds (some l))
        (w ⟨peer, shard.collection, shard.id⟩) = .ok [] := by
      rw [hnone, LocalShard.getPoints, if_pos h0]
      rfl
    rw [RemoteShard.getPoints_of_read hrs hc hreach hreq hrep hread]
    rfl

/-- A node with some points. -/
def Stores.sample : Stores :=
  ((Cluster.joined Crates.bool "c" [101, 102]).upsertPoints 101 "c" (.joined "c" [101, 102] 101)
    (.without [102]) [⟨.id 1, true⟩, ⟨.uuid "b", false⟩, ⟨.id 2, true⟩] false .empty).1

/-- A list, asked for by another node. -/
theorem remote_reads_like_local_sample : ∃ qs,
    (⟨0, "c", 101⟩ : RemoteShard).getPoints (Cluster.joined Crates.bool "c" [101, 102])
      (.over .clean false) none .sample = some (.ok qs) ∧
    qs.Perm (numeric (Stores.sample.points Crates.bool 101 "c" 0)) := by
  have hcoll : (Cluster.joined Crates.bool "c" [101, 102]).collection 101 "c"
      = some (.joined "c" [101, 102] 101) := (Cluster.joined_hosts (by decide)).collection
  have hreach : Reachable Crates.bool 101 "c" (fun _ ↦ True) (.joined "c" [101, 102] 101)
      Stores.sample :=
    Reachable.upsert (.addRemote (.init ⟨""⟩ ["storage", "collections", "c"] .insertion
      (Stores.empty_fresh 101 "c")) 102) hcoll (.without [102])
      [⟨.id 1, true⟩, ⟨.uuid "b", false⟩, ⟨.id 2, true⟩] false fun _ _ ↦ ⟨trivial, trivial⟩
  obtain ⟨-, hwf, h0⟩ := hreach.collection
  obtain ⟨rs, hrs⟩ := Option.isSome_iff_exists.mp (AList.lookup_isSome.mpr h0)
  have hread := LocalShard.getPoints_clean _ (hwf.segment 0 rs hrs) none
    (hreach.placed.sound 0).readable
  exact (@remote_reads_like_local _ _ _ _ _ _ ⟨0, "c", 101⟩ _ hreach _ hcoll _ hrs _
    ⟨"http://0.0.0.0:5001/", rfl, rfl⟩ rfl rfl none).1 _ hread

end Smoldb
