import Smoldb.Cluster.Clients

/-!
# Where an acknowledged write is seen

An upsert is acknowledged when two replicas have it, or the only one, while a read by id asks only
the node it is sent to.  So a write is seen at the nodes that acknowledged it, `Cluster.Acked`, and
these are all nodes as long as there are at most two.

A list asks all nodes, so with three nodes or more it still has an entry for the point at every
node.  But the node's own entry takes precedence, and that can be an older one.

The theorem is about a sequence of upserts, each finished before the next, of which the last one
that has the id is acknowledged.  What is stored under the key when that one returns stays there
(`Cluster/Clients.lean`), and what is read is found in the trees (`Cluster/Reads.lean`).  The run at
the end is of three nodes of which one is down during the second upsert: it goes on returning the
first point by id and in its lists.
-/

set_option autoImplicit false

namespace Smoldb

open LastWrite

variable {V : Type} {X : Crates V}

/-- Of points with numbers for ids, the last one of an id is the last one of its text. -/
theorem lastWritten_of_last {f : PointId → ShardId} {points : List (Point V)}
    (hnum : ∀ q ∈ points, q.id.isId = true) {p : Point V}
    (hp : last Point.id points p.id = some p) :
    lastWritten f points (f p.id) p.id.intoString = some p := by
  have hid : p.id.isId = true := hnum p (mem_of_last hp)
  rw [← hp]
  refine (last_congr fun q hq ↦ ⟨fun h ↦ by rw [h], fun h ↦ ?_⟩).symm
  exact PointId.eq_of_intoString (hnum q hq) hid (Prod.mk.inj h).2

/-- The nodes that acknowledge the point of an id: the one the upsert is sent to, and those behind
the remote shards that count as successes. -/
def Cluster.Acked (cl : Cluster X) (name : CollectionName) (u : NodeUpsert V) (w : Stores)
    (id : PointId) (m : PeerId) : Prop :=
  m = u.peer ∨ ∃ c rs shard, cl.collection u.peer name = some c ∧
    c.replicaHolder.shards.lookup (c.shardOf id) = some rs ∧ shard ∈ rs.remotes ∧
    shard.peerId = m ∧ cl.Succeeds u.peer name c u.env u.points w (c.shardOf id) shard

section

variable {cl : Cluster X} {name : CollectionName} {shards : List ShardId} {peers : List PeerId}
  {u : NodeUpsert V} {w : Stores} {p : Point V} [X.PayloadsRoundTrip]

/-- **The nodes that acknowledge a point have it.** -/
theorem Cluster.Replicated.acked_holds (h : cl.Replicated name shards peers)
    (hu : u.peer ∈ peers) (hhonest : u.env.Honest cl) (hnum : ∀ q ∈ u.points, q.id.isId = true)
    (hok : (cl.clientUpsert name u w).2 = some (.ok true))
    (hp : last Point.id u.points p.id = some p) {m : PeerId} {c : Collection X}
    (hc : cl.Hosts m name c) (hm : cl.Acked name u w p.id m) :
    (cl.clientUpsert name u w).1.Holds X ⟨m, name, c.shardOf p.id⟩ p := by
  obtain ⟨c₀, hc₀, hk₀⟩ := h.hosts u.peer hu
  obtain ⟨heq, hiff⟩ := Cluster.clientUpsert_eq (w := w) hc₀
  have hid : p.id.isId = true := hnum p (mem_of_last hp)
  obtain ⟨rs, hrs, hhome, -, hremote⟩ :=
    upsert_held hc₀ (hiff.mp hok) (lastWritten_of_last hnum hp) (Or.inl hid)
  rw [heq]
  rcases hm with rfl | ⟨c₁, rs₁, shard, hc₁, hrs₁, hshard, hpeer, hsucc⟩
  · obtain rfl : c = c₀ := Option.some.inj (hc.collection.symm.trans hc₀.collection)
    exact hhome
  · obtain rfl : c₁ = c₀ := Option.some.inj (hc₁.symm.trans hc₀.collection)
    obtain rfl : rs₁ = rs := Option.some.inj (hrs₁.symm.trans hrs)
    obtain ⟨m', c', hreach, hcoll, hholds⟩ := hremote hid shard hshard hsucc
    obtain rfl : m' = shard.peerId := hhonest _ shard m' hreach
    rw [hpeer] at hcoll hholds
    obtain rfl : c' = c := Option.some.inj (hcoll.symm.trans hc.collection)
    exact hholds

/-- **At least two nodes acknowledge a point, or all of them.** -/
theorem Cluster.Replicated.exists_acked (h : cl.Replicated name shards peers) (hu : u.peer ∈ peers)
    (hok : (cl.clientUpsert name u w).2 = some (.ok true)) (hnum : ∀ q ∈ u.points, q.id.isId = true)
    (hp : last Point.id u.points p.id = some p) :
    ∃ acked : List PeerId, acked.Nodup ∧ (∀ m ∈ acked, m ∈ peers ∧ cl.Acked name u w p.id m) ∧
      min peers.length 2 ≤ acked.length := by
  obtain ⟨c, hc, hk⟩ := h.hosts u.peer hu
  obtain ⟨-, hiff⟩ := Cluster.clientUpsert_eq (w := w) hc
  have hid : p.id.isId = true := hnum p (mem_of_last hp)
  obtain ⟨rs, hrs, -, hcount, -⟩ :=
    upsert_held hc (hiff.mp hok) (lastWritten_of_last hnum hp) (Or.inl hid)
  obtain ⟨acked, hsub, hacked, hle⟩ := Cluster.exists_acked hcount
  have hperm := hk.remotes _ rs hrs
  have hnodup : (u.peer :: rs.remotes.map RemoteShard.peerId).Nodup :=
    ((hperm.cons u.peer).trans (List.perm_cons_erase hu).symm).nodup_iff.mpr h.nodup
  have hlen : rs.remotes.length + 1 = peers.length := by
    rw [← List.length_map RemoteShard.peerId, hperm.length_eq, List.length_erase_of_mem hu]
    have hpos : 0 < peers.length := List.length_pos_of_mem hu
    omega
  refine ⟨u.peer :: acked.map RemoteShard.peerId,
    hnodup.sublist ((hsub.map RemoteShard.peerId).cons_cons u.peer), ?_, ?_⟩
  · intro m hm
    rcases List.mem_cons.mp hm with rfl | hm
    · exact ⟨hu, Or.inl rfl⟩
    · obtain ⟨shard, hshard, rfl⟩ := List.mem_map.mp hm
      have hrem : shard ∈ rs.remotes := hsub.subset hshard
      refine ⟨List.mem_of_mem_erase (hperm.mem_iff.mp (List.mem_map.mpr ⟨shard, hrem, rfl⟩)), ?_⟩
      exact Or.inr ⟨c, rs, shard, hc.collection, hrs, hrem, rfl, (hacked shard hrem).mp hshard⟩
  · rw [ReplicaSet.numReplicas, hlen] at hle
    rw [List.length_cons, List.length_map]
    exact hle

/-- With at most two nodes, all of them acknowledge. -/
theorem Cluster.Replicated.acked_of_le_two (h : cl.Replicated name shards peers)
    (hu : u.peer ∈ peers) (hok : (cl.clientUpsert name u w).2 = some (.ok true))
    (hnum : ∀ q ∈ u.points, q.id.isId = true) (hp : last Point.id u.points p.id = some p)
    (htwo : peers.length ≤ 2) {m : PeerId} (hm : m ∈ peers) : cl.Acked name u w p.id m := by
  obtain ⟨acked, hnodup, hmem, hle⟩ := h.exists_acked hu hok hnum hp
  rw [Nat.min_eq_left htwo] at hle
  have hsub : acked.Subperm peers :=
    List.subperm_of_subset hnodup fun m hm ↦ (hmem m hm).1
  exact (hmem m ((hsub.perm_of_length_le hle).mem_iff.mpr hm)).2

end

/-- **An acknowledged write is visible where it was acknowledged.**  In a run of upserts, whatever
fails in them, let one that succeeds have `p` as its last point of an id that no later one contains.
At every node that acknowledged `p`, and these are at least two, or all nodes if there are no more
than two, every later read by id that succeeds returns `p` and every list that succeeds has `p` as
its only entry of the id.  At the other nodes, every list that succeeds has an entry of the id,
which is a point that was upserted with it. -/
theorem acknowledged_visible [X.PointsRoundTrip] [X.PayloadsRoundTrip] {cl : Cluster X}
    {name : CollectionName} {shards : List ShardId} {peers : List PeerId}
    (h : cl.Replicated name shards peers) {w : Stores}
    (hw : ∀ m ∈ peers, w.Fresh m name) (before after : List (NodeUpsert V)) {u : NodeUpsert V}
    (hpeers : ∀ v ∈ before ++ u :: after, v.peer ∈ peers)
    (hnum : ∀ v ∈ before ++ u :: after, ∀ q ∈ v.points, q.id.isId = true)
    (hhonest : u.env.Honest cl)
    (hok : (cl.clientUpsert name u (cl.runClients name before w)).2 = some (.ok true))
    {p : Point V} (hp : last Point.id u.points p.id = some p)
    (hlater : ∀ v ∈ after, ∀ q ∈ v.points, q.id ≠ p.id) :
    let acked := cl.Acked name u (cl.runClients name before w) p.id
    let w' := cl.runClients name (before ++ u :: after) w
    (∃ nodes : List PeerId, nodes.Nodup ∧ (∀ m ∈ nodes, m ∈ peers ∧ acked m) ∧
      min peers.length 2 ≤ nodes.length) ∧
    ∀ m ∈ peers, ∀ env : ClusterReadEnv, env.Honest cl →
      (peers.length ≤ 2 ∨ acked m →
        (∀ r, cl.clientRead name m env (some [p.id]) w' = some (.ok r) → r = [p]) ∧
        ∀ r, cl.clientRead name m env none w' = some (.ok r) →
          p ∈ r ∧ ∀ q ∈ r, q.id = p.id → q = p) ∧
      ∀ r, cl.clientRead name m env none w' = some (.ok r) →
        ∃ q ∈ r, q.id = p.id ∧ ∃ v ∈ before ++ u :: after, q ∈ v.points := by
  intro acked w'
  have humem : u ∈ before ++ u :: after := by simp
  have hu := hpeers u humem
  have hid : p.id.isId = true := hnum u humem p (mem_of_last hp)
  have hplaced : cl.AllPlaced name peers w' := fun m hm c hc ↦
    h.runClients_placed hpeers hc ((hw m hm).placed c)
  -- what the nodes that acknowledge have, they keep
  have hkeep : ∀ m c, cl.Hosts m name c → acked m → w'.Holds X ⟨m, name, c.shardOf p.id⟩ p := by
    intro m c hc hm
    have hafter : ∀ v ∈ after, v ∈ before ++ u :: after := fun v hv ↦ by simp [hv]
    have hrun : w' = cl.runClients name after
        (cl.clientUpsert name u (cl.runClients name before w)).1 := by
      rw [← Cluster.runClients_cons, ← Cluster.runClients_append]
    rw [hrun]
    refine h.runClients_inv (fun v hv ↦ hpeers v (hafter v hv))
      (P := fun w ↦ w.Holds X ⟨m, name, c.shardOf p.id⟩ p) (fun v hv _ _ honly ↦ ?_)
      (h.acked_holds hu hhonest (hnum u humem) hok hp hc hm)
    exact honly.holds (hnum v (hafter v hv)) hid (hlater v hv)
  refine ⟨h.exists_acked hu hok (hnum u humem) hp, fun m hm env henv ↦ ⟨fun hacked ↦ ?_, ?_⟩⟩
  · obtain ⟨c, hc, hk⟩ := h.hosts m hm
    have hacked : acked m := hacked.elim
      (fun htwo ↦ h.acked_of_le_two hu hok (hnum u humem) hp htwo hm) fun hm ↦ hm
    have hholds := hkeep m c hc hacked
    exact ⟨fun r hr ↦ Cluster.getPoints_single (hplaced m hm c hc.collection) hholds
        ((Cluster.clientRead_eq_ok hc).mp hr),
      fun r hr ↦ h.list_of_holds hplaced hm hc hk henv ((Cluster.clientRead_eq_ok hc).mp hr) hholds⟩
  · intro r hr
    obtain ⟨c, hc, hk⟩ := h.hosts m hm
    obtain ⟨c₀, hc₀, hk₀⟩ := h.hosts u.peer hu
    have hlist := (Cluster.clientRead_eq_ok hc).mp hr
    have hholds := hkeep u.peer c₀ hc₀ (Or.inl rfl)
    have hshard : c₀.shardOf = c.shardOf := hk₀.shardOf_eq hk
    rw [hshard] at hholds
    obtain ⟨q, hq, hqid⟩ := h.list_exists hplaced hm hc hk henv hlist hu hid hholds
    obtain ⟨m', hm', hqholds⟩ := h.list_holds hplaced hm hc hk henv hlist hq
    exact ⟨q, hq, hqid, h.mem_of_holds hpeers (hw m' hm') hqholds⟩

/-- Two upserts at a node of three, of which the second does not reach the third node. -/
def twoUpserts : List (NodeUpsert Bool) :=
  [⟨101, .without [], [⟨.id 1, false⟩]⟩, ⟨101, .without [103], [⟨.id 1, true⟩]⟩]

/-- Both upserts succeed, and then the third node returns the older payload. -/
theorem acknowledged_not_visible :
    ((Cluster.joined Crates.bool "c" [101, 102, 103]).clientUpsert "c"
      ⟨101, .without [103], [⟨.id 1, true⟩]⟩
      ((Cluster.joined Crates.bool "c" [101, 102, 103]).runClients "c" (twoUpserts.take 1)
        .empty)).2 = some (.ok true) ∧
    (Cluster.joined Crates.bool "c" [101, 102, 103]).clientRead "c" 103 (.without [])
      (some [.id 1])
      ((Cluster.joined Crates.bool "c" [101, 102, 103]).runClients "c" twoUpserts .empty)
        = some (.ok [⟨.id 1, false⟩]) ∧
    (Cluster.joined Crates.bool "c" [101, 102, 103]).clientRead "c" 103 (.without []) none
      ((Cluster.joined Crates.bool "c" [101, 102, 103]).runClients "c" twoUpserts .empty)
        = some (.ok [⟨.id 1, false⟩]) := by
  refine ⟨by decide, by decide, by decide⟩

/-- The same upserts, read where they were acknowledged. -/
theorem acknowledged_visible_joined :
    (Cluster.joined Crates.bool "c" [101, 102, 103]).clientRead "c" 101 (.without [])
      (some [.id 1])
      ((Cluster.joined Crates.bool "c" [101, 102, 103]).runClients "c"
        ([⟨101, .without [], [⟨.id 1, false⟩]⟩] ++ ⟨101, .without [103], [⟨.id 1, true⟩]⟩ :: [])
          .empty) = some (.ok [⟨.id 1, true⟩]) := by
  have hrep : (Cluster.joined Crates.bool "c" [101, 102, 103]).Replicated "c" [0, 1]
      [101, 102, 103] := Cluster.joined_replicated (by decide)
  have hread : ∃ r, (Cluster.joined Crates.bool "c" [101, 102, 103]).clientRead "c" 101
      (.without [])
      (some [.id 1])
      ((Cluster.joined Crates.bool "c" [101, 102, 103]).runClients "c"
        ([⟨101, .without [], [⟨.id 1, false⟩]⟩] ++ ⟨101, .without [103], [⟨.id 1, true⟩]⟩ :: [])
          .empty) = some (.ok r) := ⟨_, by rfl⟩
  obtain ⟨r, hr⟩ := hread
  have hvisible := acknowledged_visible hrep (fun m _ ↦ Stores.empty_fresh m "c")
    [⟨101, .without [], [⟨.id 1, false⟩]⟩] []
    (u := ⟨101, .without [103], [⟨.id 1, true⟩]⟩) (p := ⟨.id 1, true⟩)
    (by decide) (by decide) (ClusterWriteEnv.without_honest [103]) (by decide) (by decide)
    (by decide)
  rw [hr, ((hvisible.2 101 (by decide) (.without []) (ClusterReadEnv.without_honest [])).1
    (Or.inr (Or.inl rfl))).1 r hr]

end Smoldb
