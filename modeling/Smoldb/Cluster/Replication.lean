import Smoldb.Cluster.Placement
import Smoldb.Cluster.LastWriter

/-!
# What an acknowledgement is worth

When an upsert returns `Ok`, each of its shards has counted enough successes.  `upsert_held` says
what a success stands for: the points of the shard are in the trees of the replica that reported it,
unless their ids are strings, which are never sent.

The argument is about writers that agree.  Many calls of one upsert may write under one key of one
tree, a remote may even lead back to the node itself, but whatever they write there is the last
point of the batch with its id; so if one of them has written a number, it stays.  For strings it
may not: a string that looks like a number shares its key with that number, and what was sent on is
the number.  Hence the condition on what else is in the batch.

`acknowledged_replicated` counts the replicas: at least two nodes have the point, or all that there
are.  For that the calls have to lead to the peers that they are for, `ClusterWriteEnv.Honest`,
which the table of addresses does not see to; else two successes may be of one node.  And payloads
have to be read as they were written, else the other nodes have something else.
-/

set_option autoImplicit false

namespace Smoldb

open LastWrite

variable {V : Type} {X : Crates V}

/-- Calls lead to the peer they are meant for. -/
def ClusterWriteEnv.Honest (env : ClusterWriteEnv) (cl : Cluster X) : Prop :=
  ∀ s shard m, cl.Reaches (env.remote s shard.peerId) shard m → m = shard.peerId

/-- The addresses of the table lead to the peers they are listed for. -/
theorem Cluster.joined_reaches_iff {name : CollectionName} {peers : List PeerId} {η : Type}
    {env : CallEnv η} (henv : env.connect = Uri.connect) {shard : RemoteShard} {m : PeerId} :
    (Cluster.joined X name peers).Reaches env shard m ↔
      m = shard.peerId ∧ m ∈ [(101 : PeerId), 102, 103] := by
  have haddr : shard.currentAddress ((Cluster.joined X name peers).channelService shard)
      = shard.currentAddress shard.getChannelService := rfl
  rw [Cluster.Reaches, haddr, henv, RemoteShard.currentAddress, RemoteShard.getChannelService,
    AList.lookup_to_alist]
  by_cases h1 : shard.peerId = 101
  · rw [h1, List.dlookup_cons_eq]
    simp [Uri.connect, eq_comm]
    grind
  by_cases h2 : shard.peerId = 102
  · rw [h2, List.dlookup_cons_ne _ _ (by decide), List.dlookup_cons_eq]
    simp [Uri.connect, eq_comm]
    grind
  by_cases h3 : shard.peerId = 103
  · rw [h3, List.dlookup_cons_ne _ _ (by decide), List.dlookup_cons_ne _ _ (by decide),
      List.dlookup_cons_eq]
    simp [Uri.connect, eq_comm]
    grind
  rw [List.dlookup_cons_ne _ _ h1, List.dlookup_cons_ne _ _ h2, List.dlookup_cons_ne _ _ h3]
  simp
  grind

theorem ClusterWriteEnv.without_honest {name : CollectionName} {peers : List PeerId}
    (down : List PeerId) :
    (ClusterWriteEnv.without down).Honest (Cluster.joined X name peers) :=
  fun _ _ _ h ↦ ((Cluster.joined_reaches_iff rfl).mp h).1

/-- A remote counts as a success for a shard of a batch. -/
def Cluster.Succeeds (cl : Cluster X) (peer : PeerId) (name : CollectionName) (c : Collection X)
    (env : ClusterWriteEnv) (points : List (Point V)) (w : Stores) (s : ShardId)
    (shard : RemoteShard) : Prop :=
  (cl.replicaUpsert peer name env s (.remoteShard shard) (shardPoints c.shardOf points s) w).2
    = .ok ()

section Agreement

variable {cl : Cluster X} {peer : PeerId} {name : CollectionName} {c : Collection X}
  {env : ClusterWriteEnv} {log : ShardId → Replica → List (Point V) → WriteLog V}
  {result : ShardId → Replica → List (Point V) → CollectionResult Unit}

/-- The calls of an upsert. -/
theorem mem_shardCalls {points : List (Point V)} {localOnly : Bool} {s : ShardId}
    {call : Collection.Call V} :
    call ∈ c.shardCalls points localOnly s ↔
      ∃ rs, c.replicaHolder.shards.lookup s = some rs ∧ ∃ r ∈ rs.replicas localOnly,
        call = ⟨s, r, shardPoints c.shardOf points s⟩ := by
  rw [Collection.shardCalls]
  cases c.replicaHolder.shards.lookup s with
  | none => simp
  | some rs => simp [eq_comm]

variable [X.PayloadsRoundTrip]

/-- What the calls of an upsert write under the key of a point: that point. -/
theorem CallLogs.agree (h : CallLogs cl peer name env log result)
    {points : List (Point V)} {localOnly : Bool} {visited : List ShardId}
    (hlocal : ∀ s ∈ visited, ∀ rs, c.replicaHolder.shards.lookup s = some rs →
      result s (.localShard rs.localShard) (shardPoints c.shardOf points s) = .ok ()) {p : Point V}
    (hp : lastWritten c.shardOf points (c.shardOf p.id) p.id.intoString = some p)
    (hlook : p.id.isId = true ∨ ∀ q ∈ points, q.id.isId = true →
      q.id.intoString ≠ p.id.intoString)
    {pl : Place} (hpl : pl = ⟨peer, name, c.shardOf p.id⟩ ∨ pl.peer ≠ peer)
    {call : Collection.Call V} (hcall : call ∈ visited.flatMap (c.shardCalls points localOnly))
    {q : Point V} (hq : last Segment.keyOf (log call.shard call.replica call.points pl)
      (Segment.keyOf p) = some q) : q = p := by
  obtain ⟨s, hs, hcall⟩ := List.mem_flatMap.mp hcall
  obtain ⟨rs, hrs, r, hr, rfl⟩ := mem_shardCalls.mp hcall
  have hkey : Segment.keyOf q = Segment.keyOf p := key_of_last hq
  rcases h.mem_log (mem_of_last hq) with ⟨shard, rfl, rfl, -⟩ | ⟨shard, c', rfl, -, -, -, hnum⟩
  · rcases hpl with hpl | hpl
    · -- the call on the node itself writes the points of the shard, and `p` is the last of its key
      obtain rfl : s = c.shardOf p.id := congrArg Place.shard hpl
      have hshard : shard = rs.localShard := by
        cases localOnly <;> simpa [ReplicaSet.replicas] using hr
      have hfull := h.local_ok _ shard _ (by rw [hshard]; exact hlocal _ hs rs hrs)
      rw [hfull, WriteLog.single_self, last_shardPoints] at hq
      exact Option.some.inj (hq.symm.trans hp)
    · exact absurd rfl hpl
  · -- a call on a remote writes numbers only, and of each the last point of the batch
    have hlast : last Point.id points p.id = some p := last_of_lastWritten hp
    rw [resent_eq] at hnum
    obtain ⟨-, hid, hsent⟩ := mem_shardPoints_numeric.mp hnum
    obtain ⟨-, hqlast⟩ := mem_shardPoints.mp hsent
    have hpid : p.id.isId = true := by
      rcases hlook with hid' | hnone
      · exact hid'
      · exact absurd hkey (hnone q (mem_of_last hqlast) hid)
    have hids : q.id = p.id := PointId.eq_of_intoString hid hpid hkey
    rw [hids, hlast, Option.some_inj] at hqlast
    exact hqlast.symm

omit [X.PayloadsRoundTrip] in
theorem Stores.holds_putAll {log : WriteLog V} {pl : Place} {p : Point V}
    (h : last Segment.keyOf (log pl) (Segment.keyOf p) = some p) (w : Stores) :
    (Stores.putAll X log w).Holds X pl p := by
  rw [Stores.Holds, Stores.putAll, LocalShard.putAll_zero, Segment.getElem?_putAll, h]
  rfl

/-- The calls of an upsert leave a point wherever one of them writes it. -/
theorem CallLogs.holds_of_mem (h : CallLogs cl peer name env log result)
    {points : List (Point V)} {localOnly : Bool} {visited : List ShardId}
    (hlocal : ∀ s ∈ visited, ∀ rs, c.replicaHolder.shards.lookup s = some rs →
      result s (.localShard rs.localShard) (shardPoints c.shardOf points s) = .ok ()) {p : Point V}
    (hp : lastWritten c.shardOf points (c.shardOf p.id) p.id.intoString = some p)
    (hlook : p.id.isId = true ∨ ∀ q ∈ points, q.id.isId = true →
      q.id.intoString ≠ p.id.intoString)
    {pl : Place} (hpl : pl = ⟨peer, name, c.shardOf p.id⟩ ∨ pl.peer ≠ peer)
    {call : Collection.Call V} (hcall : call ∈ visited.flatMap (c.shardCalls points localOnly))
    (hmem : p ∈ log call.shard call.replica call.points pl) (w : Stores) :
    (Collection.runCalls (cl.replicaUpsert peer name env)
      (visited.flatMap (c.shardCalls points localOnly)) w).Holds X pl p := by
  obtain ⟨q, hq⟩ := exists_last_of_mem Segment.keyOf hmem
  obtain rfl : q = p := h.agree hlocal hp hlook hpl hcall hq
  rw [h.writes.runCalls]
  exact Stores.holds_putAll
    (last_flatMap (fun call hcall q' hq' ↦ h.agree hlocal hp hlook hpl hcall hq') hcall hq) w

/-- A remote that counts as a success has led to a node, where a number it was sent is written. -/
theorem CallLogs.mem_remote (h : CallLogs cl peer name env log result) (hc : cl.Hosts peer name c)
    {points : List (Point V)} {p : Point V} (hid : p.id.isId = true)
    (hp : p ∈ shardPoints c.shardOf points (c.shardOf p.id)) {rs : ReplicaSet}
    (hrs : c.replicaHolder.shards.lookup (c.shardOf p.id) = some rs) {shard : RemoteShard}
    (hshard : shard ∈ rs.remotes)
    (hok : result (c.shardOf p.id) (.remoteShard shard)
      (shardPoints c.shardOf points (c.shardOf p.id)) = .ok ()) :
    ∃ m c', cl.Reaches (env.remote (c.shardOf p.id) shard.peerId) shard m ∧
      cl.collection m name = some c' ∧
      (⟨m, name, c'.shardOf p.id⟩ = (⟨peer, name, c.shardOf p.id⟩ : Place) ∨ m ≠ peer) ∧
      p ∈ log (c.shardOf p.id) (.remoteShard shard)
        (shardPoints c.shardOf points (c.shardOf p.id)) ⟨m, name, c'.shardOf p.id⟩ := by
  have hname : shard.collection = name := by
    rw [(hc.wellFormed.remote _ rs hrs shard hshard).2, hc.id]
  obtain ⟨-, e, he⟩ | ⟨m, c', hreach, hcoll, -, hfull⟩ := h.remote (c.shardOf p.id) shard
    (shardPoints c.shardOf points (c.shardOf p.id))
  · exact absurd (hok.symm.trans he) (by simp)
  rw [hname] at hcoll
  refine ⟨m, c', hreach, hcoll, ?_, ?_⟩
  · by_cases hm : m = peer
    · subst hm
      obtain rfl : c' = c := Option.some.inj (hcoll.symm.trans hc.collection)
      exact Or.inl rfl
    · exact Or.inr hm
  · rw [hfull hok, received, hname, WriteLog.node_self, resent_eq]
    exact mem_shardPoints_numeric.mpr ⟨rfl, hid, hp⟩

end Agreement

/-- **What an acknowledged upsert has stored.**  A point of the batch that no other one overwrites
is in the tree of its shard at home, and if its id is a number it is also in the trees of every node
that a remote counted as a success has led to. -/
theorem upsert_held [X.PayloadsRoundTrip] {cl : Cluster X} {peer : PeerId}
    {name : CollectionName} {c : Collection X} (hc : cl.Hosts peer name c) {env : ClusterWriteEnv} {points : List (Point V)} {w : Stores}
    (hok : (cl.upsertPoints peer name c env points false w).2 = some (.ok ())) {p : Point V}
    (hp : lastWritten c.shardOf points (c.shardOf p.id) p.id.intoString = some p)
    (hlook : p.id.isId = true ∨ ∀ q ∈ points, q.id.isId = true →
      q.id.intoString ≠ p.id.intoString) :
    ∃ rs, c.replicaHolder.shards.lookup (c.shardOf p.id) = some rs ∧
      (cl.upsertPoints peer name c env points false w).1.Holds X ⟨peer, name, c.shardOf p.id⟩ p ∧
      (min rs.numReplicas 2 ≤ (rs.replicas false).countP fun r ↦
        (cl.replicaUpsert peer name env (c.shardOf p.id) r
          (shardPoints c.shardOf points (c.shardOf p.id)) w).2.isOk) ∧
      (p.id.isId = true → ∀ shard ∈ rs.remotes,
        cl.Succeeds peer name c env points w (c.shardOf p.id) shard →
        ∃ m c', cl.Reaches (env.remote (c.shardOf p.id) shard.peerId) shard m ∧
          cl.collection m name = some c' ∧
          (cl.upsertPoints peer name c env points false w).1.Holds X
            ⟨m, name, c'.shardOf p.id⟩ p) := by
  have hpmem : p ∈ points := mem_of_last hp
  obtain ⟨s₀, hs₀⟩ := Collection.exists_shard_of_ok (List.ne_nil_of_mem hpmem) hok
  obtain ⟨log, result, hL⟩ := exists_callLogs cl peer name env
  obtain ⟨hstores, hall⟩ := Cluster.upsertPoints_of_ok hs₀ hok
  have hvisited : c.shardOf p.id ∈ c.shardOrder env.order points :=
    Collection.mem_shardOrder.mpr ⟨p, hpmem, rfl⟩
  have hsent : p ∈ shardPoints c.shardOf points (c.shardOf p.id) :=
    mem_shardPoints.mpr ⟨rfl, last_of_lastWritten hp⟩
  -- the local write of every shard has succeeded
  have hlocal : ∀ s ∈ c.shardOrder env.order points, ∀ rs,
      c.replicaHolder.shards.lookup s = some rs →
      result s (.localShard rs.localShard) (shardPoints c.shardOf points s) = .ok () := by
    intro s hs rs hrs
    obtain ⟨rs', hrs', hloc, -⟩ := hall s hs
    obtain rfl : rs' = rs := Option.some.inj (hrs'.symm.trans hrs)
    rwa [hL.writes] at hloc
  obtain ⟨rs, hrs, -, hcount⟩ := hall _ hvisited
  have hcall : ∀ r ∈ rs.replicas false,
      (⟨c.shardOf p.id, r, shardPoints c.shardOf points (c.shardOf p.id)⟩ : Collection.Call V)
        ∈ (c.shardOrder env.order points).flatMap (c.shardCalls points false) := fun r hr ↦
    List.mem_flatMap.mpr ⟨_, hvisited, mem_shardCalls.mpr ⟨rs, hrs, r, hr, rfl⟩⟩
  rw [hstores]
  refine ⟨rs, hrs, ?_, hcount.resolve_left Bool.false_ne_true, fun hid shard hshard hsucc ↦ ?_⟩
  · refine hL.holds_of_mem hlocal hp hlook (Or.inl rfl)
      (hcall (.localShard rs.localShard) List.mem_cons_self) ?_ w
    rw [hL.local_ok _ _ _ (hlocal _ hvisited rs hrs), WriteLog.single_self]
    exact hsent
  · rw [Cluster.Succeeds, hL.writes] at hsucc
    obtain ⟨m, c', hreach, hcoll, hpl, hmem⟩ := hL.mem_remote hc hid hsent hrs hshard hsucc
    refine ⟨m, c', hreach, hcoll,
      hL.holds_of_mem hlocal hp hlook hpl (hcall (.remoteShard shard) ?_) hmem w⟩
    exact List.mem_cons_of_mem _ (List.mem_map.mpr ⟨shard, hshard, rfl⟩)

/-- The remotes that count as successes for a shard, given how many replicas do. -/
theorem Cluster.exists_acked {cl : Cluster X} {peer : PeerId} {name : CollectionName}
    {c : Collection X} {env : ClusterWriteEnv} {points : List (Point V)} {w : Stores} {s : ShardId}
    {rs : ReplicaSet} (hcount : min rs.numReplicas 2 ≤ (rs.replicas false).countP fun r ↦
      (cl.replicaUpsert peer name env s r (shardPoints c.shardOf points s) w).2.isOk) :
    ∃ acked : List RemoteShard, acked.Sublist rs.remotes ∧
      (∀ shard : RemoteShard, shard ∈ rs.remotes →
        (shard ∈ acked ↔ cl.Succeeds peer name c env points w s shard)) ∧
      min rs.numReplicas defaultConsistencyFactor ≤ acked.length + 1 := by
  refine ⟨rs.remotes.filter fun shard ↦ (cl.replicaUpsert peer name env s (.remoteShard shard)
    (shardPoints c.shardOf points s) w).2.isOk, List.filter_sublist, fun shard hshard ↦ ?_, ?_⟩
  · rw [List.mem_filter, Cluster.Succeeds]
    cases (cl.replicaUpsert peer name env s (.remoteShard shard)
        (shardPoints c.shardOf points s) w).2 with
    | ok u => exact ⟨fun _ ↦ rfl, fun _ ↦ ⟨hshard, rfl⟩⟩
    | error e => exact ⟨fun h ↦ (nomatch h.2), fun h ↦ (nomatch h)⟩
  · rw [ReplicaSet.replicas, List.countP_cons, if_neg Bool.false_ne_true, List.countP_map,
      List.countP_eq_length_filter] at hcount
    rw [defaultConsistencyFactor]
    refine hcount.trans (Nat.add_le_add (le_of_eq rfl) ?_)
    split <;> omega

/-- **An acknowledged write is replicated, as far as it is sent**, if calls reach the peers they are
meant for and payloads are read as they were written.  A point that no other point of the batch
overwrites is in the shard of the node itself.  If its id is a number it is also in the store of
every remote peer counted as a success, and with the node itself these are at least
`min(num_replicas, DEFAULT_CONSISTENCY_FACTOR)` replicas. -/
theorem acknowledged_replicated [X.PayloadsRoundTrip] {cl : Cluster X} {peer : PeerId}
    {name : CollectionName} {c : Collection X} (hc : cl.Hosts peer name c)
    {env : ClusterWriteEnv} (henv : env.Honest cl) {points : List (Point V)} {w : Stores}
    (hok : (cl.upsertPoints peer name c env points false w).2 = some (.ok ())) {p : Point V}
    (hp : lastWritten c.shardOf points (c.shardOf p.id) p.id.intoString = some p)
    (hlook : p.id.isId = true ∨ ∀ q ∈ points, q.id.isId = true →
      q.id.intoString ≠ p.id.intoString) :
    (cl.upsertPoints peer name c env points false w).1.Holds X ⟨peer, name, c.shardOf p.id⟩ p ∧
    (p.id.isId = true → ∃ (rs : ReplicaSet) (acked : List RemoteShard),
      c.replicaHolder.shards.lookup (c.shardOf p.id) = some rs ∧
      acked.Sublist rs.remotes ∧
      (∀ shard : RemoteShard, shard ∈ rs.remotes →
        (shard ∈ acked ↔ cl.Succeeds peer name c env points w (c.shardOf p.id) shard)) ∧
      min rs.numReplicas defaultConsistencyFactor ≤ acked.length + 1 ∧
      ∀ shard : RemoteShard, shard ∈ acked → ∃ c', cl.collection shard.peerId name = some c' ∧
        (cl.upsertPoints peer name c env points false w).1.Holds X
          ⟨shard.peerId, name, c'.shardOf p.id⟩ p ∧
        ((∀ s, s ∈ c'.replicaHolder.shards ↔ s ∈ c.replicaHolder.shards) →
          c'.shardOf p.id = c.shardOf p.id)) := by
  obtain ⟨rs, hrs, hhome, hcount, hremote⟩ := upsert_held hc hok hp hlook
  obtain ⟨acked, hsub, hacked, hle⟩ := Cluster.exists_acked hcount
  refine ⟨hhome, fun hid ↦ ⟨rs, acked, hrs, hsub, hacked, hle, fun shard hshard ↦ ?_⟩⟩
  have hmem : shard ∈ rs.remotes := hsub.subset hshard
  obtain ⟨m, c', hreach, hcoll, hholds⟩ := hremote hid shard hmem ((hacked shard hmem).mp hshard)
  obtain rfl : m = shard.peerId := henv _ shard m hreach
  refine ⟨c', hcoll, hholds, fun hkeys ↦ ?_⟩
  exact congrFun (ReplicaHolder.shardOf_congr hkeys) p.id

/-- A string is acknowledged by a remote that was never sent it. -/
theorem acknowledged_string_not_replicated :
    ((Cluster.joined Crates.bool "c" [101, 102]).upsertPoints 101 "c" (.joined "c" [101, 102] 101)
      (.without []) [⟨.uuid "u", true⟩] false .empty).2 = some (.ok ()) ∧
    ((Collection.joined (X := Crates.bool) "c" [101, 102] 101).replicaHolder.shards.lookup
      ((Collection.joined (X := Crates.bool) "c" [101, 102] 101).shardOf (.uuid "u"))).map
        ReplicaSet.numReplicas = some 2 ∧
    ∀ s ∈ [(0 : ShardId), 1],
      ¬ ((Cluster.joined Crates.bool "c" [101, 102]).upsertPoints 101 "c"
        (.joined "c" [101, 102] 101) (.without []) [⟨.uuid "u", true⟩] false .empty).1.Holds
          Crates.bool ⟨102, "c", s⟩ ⟨.uuid "u", true⟩ := by
  refine ⟨by decide, by decide, fun s hs hholds ↦ ?_⟩
  -- nothing at all is stored at the remote
  have hnone : ((Cluster.joined Crates.bool "c" [101, 102]).upsertPoints 101 "c"
      (.joined "c" [101, 102] 101) (.without []) [⟨.uuid "u", true⟩] false .empty).1
        ⟨102, "c", s⟩ 0 = ∅ := by
    rcases List.mem_pair.mp hs with rfl | rfl <;> rfl
  rw [Stores.Holds, hnone] at hholds
  exact absurd hholds (by simp)

/-- A number and a string, sent to two remotes of which one cannot be reached. -/
theorem acknowledged_replicated_joined :
    ((Cluster.joined Crates.bool "c" [101, 102, 103]).upsertPoints 101 "c"
      (.joined "c" [101, 102, 103] 101) (.without [103]) [⟨.id 1, true⟩, ⟨.uuid "u", true⟩] false
        .empty).1.Holds Crates.bool ⟨101, "c", 0⟩ ⟨.id 1, true⟩ := by
  have hhosts : (Cluster.joined Crates.bool "c" [101, 102, 103]).Hosts 101 "c"
      (.joined "c" [101, 102, 103] 101) := Cluster.joined_hosts (by decide)
  exact (acknowledged_replicated hhosts (ClusterWriteEnv.without_honest [103]) (by decide)
    (p := ⟨.id 1, true⟩) (by decide) (Or.inl rfl)).1

end Smoldb
