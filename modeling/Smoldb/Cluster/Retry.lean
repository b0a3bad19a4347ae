import Smoldb.Cluster.Sequential

/-!
# Retries

An upsert that failed may have stored any part of its batch, at any of the replicas, and it may have
visited the shards in another order than the next one will.  Sending the same batch again repairs
all of it.

* What the first attempt wrote at a place is a part of what the second one writes there
  (`CallLogs.subset`), since both have the same calls to the same places, and a call that succeeds
  writes everything that one which fails can write.
* What the second one leaves under a key does not depend on the order of the shards
  (`last_callsLog_perm`).  At the node itself only one shard writes to a place; elsewhere only
  points with numbers for ids arrive, and of each id only the last one of the batch.

So after both, a key that either of them writes has what the second one writes, and the others have
what they had: the trees are those of one upsert in which nothing fails, at every place.  The two
upserts have to find the same network (`ClusterWriteEnv.SameNetwork`), in that a call which leads
somewhere leads there both times; whether it gets there is another matter.
-/

set_option autoImplicit false

namespace Smoldb

open LastWrite

variable {V : Type} {X : Crates V}

/-- The calls of two upserts lead to the same nodes, as far as they lead anywhere. -/
def ClusterWriteEnv.SameNetwork (env env' : ClusterWriteEnv) (cl : Cluster X) : Prop :=
  ∀ s shard m m', cl.Reaches (env.remote s shard.peerId) shard m →
    cl.Reaches (env'.remote s shard.peerId) shard m' → m = m'

/-- No insert, no flush, no call on a remote shard and no shard fails in the upsert of a batch. -/
def Cluster.FailureFree (cl : Cluster X) (peer : PeerId) (name : CollectionName)
    (c : Collection X) (env : ClusterWriteEnv) (points : List (Point V)) : Prop :=
  ∀ p ∈ points, ∃ rs, c.replicaHolder.shards.lookup (c.shardOf p.id) = some rs ∧
    ∀ r ∈ rs.replicas false, ∀ w, (cl.replicaUpsert peer name env (c.shardOf p.id) r
      (shardPoints c.shardOf points (c.shardOf p.id)) w).2 = .ok ()

theorem ClusterWriteEnv.Honest.sameNetwork {env env' : ClusterWriteEnv} {cl : Cluster X}
    (h : env.Honest cl) (h' : env'.Honest cl) : env.SameNetwork env' cl := by
  intro s shard m m' hm hm'
  rw [h s shard m hm, h' s shard m' hm']

section Logs

variable {cl : Cluster X} {peer : PeerId} {name : CollectionName} {c : Collection X}
  {env env' : ClusterWriteEnv} {log log' : ShardId → Replica → List (Point V) → WriteLog V}
  {result result' : ShardId → Replica → List (Point V) → CollectionResult Unit}
  {points : List (Point V)}

/-- **Whatever fails**, an upsert makes the calls of some of the shards of the batch, and those of
all of them if nothing fails. -/
theorem CallLogs.upsertPoints (h : CallLogs cl peer name env log result) {s₀ : ShardId}
    (hs₀ : s₀ ∈ c.replicaHolder.shards) (points : List (Point V)) :
    ∃ visited rest r, c.shardOrder env.order points = visited ++ rest ∧
      (∀ w, cl.upsertPoints peer name c env points false w
        = (Stores.putAll X (callsLog log (visited.flatMap (c.shardCalls points false))) w,
          some r)) ∧
      (cl.FailureFree peer name c env points → rest = [] ∧ r = .ok ()) := by
  obtain ⟨visited, rest, r, horder, heq, hcase⟩ := Collection.upsertPoints_spec h.writes.oblivious
    Stores.empty hs₀ env.order points false
  refine ⟨visited, rest, r, horder, fun w ↦ ?_, fun hfree ↦ ?_⟩
  · rw [Cluster.upsertPoints, heq, h.writes.runCalls]
  rcases hcase with ⟨rfl, rfl, -⟩ | ⟨-, acked, s, rfl, -, hs⟩
  · exact ⟨rfl, rfl⟩
  · have hmem : s ∈ c.shardOrder env.order points := by rw [horder]; simp
    obtain ⟨p, hp, rfl⟩ := Collection.mem_shardOrder.mp hmem
    obtain ⟨rs, hrs, hok⟩ := hfree p hp
    refine absurd (Cluster.acknowledges_iff.mpr ⟨rs, hrs, ?_, Or.inr ?_⟩) hs
    · exact hok _ List.mem_cons_self _
    · have hall : (rs.replicas false).countP (fun r ↦
          (cl.replicaUpsert peer name env (c.shardOf p.id)
          r (shardPoints c.shardOf points (c.shardOf p.id)) Stores.empty).2.isOk)
            = (rs.replicas false).length := by
        rw [List.countP_eq_length]
        intro r hr
        rw [hok r hr]
        rfl
      rw [hall, ReplicaSet.replicas, List.length_cons, ReplicaSet.numReplicas]
      simp

/-- A call that fails stores a part of what it stores when it succeeds. -/
theorem CallLogs.log_subset (h : CallLogs cl peer name env log result)
    (h' : CallLogs cl peer name env' log' result') (hnet : env.SameNetwork env' cl) {s : ShardId}
    {r : Replica} {qs : List (Point V)} (hok : result' s r qs = .ok ()) (pl : Place) :
    log s r qs pl ⊆ log' s r qs pl := by
  cases r with
  | localShard shard =>
    rw [h'.local_ok s shard qs hok]
    exact (h.local_prefix s shard qs pl).subset
  | remoteShard shard =>
    rcases h.remote s shard qs with ⟨hnil, -⟩ | ⟨m, c, hreach, hc, hpre, -⟩
    · rw [hnil]
      exact List.nil_subset _
    rcases h'.remote s shard qs with ⟨-, e, he⟩ | ⟨m', c', hreach', hc', -, hfull⟩
    · rw [he] at hok
      exact nomatch hok
    obtain rfl : m = m' := hnet s shard m m' hreach hreach'
    obtain rfl : c = c' := Option.some.inj (hc.symm.trans hc')
    rw [hfull hok]
    exact (hpre pl).subset

/-- A call that succeeds stores the same whenever it succeeds. -/
theorem CallLogs.log_eq (h : CallLogs cl peer name env log result)
    (h' : CallLogs cl peer name env' log' result') (hnet : env.SameNetwork env' cl) {s : ShardId}
    {r : Replica} {qs : List (Point V)} (hok : result s r qs = .ok ())
    (hok' : result' s r qs = .ok ()) : log s r qs = log' s r qs := by
  cases r with
  | localShard shard => rw [h.local_ok s shard qs hok, h'.local_ok s shard qs hok']
  | remoteShard shard =>
    rcases h.remote s shard qs with ⟨-, e, he⟩ | ⟨m, c, hreach, hc, -, hfull⟩
    · rw [he] at hok
      exact nomatch hok
    rcases h'.remote s shard qs with ⟨-, e, he⟩ | ⟨m', c', hreach', hc', -, hfull'⟩
    · rw [he] at hok'
      exact nomatch hok'
    obtain rfl : m = m' := hnet s shard m m' hreach hreach'
    obtain rfl : c = c' := Option.some.inj (hc.symm.trans hc')
    rw [hfull hok, hfull' hok']

/-- In an upsert in which nothing fails, every call succeeds. -/
theorem CallLogs.result_eq_ok (h : CallLogs cl peer name env log result)
    (hfree : cl.FailureFree peer name c env points) {s : ShardId}
    (hs : ∃ p ∈ points, c.shardOf p.id = s) {call : Collection.Call V}
    (hcall : call ∈ c.shardCalls points false s) :
    result call.shard call.replica call.points = .ok () := by
  obtain ⟨p, hp, rfl⟩ := hs
  obtain ⟨rs, hrs, r, hr, rfl⟩ := mem_shardCalls.mp hcall
  obtain ⟨rs', hrs', hok⟩ := hfree p hp
  obtain rfl : rs' = rs := Option.some.inj (hrs'.symm.trans hrs)
  have hresult := hok r hr Stores.empty
  rwa [h.writes] at hresult

/-- What the calls of a shard store somewhere: last points of the batch that belong to the shard,
and in other places than its own only numbers, as they are read from a message, in the shard that
their ring gives them. -/
theorem CallLogs.mem_callsLog (h : CallLogs cl peer name env log result) {s : ShardId} {pl : Place}
    {p : Point V} (hp : p ∈ callsLog log (c.shardCalls points false s) pl) :
    ∃ q, c.shardOf q.id = s ∧ last Point.id points q.id = some q ∧
      (pl = ⟨peer, name, s⟩ ∨ q.id.isId = true ∧ p = X.resend q ∧
        ∃ c', cl.collection pl.peer pl.collection = some c' ∧ c'.shardOf q.id = pl.shard) := by
  rw [callsLog, List.mem_flatMap] at hp
  obtain ⟨call, hcall, hp⟩ := hp
  obtain ⟨rs, hrs, r, hr, rfl⟩ := mem_shardCalls.mp hcall
  rcases h.mem_log hp with ⟨shard, rfl, rfl, hmem⟩ | ⟨shard, c', rfl, -, -, hc', hmem⟩
  · obtain ⟨hs, hlast⟩ := mem_shardPoints.mp hmem
    exact ⟨p, hs, hlast, Or.inl rfl⟩
  · obtain ⟨q, hq, hs', hid, rfl⟩ := mem_shardPoints_resent.mp hmem
    obtain ⟨hs, hlast⟩ := mem_shardPoints.mp hq
    exact ⟨q, hs, hlast, Or.inr ⟨hid, rfl, c', hc', hs'⟩⟩

/-- **The order of the shards makes no difference** to what is stored under a key. -/
theorem CallLogs.last_callsLog_perm (h : CallLogs cl peer name env log result)
    (hc : cl.collection peer name = some c) {l l' : List ShardId} (hp : l.Perm l') (pl : Place)
    (k : String) :
    last Segment.keyOf (callsLog log (l.flatMap (c.shardCalls points false)) pl) k
      = last Segment.keyOf (callsLog log (l'.flatMap (c.shardCalls points false)) pl) k := by
  have hflat : ∀ l : List ShardId, callsLog log (l.flatMap (c.shardCalls points false)) pl
      = l.flatMap fun s ↦ callsLog log (c.shardCalls points false s) pl :=
        fun l ↦ List.flatMap_assoc
  rw [hflat, hflat]
  refine last_flatMap_perm hp fun s _ t _ a b ha hb ↦ ?_
  by_cases hpl : pl.peer = peer ∧ pl.collection = name
  · -- at home the points of one place are those of one shard
    have hhome : ∀ s p, p ∈ callsLog log (c.shardCalls points false s) pl → s = pl.shard := by
      intro s p hp
      obtain ⟨q, hs, -, rfl | ⟨-, -, c', hc', hs'⟩⟩ := h.mem_callsLog hp
      · rfl
      · rw [hpl.1, hpl.2] at hc'
        obtain rfl : c = c' := Option.some.inj (hc.symm.trans hc')
        rw [← hs, hs']
    rw [hhome s a (mem_of_last ha), ← hhome t b (mem_of_last hb)] at ha
    exact Option.some.inj (ha.symm.trans hb)
  · -- elsewhere the id is a number, and the key tells which
    have haway : ∀ s p, p ∈ callsLog log (c.shardCalls points false s) pl →
        ∃ q, last Point.id points q.id = some q ∧ q.id.isId = true ∧ p = X.resend q := by
      intro s p hp
      obtain ⟨q, -, hlast, rfl | ⟨hid, hresend, -⟩⟩ := h.mem_callsLog hp
      · exact absurd ⟨rfl, rfl⟩ hpl
      · exact ⟨q, hlast, hid, hresend⟩
    obtain ⟨q, hlast, hid, rfl⟩ := haway s a (mem_of_last ha)
    obtain ⟨q', hlast', hid', rfl⟩ := haway t b (mem_of_last hb)
    have hkey : (X.resend q).id.intoString = (X.resend q').id.intoString :=
      (key_of_last ha).trans (key_of_last hb).symm
    rw [X.resend_id, X.resend_id] at hkey
    rw [PointId.eq_of_intoString hid hid' hkey] at hlast
    rw [Option.some.inj (hlast.symm.trans hlast')]

end Logs

/-- Trees that are written to end up alike if every key ends up alike. -/
theorem Stores.putAll_congr {log log' : WriteLog V}
    (h : ∀ pl k, last Segment.keyOf (log pl) k = last Segment.keyOf (log' pl) k) (w : Stores) :
    Stores.putAll X log w = Stores.putAll X log' w := by
  funext pl g
  by_cases hg : g = 0
  · subst hg
    refine Std.ExtTreeMap.ext_getElem? fun k ↦ ?_
    simp only [Stores.putAll, LocalShard.putAll_zero, Segment.getElem?_putAll, h]
  · rw [Stores.putAll, Stores.putAll, LocalShard.putAll_of_ne X hg, LocalShard.putAll_of_ne X hg]

/-- **Retrying is safe.**  Whatever fails in a first upsert of a batch, in whatever order it visits
the shards, and however much of it is stored at however many replicas: once the same batch is sent
again and nothing fails, every tree of every node is as one upsert in which nothing fails would have
left it. -/
theorem retry_safe {cl : Cluster X} {peer : PeerId} {name : CollectionName} {c : Collection X}
    (hc : cl.collection peer name = some c) (points : List (Point V))
    {first retry once : ClusterWriteEnv} (hretry : cl.FailureFree peer name c retry points)
    (honce : cl.FailureFree peer name c once points) (hfirst : first.SameNetwork retry cl)
    (hnet : retry.SameNetwork once cl) (w : Stores) :
    (cl.upsertPoints peer name c retry points false
        (cl.upsertPoints peer name c first points false w).1).1
      = (cl.upsertPoints peer name c once points false w).1 ∧
    (cl.upsertPoints peer name c retry points false
        (cl.upsertPoints peer name c first points false w).1).2 = some (.ok ()) := by
  cases points with
  | nil =>
    simp only [Cluster.upsertPoints, Collection.upsertPoints_nil, and_self]
  | cons p ps =>
    generalize hpoints : p :: ps = points at *
    have hp : p ∈ points := by rw [← hpoints]; exact List.mem_cons_self
    obtain ⟨rs, hrs, -⟩ := hretry p hp
    have hs₀ : c.shardOf p.id ∈ c.replicaHolder.shards := AList.lookup_isSome.mp (by rw [hrs]; rfl)
    obtain ⟨log₁, result₁, h₁⟩ := exists_callLogs cl peer name first
    obtain ⟨log₂, result₂, h₂⟩ := exists_callLogs cl peer name retry
    obtain ⟨log₃, result₃, h₃⟩ := exists_callLogs cl peer name once
    obtain ⟨visited, rest, r₁, horder₁, hup₁, -⟩ := h₁.upsertPoints hs₀ points
    obtain ⟨l₂, rest₂, r₂, horder₂, hup₂, hall₂⟩ := h₂.upsertPoints hs₀ points
    obtain ⟨l₃, rest₃, r₃, horder₃, hup₃, hall₃⟩ := h₃.upsertPoints hs₀ points
    obtain ⟨rfl, rfl⟩ := hall₂ hretry
    obtain ⟨rfl, rfl⟩ := hall₃ honce
    rw [List.append_nil] at horder₂ horder₃
    have hmem₂ : ∀ s, s ∈ l₂ ↔ ∃ q ∈ points, c.shardOf q.id = s := fun s ↦ by
      rw [← horder₂, Collection.mem_shardOrder]
    have hmem₃ : ∀ s, s ∈ l₃ ↔ ∃ q ∈ points, c.shardOf q.id = s := fun s ↦ by
      rw [← horder₃, Collection.mem_shardOrder]
    have hperm : l₂.Perm l₃ := by
      rw [List.perm_ext_iff_of_nodup (horder₂ ▸ Collection.shardOrder_nodup _ _)
        (horder₃ ▸ Collection.shardOrder_nodup _ _)]
      exact fun s ↦ (hmem₂ s).trans (hmem₃ s).symm
    -- what the first attempt stored is stored again
    have hsubset : ∀ pl, callsLog log₁ (visited.flatMap (c.shardCalls points false)) pl
        ⊆ callsLog log₂ (l₂.flatMap (c.shardCalls points false)) pl := by
      intro pl q hq
      obtain ⟨call, hcall, hq⟩ := List.mem_flatMap.mp hq
      obtain ⟨s, hs, hcall⟩ := List.mem_flatMap.mp hcall
      have hbatch : ∃ q ∈ points, c.shardOf q.id = s :=
        Collection.mem_shardOrder.mp (by rw [horder₁]; exact List.mem_append_left _ hs)
      have hok := h₂.result_eq_ok hretry hbatch hcall
      refine List.mem_flatMap.mpr ⟨call, List.mem_flatMap.mpr ⟨s, (hmem₂ s).mpr hbatch, hcall⟩, ?_⟩
      exact h₁.log_subset h₂ hfirst hok pl hq
    -- the retry stores what the one upsert stores
    have hsame : ∀ pl, callsLog log₃ (l₂.flatMap (c.shardCalls points false)) pl
        = callsLog log₂ (l₂.flatMap (c.shardCalls points false)) pl := by
      intro pl
      refine List.flatMap_congr fun call hcall ↦ ?_
      obtain ⟨s, hs, hcall⟩ := List.mem_flatMap.mp hcall
      have hok₂ := h₂.result_eq_ok hretry ((hmem₂ s).mp hs) hcall
      have hok₃ := h₃.result_eq_ok honce ((hmem₂ s).mp hs) hcall
      rw [h₂.log_eq h₃ hnet hok₂ hok₃]
    rw [hup₁, hup₂, hup₃]
    refine ⟨?_, rfl⟩
    rw [Stores.putAll_putAll]
    refine Stores.putAll_congr (fun pl k ↦ ?_) w
    rw [last_append_of_subset (hsubset pl), ← hsame, h₃.last_callsLog_perm hc hperm]

/-- Between nodes that replicate a collection, an upsert is free of failures if the environment is.
-/
theorem Cluster.Replicated.failureFree {cl : Cluster X} {name : CollectionName}
    {shards : List ShardId} {peers : List PeerId} (h : cl.Replicated name shards peers) {m : PeerId}
    (hm : m ∈ peers) {c : Collection X} (hc : cl.Hosts m name c) {env : ClusterWriteEnv}
    (henv : env.Clean cl peers) (points : List (Point V)) :
    cl.FailureFree m name c env points := by
  obtain ⟨c', hc', hk⟩ := h.hosts m hm
  obtain rfl : c' = c := Option.some.inj (hc'.collection.symm.trans hc.collection)
  obtain ⟨s₀, hs₀⟩ := hk.exists_mem h.nonempty
  intro p _
  obtain ⟨rs, hrs⟩ := ReplicaHolder.exists_lookup_shardOf hs₀ p.id
  exact ⟨rs, hrs, fun r hr w ↦ h.replicaUpsert_clean hc hk henv hrs hr _ w⟩

/-- Two nodes, of which the second cannot be reached the first time. -/
theorem retry_safe_joined :
    ((Cluster.joined Crates.bool "c" [101, 102]).upsertPoints 101 "c" (.joined "c" [101, 102] 101)
        (.without []) [⟨.id 1, true⟩, ⟨.id 2, false⟩] false
        ((Cluster.joined Crates.bool "c" [101, 102]).upsertPoints 101 "c"
          (.joined "c" [101, 102] 101) (.without [102]) [⟨.id 1, true⟩, ⟨.id 2, false⟩] false
          .empty).1).1
      = ((Cluster.joined Crates.bool "c" [101, 102]).upsertPoints 101 "c"
          (.joined "c" [101, 102] 101) (.without [])
          [⟨.id 1, true⟩, ⟨.id 2, false⟩] false .empty).1 := by
  have hhosts : (Cluster.joined Crates.bool "c" [101, 102]).Hosts 101 "c"
      (.joined "c" [101, 102] 101) := Cluster.joined_hosts (by decide)
  have hjoined : (Cluster.joined Crates.bool "c" [101, 102]).Replicated "c" [0, 1] [101, 102] :=
    Cluster.joined_replicated (by decide)
  have hfree := hjoined.failureFree (by decide) hhosts
    (ClusterWriteEnv.without_clean (by simp)) [⟨.id 1, true⟩, ⟨.id 2, false⟩]
  have hnet : ∀ down, (ClusterWriteEnv.without down).SameNetwork (.without [])
      (Cluster.joined Crates.bool "c" [101, 102]) := fun down ↦
    (ClusterWriteEnv.without_honest down).sameNetwork (ClusterWriteEnv.without_honest [])
  exact (retry_safe hhosts.collection _ hfree hfree (hnet [102]) (hnet []) .empty).1

end Smoldb
