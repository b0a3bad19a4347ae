import Smoldb.Cluster

/-!
# What an upsert writes, and where

A call of `upsert_points` on a replica stores points at some places of the cluster, one after the
other, and returns something; which points, where, and what is returned depend on the call and on
its environment but not on what is stored already.  So the effect of a call is a `WriteLog`, a list
of points for every place, and the effect of a sequence of calls is the concatenation of their logs.

`Writes` says that a method has a log and a result like that, and it is what the theorems about
upserts start from: `Writes.runCalls` goes from one call to a list of them, and the calls of an
upsert are a list.  So what an upsert leaves at a place is the last write of the log under each key
(`Lib/LastWrite.lean`), whatever was called in between elsewhere.

This file has the logs and the method of the shard of the node itself.  It writes a prefix of its
points, and all of them if it succeeds, since the inserts stop at the first that fails.  Calls to
other nodes are in `Cluster/Calls.lean`: they write at the node the connection leads to, at the
places that node's own ring gives the points, again a prefix, and again everything if they succeed;
points whose id is not a number are left out.
-/

set_option autoImplicit false

namespace Smoldb

open LastWrite

variable {V : Type} {X : Crates V}

/-! ## Logs -/

/-- Points stored at places, one after the other. -/
abbrev WriteLog (V : Type) := Place → List (Point V)

/-- Store the points of a log. -/
def Stores.putAll (X : Crates V) (log : WriteLog V) (w : Stores) : Stores :=
  fun pl ↦ LocalShard.putAll X (log pl) (w pl)

@[simp] theorem Stores.putAll_nil (w : Stores) : Stores.putAll X (fun _ ↦ []) w = w := by
  funext pl
  rw [Stores.putAll, LocalShard.putAll_nil]

theorem Stores.putAll_putAll (A B : WriteLog V) (w : Stores) :
    Stores.putAll X B (Stores.putAll X A w) = Stores.putAll X (fun pl ↦ A pl ++ B pl) w := by
  funext pl
  rw [Stores.putAll, Stores.putAll, Stores.putAll, LocalShard.putAll_append]

namespace WriteLog

/-- Points stored at one place. -/
def single (pl : Place) (points : List (Point V)) : WriteLog V :=
  fun pl' ↦ if pl' = pl then points else []

/-- Points stored in the shards of one collection of one node. -/
def node (peer : PeerId) (name : CollectionName) (points : ShardId → List (Point V)) : WriteLog V :=
  fun pl ↦ if pl.peer = peer ∧ pl.collection = name then points pl.shard else []

@[simp] theorem single_self (pl : Place) (points : List (Point V)) :
    single pl points pl = points := if_pos rfl

@[simp] theorem node_self (peer : PeerId) (name : CollectionName)
    (points : ShardId → List (Point V)) (s : ShardId) :
    node peer name points ⟨peer, name, s⟩ = points s := if_pos ⟨rfl, rfl⟩

theorem mem_single {pl pl' : Place} {points : List (Point V)} {p : Point V} :
    p ∈ single pl points pl' ↔ pl' = pl ∧ p ∈ points := by
  rw [single]
  split <;> simp_all

theorem mem_node {peer : PeerId} {name : CollectionName} {points : ShardId → List (Point V)}
    {pl : Place} {p : Point V} :
    p ∈ node peer name points pl ↔ (pl.peer = peer ∧ pl.collection = name) ∧
      p ∈ points pl.shard := by
  rw [node]
  split <;> simp_all

/-- The shards of a node written one after the other. -/
theorem flatMap_single (peer : PeerId) (name : CollectionName) (points : ShardId → List (Point V))
    {l : List ShardId} (hl : l.Nodup) (pl : Place) :
    (l.flatMap fun s ↦ single ⟨peer, name, s⟩ (points s) pl)
      = node peer name (fun s ↦ if s ∈ l then points s else []) pl := by
  induction l with
  | nil => simp [node]
  | cons s l ih =>
    rw [List.nodup_cons] at hl
    rw [List.flatMap_cons, ih hl.2, single, node, node]
    obtain ⟨q, c, t⟩ := pl
    by_cases hq : q = peer ∧ c = name
    · obtain ⟨rfl, rfl⟩ := hq
      by_cases ht : t = s
      · subst ht; simp [hl.1]
      · simp [ht]
    · have hne : (⟨q, c, t⟩ : Place) ≠ ⟨peer, name, s⟩ := by
        intro h
        cases h
        exact hq ⟨rfl, rfl⟩
      simp [hne, hq]

end WriteLog

/-- The trait method stores `log` and returns `result`, whatever is stored already. -/
def Writes (X : Crates V)
    (upsert : ShardId → Replica → List (Point V) → Stores → Stores × CollectionResult Unit)
    (log : ShardId → Replica → List (Point V) → WriteLog V)
    (result : ShardId → Replica → List (Point V) → CollectionResult Unit) : Prop :=
  ∀ s r points w, upsert s r points w = (Stores.putAll X (log s r points) w, result s r points)

/-- The log of a sequence of calls. -/
def callsLog (log : ShardId → Replica → List (Point V) → WriteLog V)
    (calls : List (Collection.Call V)) : WriteLog V :=
  fun pl ↦ calls.flatMap fun c ↦ log c.shard c.replica c.points pl

namespace Writes

variable {upsert : ShardId → Replica → List (Point V) → Stores → Stores × CollectionResult Unit}
  {log : ShardId → Replica → List (Point V) → WriteLog V}
  {result : ShardId → Replica → List (Point V) → CollectionResult Unit}

theorem oblivious (h : Writes X upsert log result) : Collection.Oblivious upsert := by
  intro s r points w w'
  rw [h, h]

theorem runCalls (h : Writes X upsert log result) (calls : List (Collection.Call V)) (w : Stores) :
    Collection.runCalls upsert calls w = Stores.putAll X (callsLog log calls) w := by
  induction calls generalizing w with
  | nil => exact (Stores.putAll_nil w).symm
  | cons c cs ih =>
    have hstep : Collection.runCalls upsert (c :: cs) w
        = Collection.runCalls upsert cs (upsert c.shard c.replica c.points w).1 := rfl
    rw [hstep, h, ih, Stores.putAll_putAll]
    rfl

theorem results_eq (h : Writes X upsert log result) (w : Stores) (replicaSet : ReplicaSet)
    (localOnly : Bool) (s : ShardId) (points : List (Point V)) :
    Collection.results upsert w replicaSet localOnly s points
      = (replicaSet.replicas localOnly).map fun r ↦ result s r points := by
  rw [Collection.results]
  exact List.map_congr_left fun r _ ↦ by rw [h]

end Writes

/-! ## The shard of the node itself -/

section LocalWrites

variable (peer : PeerId) (name : CollectionName) (sled : ShardId → SledWrites)

theorem replicaUpsert_local_spec
    (remote : ShardId → RemoteShard → List (Point V) → Stores → Stores × CollectionResult Unit)
    (s : ShardId) (shard : LocalShard) (points : List (Point V)) :
    ∃ log r, (∀ w, replicaUpsert X peer name sled remote s (.localShard shard) points w
        = (Stores.putAll X log w, r)) ∧
      (∀ pl, log pl <+: WriteLog.single ⟨peer, name, s⟩ points pl) ∧
      (r = .ok () → log = WriteLog.single ⟨peer, name, s⟩ points) := by
  obtain ⟨n, r, hn, hr⟩ := shard.upsertPoints_spec X (sled s) points
  refine ⟨WriteLog.single ⟨peer, name, s⟩ (points.take n), r, fun w ↦ ?_, fun pl ↦ ?_, fun hok ↦ ?_⟩
  · rw [replicaUpsert]
    simp only [hn]
    refine Prod.ext ?_ rfl
    funext pl
    by_cases hpl : pl = ⟨peer, name, s⟩
    · subst hpl; simp [Stores.putAll]
    · simp [Stores.putAll, WriteLog.single, hpl]
  · rw [WriteLog.single, WriteLog.single]
    split
    · exact List.take_prefix n points
    · exact List.prefix_rfl
  · rw [List.take_of_length_le (hr hok)]

/-- A trait method that no remote shard needs to answer. -/
theorem exists_writes_noRemote : ∃ log result,
    Writes X (replicaUpsert X peer name sled noRemote) log result ∧
      (∀ s shard points pl, log s (.localShard shard) points pl
        <+: WriteLog.single ⟨peer, name, s⟩ points pl) ∧
      (∀ s shard points, result s (.localShard shard) points = .ok () →
        log s (.localShard shard) points = WriteLog.single ⟨peer, name, s⟩ points) := by
  have hspec : ∀ s (r : Replica) (points : List (Point V)), ∃ log result,
      (∀ w, replicaUpsert X peer name sled noRemote s r points w
        = (Stores.putAll X log w, result)) ∧
      (∀ shard, r = .localShard shard →
        (∀ pl, log pl <+: WriteLog.single ⟨peer, name, s⟩ points pl) ∧
        (result = .ok () → log = WriteLog.single ⟨peer, name, s⟩ points)) := by
    intro s r points
    cases r with
    | localShard shard =>
      obtain ⟨log, result, heq, hpre, hok⟩ :=
        replicaUpsert_local_spec (X := X) peer name sled noRemote s shard points
      exact ⟨log, result, heq, fun _ _ ↦ ⟨hpre, hok⟩⟩
    | remoteShard shard =>
      exact ⟨fun _ ↦ [], .ok (), fun w ↦ by simp [replicaUpsert, noRemote], fun _ h ↦ nomatch h⟩
  choose log result heq hlocal using hspec
  exact ⟨log, result, heq, fun s shard points ↦ (hlocal s _ points shard rfl).1,
    fun s shard points ↦ (hlocal s _ points shard rfl).2⟩

end LocalWrites

namespace Collection

/-- With `local_only`, how remote shards are reached makes no difference. -/
theorem upsertPoints_congr_local {σ : Type} (self : Collection X)
    {up up' : ShardId → Replica → List (Point V) → σ → σ × CollectionResult Unit}
    (h : ∀ s shard points w, up s (.localShard shard) points w = up' s (.localShard shard) points w)
    (order : IterOrder (ShardId × List PointId)) (points : List (Point V)) (w : σ) :
    self.upsertPoints up order points true w = self.upsertPoints up' order points true w := by
  have hgroup : self.upsertGroup up points true = self.upsertGroup up' points true := by
    funext group w
    rw [upsertGroup, upsertGroup]
    cases self.replicaHolder.shards.lookup group.1 with
    | none => rfl
    | some replicaSet => simp only [ReplicaSet.executeClusterOperation, h, if_true]
  rw [upsertPoints, upsertPoints, hgroup]

/-- Without remote shards an upsert is the same as one with `local_only`. -/
theorem upsertPoints_of_no_remotes {σ : Type} (self : Collection X)
    (hrem : ∀ s rs, self.replicaHolder.shards.lookup s = some rs → rs.remotes = [])
    (up : ShardId → Replica → List (Point V) → σ → σ × CollectionResult Unit)
    (order : IterOrder (ShardId × List PointId)) (points : List (Point V)) (localOnly : Bool)
    (w : σ) :
    self.upsertPoints up order points localOnly w = self.upsertPoints up order points true w := by
  cases localOnly with
  | true => rfl
  | false =>
    have hgroup : self.upsertGroup up points false = self.upsertGroup up points true := by
      funext group w
      rw [upsertGroup, upsertGroup]
      cases hrs : self.replicaHolder.shards.lookup group.1 with
      | none => rfl
      | some replicaSet =>
        have hmin : minDesiredSuccess replicaSet false = minDesiredSuccess replicaSet true := by
          simp [minDesiredSuccess, ReplicaSet.numReplicas, hrem _ _ hrs, defaultConsistencyFactor]
        have hack : ∀ results, acknowledge X group.1 replicaSet false results
            = acknowledge X group.1 replicaSet true results := by
          intro results
          simp only [acknowledge, hmin]
        simp only [ReplicaSet.executeClusterOperation, hrem _ _ hrs,
          ReplicaSet.operateRemotes, hack]
        rfl
    rw [upsertPoints, upsertPoints, hgroup]

/-- With `local_only` there is at most one call for a shard, and it is on the shard of the node. -/
theorem shardCalls_localOnly (self : Collection X) (points : List (Point V)) (s : ShardId) :
    self.shardCalls points true s = [] ∨ ∃ shard, self.shardCalls points true s
      = [⟨s, .localShard shard, shardPoints self.shardOf points s⟩] := by
  rw [shardCalls]
  cases self.replicaHolder.shards.lookup s with
  | none => exact Or.inl rfl
  | some rs => exact Or.inr ⟨rs.localShard, rfl⟩

section VisitedShards

variable (self : Collection X) {peer : PeerId} {name : CollectionName}
  {log : ShardId → Replica → List (Point V) → WriteLog V} (points : List (Point V))
  (hpre : ∀ s shard points pl, log s (.localShard shard) points pl
    <+: WriteLog.single ⟨peer, name, s⟩ points pl)

include hpre

/-- What is written for a shard is a prefix of its points, and it is written at one place. -/
theorem callsLog_shardCalls_prefix (s : ShardId) (pl : Place) :
    callsLog log (self.shardCalls points true s) pl
      <+: WriteLog.single ⟨peer, name, s⟩ (shardPoints self.shardOf points s) pl := by
  rcases self.shardCalls_localOnly points s with h | ⟨shard, h⟩
  · rw [h]; exact List.nil_prefix
  · rw [h, callsLog, List.flatMap_singleton]; exact hpre s shard _ pl

/-- What is written for the shards visited, place by place. -/
theorem callsLog_visited {visited : List ShardId} (hnodup : visited.Nodup) :
    callsLog log (visited.flatMap (self.shardCalls points true))
      = WriteLog.node peer name fun s ↦
          if s ∈ visited then callsLog log (self.shardCalls points true s) ⟨peer, name, s⟩
          else [] := by
  funext pl
  rw [← WriteLog.flatMap_single peer name _ hnodup, callsLog, List.flatMap_assoc]
  refine List.flatMap_congr fun s _ ↦ ?_
  by_cases hpl : pl = ⟨peer, name, s⟩
  · subst hpl; rw [WriteLog.single_self]; rfl
  · have hnil := callsLog_shardCalls_prefix self points hpre s pl
    rw [WriteLog.single, if_neg hpl, List.prefix_nil] at hnil
    rw [WriteLog.single, if_neg hpl]
    exact hnil

end VisitedShards

/-- The points of a shard that is not visited. -/
theorem shardPoints_eq_nil {self : Collection X} {order : IterOrder (ShardId × List PointId)}
    {points : List (Point V)} {s : ShardId} (hs : s ∉ self.shardOrder order points) :
    shardPoints self.shardOf points s = [] := by
  rw [List.eq_nil_iff_forall_not_mem]
  intro p hp
  obtain ⟨hp, hl⟩ := mem_shardPoints.mp hp
  exact hs (mem_shardOrder.mpr ⟨p, mem_of_last hl, hp⟩)

/-- The empty batch. -/
theorem upsertPoints_nil {σ : Type} (self : Collection X)
    (up : ShardId → Replica → List (Point V) → σ → σ × CollectionResult Unit)
    (order : IterOrder (ShardId × List PointId)) (localOnly : Bool) (w : σ) :
    self.upsertPoints up order [] localOnly w = (w, some (.ok ())) := by
  have hnil : order.arrange [] = [] := (order.perm []).eq_nil
  rw [upsertPoints, List.map_nil, ReplicaHolder.selectShards, ReplicaHolder.selectFrom]
  simp only [hnil, Loop.run_nil]

/-- **A write to the shards of one node.**  For every shard a prefix of its points is stored, and
everything if the write succeeds. -/
theorem upsertPoints_local_spec (self : Collection X) (peer : PeerId) (name : CollectionName)
    (sled : ShardId → SledWrites)
    (remote : ShardId → RemoteShard → List (Point V) → Stores → Stores × CollectionResult Unit)
    (order : IterOrder (ShardId × List PointId)) (points : List (Point V)) :
    ∃ log result, (∀ w, self.upsertPoints (replicaUpsert X peer name sled remote) order
      points true w
        = (Stores.putAll X log w, some result)) ∧
      (∀ pl, log pl <+: WriteLog.node peer name (shardPoints self.shardOf points) pl) ∧
      (result = .ok () → log = WriteLog.node peer name (shardPoints self.shardOf points)) := by
  have hcongr : ∀ w, self.upsertPoints (replicaUpsert X peer name sled remote) order points true w
      = self.upsertPoints (replicaUpsert X peer name sled noRemote) order points true w :=
    self.upsertPoints_congr_local (fun _ _ _ _ ↦ rfl) order points
  obtain ⟨log, result, hW, hpre, hok⟩ := exists_writes_noRemote (X := X) peer name sled
  rcases List.eq_nil_or_concat self.replicaHolder.shards.keys with hkeys | ⟨_, s₀, hkeys⟩
  · by_cases hne : points = []
    · subst hne
      refine ⟨fun _ ↦ [], .ok (), fun w ↦ ?_, fun pl ↦ List.nil_prefix, fun _ ↦ ?_⟩
      · rw [upsertPoints_nil, Stores.putAll_nil]
      · funext pl
        simp [WriteLog.node, shardPoints, collapse]
    · exact ⟨fun _ ↦ [], .error _, fun w ↦ by
        rw [upsertPoints_of_no_shards hkeys order hne, Stores.putAll_nil],
        fun pl ↦ List.nil_prefix, by simp⟩
  · have hs₀ : s₀ ∈ self.replicaHolder.shards := AList.mem_keys.mpr (by simp [hkeys])
    obtain ⟨visited, rest, r, horder, heq, hcase⟩ :=
      upsertPoints_spec hW.oblivious Stores.empty hs₀ order points true
    have hnodup : visited.Nodup := by
      have h : (self.shardOrder order points).Nodup := shardOrder_nodup order points
      rw [horder] at h
      exact (List.nodup_append.mp h).1
    refine ⟨callsLog log (visited.flatMap (self.shardCalls points true)), r, fun w ↦ ?_,
      fun pl ↦ ?_, fun hr ↦ ?_⟩
    · rw [hcongr, heq, hW.runCalls]
    · rw [callsLog_visited self points hpre hnodup, WriteLog.node, WriteLog.node]
      split
      · split
        · have h := callsLog_shardCalls_prefix self points hpre pl.shard
            ⟨peer, name, pl.shard⟩
          rwa [WriteLog.single_self] at h
        · exact List.nil_prefix
      · exact List.prefix_rfl
    · rcases hcase with ⟨-, rfl, hack⟩ | ⟨⟨e, he⟩, -⟩
      · rw [List.append_nil] at horder
        rw [callsLog_visited self points hpre hnodup]
        congr 1
        funext s
        split
        · rename_i hs
          obtain ⟨rs, hrs, ⟨_, hres⟩, -⟩ := hack s hs
          rw [hW.results_eq, ReplicaSet.replicas, List.map_cons, List.cons.injEq] at hres
          have hcall : self.shardCalls points true s
              = [⟨s, .localShard rs.localShard, shardPoints self.shardOf points s⟩] := by
            rw [shardCalls, hrs]; rfl
          rw [hcall, callsLog, List.flatMap_singleton, hok s rs.localShard _ hres.1,
            WriteLog.single_self]
        · rename_i hs
          rw [← horder] at hs
          rw [shardPoints_eq_nil hs]
      · exact absurd (hr.symm.trans he) (by simp)

/-- As long as sled answers, a write to the shards of one node stores everything. -/
theorem upsertPoints_local_clean {self : Collection X} (hc : self.WellFormed) {s₀ : ShardId}
    (hs₀ : s₀ ∈ self.replicaHolder.shards) (peer : PeerId) (name : CollectionName)
    {sled : ShardId → SledWrites} (hsled : ∀ s, sled s = .clean)
    (remote : ShardId → RemoteShard → List (Point V) → Stores → Stores × CollectionResult Unit)
    (order : IterOrder (ShardId × List PointId)) (points : List (Point V)) (w : Stores) :
    self.upsertPoints (replicaUpsert X peer name sled remote) order points true w =
      (Stores.putAll X (WriteLog.node peer name (shardPoints self.shardOf points)) w,
        some (.ok ())) := by
  obtain ⟨log, result, heq, -, hok⟩ :=
    self.upsertPoints_local_spec peer name sled remote order points
  have hresult : result = .ok () := by
    obtain ⟨_, _, hW, -⟩ := exists_writes_noRemote (X := X) peer name sled
    -- every shard acknowledges, since its local write goes through
    have hack : (self.upsertPoints (replicaUpsert X peer name sled noRemote) order points true w).2
        = some (.ok ()) := by
      refine upsertPoints_ok hW.oblivious hs₀ fun p _ ↦ ?_
      obtain ⟨rs, hrs⟩ := ReplicaHolder.exists_lookup_shardOf hs₀ p.id
      refine ⟨rs, hrs, ⟨[], ?_⟩, Or.inl rfl⟩
      rw [results, ReplicaSet.replicas, if_pos rfl, List.map_singleton, replicaUpsert, hsled]
      simp only [LocalShard.upsertPoints_clean X (hc.segment _ rs hrs)]
    have hcongr : self.upsertPoints (replicaUpsert X peer name sled remote) order points true w
        = self.upsertPoints (replicaUpsert X peer name sled noRemote) order points true w :=
      self.upsertPoints_congr_local (fun _ _ _ _ ↦ rfl) order points w
    rw [← hcongr, heq, Option.some_inj] at hack
    exact hack
  rw [heq, hok hresult, hresult]

end Collection

end Smoldb
