import Smoldb.Storage.Collection

/-!
# An upsert is a sequence of calls

`Collection.upsertPoints` groups a batch by shard, writes each group to the replicas of its shard,
and stops at the first shard that does not acknowledge.  For a trait method that is `Oblivious`,
which is one whose result does not depend on the state, this is spelled out here once:

* `shardPoints f points s` are the points written for shard `s`: the points of the batch that `f`
  sends there, each replaced by the last one with its id;
* `calls` are the calls made, in order, and `upsertPoints_eq` says that running them is all an
  upsert does to the state;
* `upsertPoints_ok_iff` is the acknowledgement rule.

`last_shardPoints` is why the reordering inside an upsert is harmless: under the key of the
storage, the last point of a shard's list is the last point of the batch.
-/

set_option autoImplicit false

namespace Smoldb

open LastWrite

variable {V : Type} {X : Crates V}

/-! ## The points of a shard -/

/-- The points of a batch that go to shard `s`, as they are written. -/
def shardPoints (f : PointId → ShardId) (points : List (Point V)) (s : ShardId) :
    List (Point V) := collapse Point.id (points.filter fun p ↦ f p.id = s)

theorem getElem?_pointsMap (points : List (Point V)) (id : PointId) :
    (Collection.pointsMap points)[id]? = last Point.id points id := by
  have h := getElem?_foldl_insert Point.id (fun p : Point V ↦ p) points
    (∅ : Std.ExtTreeMap PointId (Point V)) id
  rw [Collection.pointsMap, h]
  simp

/-- Looking the ids of a group up in `points_map` gives the points of the shard. -/
theorem groupPoints_eq (f : PointId → ShardId) (points : List (Point V)) (s : ShardId) :
    Collection.groupPoints points ((points.map Point.id).filter fun id ↦ f id = s)
      = shardPoints f points s := by
  rw [Collection.groupPoints, List.filter_map, List.filterMap_map, shardPoints, collapse]
  refine List.filterMap_congr fun p hp ↦ ?_
  have hs : f p.id = s := by simpa using (List.mem_filter.mp hp).2
  rw [Function.comp, getElem?_pointsMap, last_filter]
  intro q hq
  simp [hq, hs]

theorem mem_shardPoints {f : PointId → ShardId} {points : List (Point V)} {s : ShardId}
    {p : Point V} : p ∈ shardPoints f points s ↔ f p.id = s ∧
      last Point.id points p.id = some p := by
  rw [shardPoints, mem_collapse]
  by_cases hs : f p.id = s
  · rw [last_filter (by intro q hq; simp [hq, hs])]
    simp [hs]
  · rw [last_filter_eq_none (by intro q hq; simp [hq, hs])]
    simp [hs]

/-- Other payloads under the same ids change nothing but the payloads. -/
theorem shardPoints_map {g : Point V → Point V} (hg : ∀ p, (g p).id = p.id)
    (f : PointId → ShardId) (points : List (Point V)) (s : ShardId) :
    shardPoints f (points.map g) s = (shardPoints f points s).map g := by
  rw [shardPoints, List.filter_map, collapse_map, shardPoints]
  simp only [Function.comp_def, hg]

/-- **The last write to a key of a shard is the last point of the batch that belongs there.** -/
theorem last_shardPoints (f : PointId → ShardId) (points : List (Point V)) (s : ShardId)
    (k : String) : last Segment.keyOf (shardPoints f points s) k
      = last (fun p ↦ (f p.id, Segment.keyOf p)) points (s, k) := by
  have hcoarse : ∀ p q : Point V, p.id = q.id → Segment.keyOf p = Segment.keyOf q :=
    fun p q h ↦ congrArg PointId.intoString h
  have hfilter : last (fun p ↦ (f p.id, Segment.keyOf p)) (points.filter fun p ↦ f p.id = s) (s, k)
      = last (fun p ↦ (f p.id, Segment.keyOf p)) points (s, k) :=
    last_filter (fun p hp ↦ by simp [(Prod.mk.inj hp).1]) points
  rw [shardPoints, last_collapse hcoarse, ← hfilter]
  refine last_congr fun p hp ↦ ?_
  have hs : f p.id = s := by simpa using (List.mem_filter.mp hp).2
  simp [hs]

namespace Collection

/-! ## The calls of an upsert -/

/-- A call of `upsert_points` on a replica of a shard. -/
structure Call (V : Type) where
  shard : ShardId
  replica : Replica
  points : List (Point V)

variable {σ : Type}

/-- The trait method returns the same whatever the state is. -/
def Oblivious (upsert : ShardId → Replica → List (Point V) → σ → σ × CollectionResult Unit) :
    Prop := ∀ s r points w w', (upsert s r points w).2 = (upsert s r points w').2

/-- Make calls one after the other. -/
def runCalls (upsert : ShardId → Replica → List (Point V) → σ → σ × CollectionResult Unit)
    (calls : List (Call V)) (w : σ) : σ :=
  calls.foldl (fun w c ↦ (upsert c.shard c.replica c.points w).1) w

theorem runCalls_append {upsert : ShardId → Replica → List (Point V) → σ →
    σ × CollectionResult Unit}
    (cs ds : List (Call V)) (w : σ) :
    runCalls upsert (cs ++ ds) w = runCalls upsert ds (runCalls upsert cs w) := List.foldl_append

variable (self : Collection X)
  (upsert : ShardId → Replica → List (Point V) → σ → σ × CollectionResult Unit)

/-- The calls made for a group of ids. -/
def groupCalls (points : List (Point V)) (localOnly : Bool) (group : ShardId × List PointId) :
    List (Call V) :=
  match self.replicaHolder.shards.lookup group.1 with
  | none => []
  | some replicaSet =>
    (replicaSet.replicas localOnly).map fun r ↦ ⟨group.1, r, groupPoints points group.2⟩

/-- What the replicas of a shard return to a list of points, asked in state `w₀`. -/
def results (w₀ : σ) (replicaSet : ReplicaSet) (localOnly : Bool) (s : ShardId)
    (points : List (Point V)) : List (CollectionResult Unit) :=
  (replicaSet.replicas localOnly).map fun r ↦ (upsert s r points w₀).2

/-- Why the loop is left at a group, if it is. -/
def groupExit (w₀ : σ) (points : List (Point V)) (localOnly : Bool)
    (group : ShardId × List PointId) : Option (Option (CollectionResult Unit)) :=
  match self.replicaHolder.shards.lookup group.1 with
  | none => some (some (.error (.storageError (.badInput s!"Shard {group.1} not found"))))
  | some replicaSet =>
    acknowledge X group.1 replicaSet localOnly
      (results upsert w₀ replicaSet localOnly group.1 (groupPoints points group.2))

variable {self upsert}

/-- One round of the loop: the calls of the group, and the verdict on their results. -/
theorem upsertGroup_eq (hu : Oblivious upsert) (w₀ : σ) (points : List (Point V))
    (localOnly : Bool) (group : ShardId × List PointId) (w : σ) :
    self.upsertGroup upsert points localOnly group w =
      (runCalls upsert (self.groupCalls points localOnly group) w,
        self.groupExit upsert w₀ points localOnly group) := by
  rw [upsertGroup, groupCalls, groupExit]
  cases self.replicaHolder.shards.lookup group.1 with
  | none => rfl
  | some replicaSet =>
    have h := ReplicaSet.executeClusterOperation_of_result
      (fun r w ↦ ((upsert group.1 r (groupPoints points group.2) w).1,
        some (upsert group.1 r (groupPoints points group.2) w).2))
      (fun r ↦ (upsert group.1 r (groupPoints points group.2) w₀).2)
      (fun r w ↦ congrArg some (hu _ _ _ _ _)) replicaSet localOnly w
    simp only [h, runCalls, List.foldl_map, results]

/-- The calls of an upsert: those of the groups it gets to. -/
def calls (self : Collection X)
    (upsert : ShardId → Replica → List (Point V) → σ → σ × CollectionResult Unit) (w₀ : σ)
    (points : List (Point V)) (localOnly : Bool) (groups : List (ShardId × List PointId)) :
    List (Call V) :=
  (Loop.upTo (self.groupExit upsert w₀ points localOnly) groups).flatMap
    (self.groupCalls points localOnly)

theorem foldl_runCalls (points : List (Point V)) (localOnly : Bool)
    (groups : List (ShardId × List PointId)) (w : σ) :
    groups.foldl (fun w g ↦ runCalls upsert (self.groupCalls points localOnly g) w) w
      = runCalls upsert (groups.flatMap (self.groupCalls points localOnly)) w := by
  induction groups generalizing w with
  | nil => rfl
  | cons g gs ih => rw [List.foldl_cons, ih, List.flatMap_cons, runCalls_append]

/-- **An upsert is a sequence of calls**, and its outcome is the first reason to stop. -/
theorem upsertPoints_eq (hu : Oblivious upsert) (w₀ : σ) {points : List (Point V)}
    {groups : List (ShardId × List PointId)}
    (hg : self.replicaHolder.selectShards (points.map Point.id) = .ok groups)
    (order : IterOrder (ShardId × List PointId)) (localOnly : Bool) (w : σ) :
    self.upsertPoints upsert order points localOnly w =
      (runCalls upsert (self.calls upsert w₀ points localOnly (order.arrange groups)) w,
        ((order.arrange groups).findSome? (self.groupExit upsert w₀ points localOnly)).getD
          (some (.ok ()))) := by
  have hrun : Loop.run (self.upsertGroup upsert points localOnly) (order.arrange groups) w =
      (runCalls upsert (self.calls upsert w₀ points localOnly (order.arrange groups)) w,
        (order.arrange groups).findSome? (self.groupExit upsert w₀ points localOnly)) := by
    rw [Loop.run_of_exit (self.groupExit upsert w₀ points localOnly)
      (fun g _ w ↦ by rw [upsertGroup_eq hu w₀]), calls, ← foldl_runCalls]
    simp only [upsertGroup_eq hu w₀]
  rw [upsertPoints, hg]
  simp only [hrun]
  cases (order.arrange groups).findSome? (self.groupExit upsert w₀ points localOnly) <;> rfl

/-! ## The acknowledgement rule -/

/-- When a shard acknowledges: its local write succeeded, and so did enough of its replicas. -/
def Acknowledged (replicaSet : ReplicaSet) (localOnly : Bool)
    (results : List (CollectionResult Unit)) : Prop :=
  (∃ rest, results = .ok () :: rest) ∧
    (localOnly = true ∨
      min replicaSet.numReplicas defaultConsistencyFactor ≤ results.countP fun r ↦ r.isOk)

theorem acknowledge_eq_none_iff {s : ShardId} {replicaSet : ReplicaSet} {localOnly : Bool}
    {results : List (CollectionResult Unit)} :
    acknowledge X s replicaSet localOnly results = none ↔
      Acknowledged replicaSet localOnly results := by
  match results with
  | [] => simp [acknowledge, Acknowledged]
  | .error e :: rest => simp [acknowledge, Acknowledged]
  | .ok () :: rest =>
    have hcount : 0 < (.ok () :: rest : List (CollectionResult Unit)).countP fun r ↦ r.isOk :=
      List.countP_pos_iff.mpr ⟨_, List.mem_cons_self, rfl⟩
    have hmin : minDesiredSuccess replicaSet localOnly
          ≤ (.ok () :: rest : List (CollectionResult Unit)).countP (fun r ↦ r.isOk) ↔
        (localOnly = true ∨ min replicaSet.numReplicas defaultConsistencyFactor
          ≤ (.ok () :: rest : List (CollectionResult Unit)).countP fun r ↦ r.isOk) := by
      cases localOnly with
      | true => exact ⟨fun _ ↦ Or.inl rfl, fun _ ↦ hcount⟩
      | false => exact ⟨Or.inr, fun h ↦ h.resolve_left Bool.false_ne_true⟩
    rw [Acknowledged, ← hmin, ← Nat.not_lt]
    simp only [acknowledge]
    split
    · rename_i hlt; exact ⟨fun h ↦ (nomatch h), fun h ↦ absurd hlt h.2⟩
    · rename_i hlt; exact ⟨fun _ ↦ ⟨⟨rest, rfl⟩, hlt⟩, fun _ ↦ rfl⟩

/-- A shard is never left with a success, and the `unwrap` of `split_first` is never reached with an
empty list as long as there are results. -/
theorem acknowledge_ne {s : ShardId} {replicaSet : ReplicaSet} {localOnly : Bool}
    {results : List (CollectionResult Unit)} (h : results ≠ []) {r : Option (CollectionResult Unit)}
    (hr : acknowledge X s replicaSet localOnly results = some r) : ∃ e, r = some (.error e) := by
  match results with
  | [] => exact absurd rfl h
  | .error e :: rest =>
    rw [acknowledge, Option.some_inj] at hr
    exact ⟨_, hr.symm⟩
  | .ok () :: rest =>
    simp only [acknowledge] at hr
    split at hr
    · rw [Option.some_inj] at hr
      exact ⟨_, hr.symm⟩
    · exact nomatch hr

theorem results_ne_nil (w₀ : σ) (replicaSet : ReplicaSet) (localOnly : Bool) (s : ShardId)
    (points : List (Point V)) : results upsert w₀ replicaSet localOnly s points ≠ [] := by
  simp [results, ReplicaSet.replicas]

/-- The loop is only ever left with an error. -/
theorem groupExit_ne {w₀ : σ} {points : List (Point V)} {localOnly : Bool}
    {group : ShardId × List PointId} {r : Option (CollectionResult Unit)}
    (hr : self.groupExit upsert w₀ points localOnly group = some r) : ∃ e, r = some (.error e) := by
  rw [groupExit] at hr
  split at hr
  · rw [Option.some_inj] at hr
    exact ⟨_, hr.symm⟩
  · rename_i replicaSet _
    exact acknowledge_ne (results_ne_nil w₀ replicaSet localOnly group.1 _) hr

/-! ## Which shards are written to -/

/-- The shard of a point id. -/
def shardOf (self : Collection X) (id : PointId) : ShardId := self.replicaHolder.shardOf id

/-- The shards of a batch, in the order in which they are visited. -/
def shardOrder (self : Collection X) (order : IterOrder (ShardId × List PointId))
    (points : List (Point V)) : List ShardId :=
  (order.arrange (Grouping.groups self.shardOf (points.map Point.id))).map Prod.fst

/-- The calls made for a shard. -/
def shardCalls (self : Collection X) (points : List (Point V)) (localOnly : Bool) (s : ShardId) :
    List (Call V) :=
  match self.replicaHolder.shards.lookup s with
  | none => []
  | some replicaSet =>
    (replicaSet.replicas localOnly).map fun r ↦ ⟨s, r, shardPoints self.shardOf points s⟩

/-- The shard acknowledges the batch. -/
def Acknowledges (self : Collection X)
    (upsert : ShardId → Replica → List (Point V) → σ → σ × CollectionResult Unit) (w₀ : σ)
    (points : List (Point V)) (localOnly : Bool) (s : ShardId) : Prop :=
  ∃ replicaSet, self.replicaHolder.shards.lookup s = some replicaSet ∧
    Acknowledged replicaSet localOnly
      (results upsert w₀ replicaSet localOnly s (shardPoints self.shardOf points s))

theorem shardOrder_nodup (order : IterOrder (ShardId × List PointId)) (points : List (Point V)) :
    (self.shardOrder order points).Nodup :=
  ((order.perm _).map _).nodup_iff.mpr (Grouping.groups_keys_nodup _ _)

/-- The shards of a batch are those its points belong to. -/
theorem mem_shardOrder {order : IterOrder (ShardId × List PointId)} {points : List (Point V)}
    {s : ShardId} : s ∈ self.shardOrder order points ↔ ∃ p ∈ points, self.shardOf p.id = s := by
  rw [shardOrder, ((order.perm _).map _).mem_iff, Grouping.mem_groups_keys]
  simp

/-- The points of a group are the points of its shard. -/
theorem groupPoints_of_mem {order : IterOrder (ShardId × List PointId)} {points : List (Point V)}
    {group : ShardId × List PointId}
    (h : group ∈ order.arrange (Grouping.groups self.shardOf (points.map Point.id))) :
    groupPoints points group.2 = shardPoints self.shardOf points group.1 := by
  have hg : group ∈ Grouping.groups self.shardOf (points.map Point.id) :=
      (order.perm _).mem_iff.mp h
  rw [(Grouping.mem_groups.mp hg).1]
  exact groupPoints_eq self.shardOf points group.1

theorem groupCalls_of_mem {order : IterOrder (ShardId × List PointId)} {points : List (Point V)}
    {localOnly : Bool} {group : ShardId × List PointId}
    (h : group ∈ order.arrange (Grouping.groups self.shardOf (points.map Point.id))) :
    self.groupCalls points localOnly group = self.shardCalls points localOnly group.1 := by
  rw [groupCalls, shardCalls, groupPoints_of_mem h]

theorem groupExit_eq_none_iff {order : IterOrder (ShardId × List PointId)} {w₀ : σ}
    {points : List (Point V)} {localOnly : Bool} {group : ShardId × List PointId}
    (h : group ∈ order.arrange (Grouping.groups self.shardOf (points.map Point.id))) :
    self.groupExit upsert w₀ points localOnly group = none ↔
      self.Acknowledges upsert w₀ points localOnly group.1 := by
  rw [groupExit, Acknowledges, groupPoints_of_mem h]
  cases self.replicaHolder.shards.lookup group.1 with
  | none => simp
  | some replicaSet =>
    rw [acknowledge_eq_none_iff]
    simp

/-- **What an upsert does.**  It visits the shards of the batch one after the other, calls all
replicas of a shard whatever they return, and stops behind the first shard that does not
acknowledge.  It succeeds if there is none, and never panics. -/
theorem upsertPoints_spec (hu : Oblivious upsert) (w₀ : σ) {s₀ : ShardId}
    (hs₀ : s₀ ∈ self.replicaHolder.shards) (order : IterOrder (ShardId × List PointId))
    (points : List (Point V)) (localOnly : Bool) :
    ∃ (visited rest : List ShardId) (result : CollectionResult Unit),
      self.shardOrder order points = visited ++ rest ∧
      (∀ w, self.upsertPoints upsert order points localOnly w =
        (runCalls upsert (visited.flatMap (self.shardCalls points localOnly)) w, some result)) ∧
      (result = .ok () ∧ rest = [] ∧
          (∀ s ∈ visited, self.Acknowledges upsert w₀ points localOnly s) ∨
        (∃ e, result = .error e) ∧ ∃ acked s, visited = acked ++ [s] ∧
          (∀ t ∈ acked, self.Acknowledges upsert w₀ points localOnly t) ∧
          ¬ self.Acknowledges upsert w₀ points localOnly s) := by
  have hsel := ReplicaHolder.selectShards_eq hs₀ (points.map Point.id)
  have heq := upsertPoints_eq hu w₀ hsel order localOnly
  generalize hgs : order.arrange (Grouping.groups self.replicaHolder.shardOf (points.map Point.id))
    = gs at heq
  have hmem : ∀ g ∈ gs, g ∈ order.arrange (Grouping.groups self.shardOf (points.map Point.id)) := by
    intro g hg
    rw [← hgs] at hg
    exact hg
  have hcalls : ∀ l : List (ShardId × List PointId), (∀ g ∈ l, g ∈ gs) →
      l.flatMap (self.groupCalls points localOnly)
        = (l.map Prod.fst).flatMap (self.shardCalls points localOnly) := by
    intro l hl
    rw [List.flatMap_map]
    exact List.flatMap_congr fun g hg ↦ groupCalls_of_mem (hmem g (hl g hg))
  have horder : self.shardOrder order points = gs.map Prod.fst := by rw [← hgs]; rfl
  rcases Loop.forall_or_split (self.groupExit upsert w₀ points localOnly) gs with
    hall | ⟨A, g, B, r, hsplit, hA, hg⟩
  · refine ⟨gs.map Prod.fst, [], .ok (), by rw [horder, List.append_nil], fun w ↦ ?_,
      Or.inl ⟨rfl, rfl, ?_⟩⟩
    · rw [heq, calls, Loop.upTo_of_forall hall, hcalls gs fun g hg ↦ hg,
        List.findSome?_eq_none_iff.mpr hall, Option.getD_none]
    · intro s hs
      obtain ⟨g, hg, rfl⟩ := List.mem_map.mp hs
      exact (groupExit_eq_none_iff (hmem g hg)).mp (hall g hg)
  · obtain ⟨e, rfl⟩ := groupExit_ne hg
    have hAmem : ∀ b ∈ A, b ∈ gs := fun b hb ↦ by rw [hsplit]; simp [hb]
    have hgmem : g ∈ gs := by rw [hsplit]; simp
    refine ⟨(A ++ [g]).map Prod.fst, B.map Prod.fst, .error e, ?_, fun w ↦ ?_,
      Or.inr ⟨⟨e, rfl⟩, A.map Prod.fst, g.1, by simp, ?_, ?_⟩⟩
    · rw [horder, hsplit]; simp
    · rw [heq, calls, hsplit, Loop.upTo_append_cons hA (by simp [hg]), hcalls,
        Loop.findSome?_append_cons hA hg, Option.getD_some]
      intro b hb
      rcases List.mem_append.mp hb with hb | hb
      · exact hAmem b hb
      · rw [List.mem_singleton] at hb; rw [hb]; exact hgmem
    · intro s hs
      obtain ⟨b, hb, rfl⟩ := List.mem_map.mp hs
      exact (groupExit_eq_none_iff (hmem b (hAmem b hb))).mp (hA b hb)
    · rw [← groupExit_eq_none_iff (hmem g hgmem), hg]
      exact fun h ↦ nomatch h

/-- An upsert succeeds if every shard of the batch acknowledges. -/
theorem upsertPoints_ok (hu : Oblivious upsert) {s₀ : ShardId}
    (hs₀ : s₀ ∈ self.replicaHolder.shards) {order : IterOrder (ShardId × List PointId)}
    {points : List (Point V)} {localOnly : Bool} {w : σ}
    (h : ∀ p ∈ points, self.Acknowledges upsert w points localOnly (self.shardOf p.id)) :
    (self.upsertPoints upsert order points localOnly w).2 = some (.ok ()) := by
  obtain ⟨visited, rest, r, horder, heq, hcase⟩ :=
    upsertPoints_spec hu w hs₀ order points localOnly
  rw [heq]
  rcases hcase with ⟨rfl, -⟩ | ⟨-, acked, s, rfl, -, hs⟩
  · rfl
  · have hmem : s ∈ self.shardOrder order points := by rw [horder]; simp
    obtain ⟨p, hp, rfl⟩ := mem_shardOrder.mp hmem
    exact absurd (h p hp) hs

/-- Without shards nothing can be written. -/
theorem upsertPoints_of_no_shards (h : self.replicaHolder.shards.keys = [])
    (order : IterOrder (ShardId × List PointId)) {points : List (Point V)} (hne : points ≠ [])
    (localOnly : Bool) (w : σ) : self.upsertPoints upsert order points localOnly w =
      (w, some (.error (.storageError (.serviceError "No shards found")))) := by
  have hids : points.map Point.id ≠ [] := by simpa using hne
  rw [upsertPoints, ReplicaHolder.selectShards_of_keys_nil h hids]

/-- A batch that is not empty is only acknowledged by a collection that has shards. -/
theorem exists_shard_of_ok {order : IterOrder (ShardId × List PointId)} {points : List (Point V)}
    (hne : points ≠ []) {localOnly : Bool} {w : σ}
    (hok : (self.upsertPoints upsert order points localOnly w).2 = some (.ok ())) :
    ∃ s, s ∈ self.replicaHolder.shards := by
  rcases List.eq_nil_or_concat self.replicaHolder.shards.keys with hkeys | ⟨_, s, hkeys⟩
  · rw [upsertPoints_of_no_shards hkeys order hne] at hok
    exact nomatch hok
  · exact ⟨s, AList.mem_keys.mpr (by simp [hkeys])⟩

end Collection

end Smoldb
