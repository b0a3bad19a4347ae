import Smoldb.Cluster.Interleaving

/-!
# Do the nodes end up with the same?

Not if two upserts in progress at the same time have different points for one id: each coordinator
stores its own point first and the other one's after it, and the two nodes are left with each
other's, `replicas_diverge`.

It is the only way to go wrong.  As long as the upserts in progress agree on the point of an id,
every node has either stored that point already or it is due there, `Traffic.Heading`.  When nothing
is in progress any more nothing is due, and all nodes have the point that was started last.

## The invariant

`Traffic.Heading` is about one id.

* `sound`: every upsert in progress is as `Cluster/Interleaving.lean` has it, so what is due is the
  last point of its id in a batch, and goes to the shard of the id.
* `latest`: every upsert in progress that has the id at all has the point for it that was started
  last.  Here the agreement comes in, when an upsert is started: those in progress have its point,
  or do not have the id.
* `held`: each node has the point that was started last, or it is due there.

A step keeps it by `Progress.step_spec`.  Either it changes nothing, and everything that was due
still is; or it stores a point that was due.  If that is the point of the id, then it is the right
one, and `held` holds at that node; if it is another point, then it has another key, and nothing
happens under the key of the id.  That the ids are numbers matters here: two of them do not have the
same text.
-/

set_option autoImplicit false

namespace Smoldb

open LastWrite

variable {V : Type} {X : Crates V}

/-- The upserts in progress agree on the point of an id. -/
def Traffic.Agrees (t : Traffic V) (id : PointId) : Prop :=
  ∀ o ∈ t.inProgress, ∀ o' ∈ t.inProgress, ∀ p p', last Point.id o.points id = some p →
    last Point.id o'.points id = some p' → p = p'

/-- Upserts of points with numbers for ids are started at nodes of the cluster. -/
def Action.Valid (peers : List PeerId) : Action V → Prop
  | .start peer _ points => peer ∈ peers ∧ ∀ p ∈ points, p.id.isId = true
  | .step _ _ => True

/-- **The invariant.**  Every node holds the point of the id that was started last, or an upsert in
progress is going to store it there. -/
structure Traffic.Heading (X : Crates V) (name : CollectionName) (peers : List PeerId)
    (f : PointId → ShardId) (id : PointId) (t : Traffic V) : Prop where
  sound : ∀ o ∈ t.inProgress, o.Sound X name peers f
  latest : ∀ o ∈ t.inProgress, ∀ p, last Point.id o.points id = some p →
    last Point.id t.started id = some p
  held : ∀ m ∈ peers, (t.stores ⟨m, name, f id⟩ 0)[id.intoString]?
        = (last Point.id t.started id).map X.encode ∨
      ∃ o ∈ t.inProgress, ∃ p, last Point.id t.started id = some p ∧ o.Due X m p

section

variable {cl : Cluster X} {name : CollectionName} {shards : List ShardId} {peers : List PeerId}

/-! ## Starting an upsert -/

theorem Collection.begin_sound {peer : PeerId} {c : Collection X} (hc : cl.Hosts peer name c)
    (hk : c.Knows shards (peers.erase peer)) (order : IterOrder (ShardId × List PointId))
    {points : List (Point V)} (hnum : ∀ p ∈ points, p.id.isId = true) :
    (c.begin peer order points).Sound X name peers c.shardOf := by
  have hcall : ∀ call ∈ (c.begin peer order points).calls, ∃ rs,
      c.replicaHolder.shards.lookup call.shard = some rs ∧ call.replica ∈ rs.replicas false ∧
        call.points = shardPoints c.shardOf points call.shard := by
    intro call hcall
    obtain ⟨s, -, hcall⟩ := List.mem_flatMap.mp hcall
    obtain ⟨rs, hrs, r, hr, rfl⟩ := mem_shardCalls.mp hcall
    exact ⟨rs, hrs, hr, rfl⟩
  refine ⟨hnum, ?_, ?_, ?_, trivial⟩
  · rintro m p (⟨call, hmem, -, hp⟩ | hdue)
    · obtain ⟨rs, -, -, hpoints⟩ := hcall call hmem
      rw [hpoints] at hp
      exact (mem_shardPoints.mp hp).2
    · exact False.elim hdue
  · intro call hmem p hp
    obtain ⟨rs, -, -, hpoints⟩ := hcall call hmem
    rw [hpoints] at hp
    exact (mem_shardPoints.mp hp).1
  · intro call hmem shard hshard
    obtain ⟨rs, hrs, hr, -⟩ := hcall call hmem
    have hrem : shard ∈ rs.remotes := by simpa [hshard, ReplicaSet.replicas] using hr
    have hpeer := (hk.remotes _ rs hrs).mem_iff.mp (List.mem_map.mpr ⟨shard, hrem, rfl⟩)
    refine ⟨List.mem_of_mem_erase hpeer, ?_⟩
    rw [(hc.wellFormed.remote _ rs hrs shard hrem).2, hc.id]

/-- When an upsert starts, its points are due at every node. -/
theorem Cluster.Replicated.begin_due (h : cl.Replicated name shards peers) {peer : PeerId}
    {c : Collection X} (hk : c.Knows shards (peers.erase peer))
    (order : IterOrder (ShardId × List PointId)) {points : List (Point V)} {p : Point V}
    (hp : last Point.id points p.id = some p) {m : PeerId} (hm : m ∈ peers) :
    (c.begin peer order points).Due X m p := by
  obtain ⟨s₀, hs₀⟩ := hk.exists_mem h.nonempty
  obtain ⟨rs, hrs⟩ := ReplicaHolder.exists_lookup_shardOf hs₀ p.id
  have hreplica : ∃ r ∈ rs.replicas false, r.target peer = m := by
    by_cases hself : m = peer
    · exact ⟨_, List.mem_cons_self, hself.symm⟩
    · obtain ⟨shard, hshard, hpeer⟩ := List.mem_map.mp
        ((hk.remotes _ rs hrs).mem_iff.mpr ((List.mem_erase_of_ne hself).mpr hm))
      exact ⟨.remoteShard shard, List.mem_cons_of_mem _ (List.mem_map.mpr ⟨shard, hshard, rfl⟩),
        hpeer⟩
  obtain ⟨r, hr, htarget⟩ := hreplica
  refine Or.inl ⟨⟨c.shardOf p.id, r, shardPoints c.shardOf points (c.shardOf p.id)⟩, ?_, htarget,
    mem_shardPoints.mpr ⟨rfl, hp⟩⟩
  exact List.mem_flatMap.mpr ⟨c.shardOf p.id, Collection.mem_shardOrder.mpr
      ⟨p, mem_of_last hp, rfl⟩,
    mem_shardCalls.mpr ⟨rs, hrs, r, hr, rfl⟩⟩

/-! ## One thing that happens -/

variable {f : PointId → ShardId} {id : PointId} {t t' : Traffic V}

theorem Traffic.Heading.start (h : cl.Replicated name shards peers) {peer : PeerId}
    {c : Collection X} (hc : cl.Hosts peer name c) (hk : c.Knows shards (peers.erase peer))
    (hf : c.shardOf = f) (ht : t.Heading X name peers f id)
    (order : IterOrder (ShardId × List PointId)) {points : List (Point V)}
    (hnum : ∀ p ∈ points, p.id.isId = true)
    (hagree : Traffic.Agrees ⟨t.stores, t.inProgress ++ [c.begin peer order points],
      t.started ++ points⟩ id) :
    Traffic.Heading X name peers f id ⟨t.stores, t.inProgress ++ [c.begin peer order points],
      t.started ++ points⟩ := by
  have hnew : c.begin peer order points ∈ t.inProgress ++ [c.begin peer order points] := by simp
  refine ⟨fun o ho ↦ ?_, fun o ho p hp ↦ ?_, fun m hm ↦ ?_⟩
  · rcases List.mem_append.mp ho with ho | ho
    · exact ht.sound o ho
    · rw [List.mem_singleton.mp ho, ← hf]
      exact Collection.begin_sound hc hk order hnum
  · rw [last_append]
    cases hl : last Point.id points id with
    | some q => rw [Option.some_or, hagree o ho _ hnew p q hp hl]
    | none =>
      rcases List.mem_append.mp ho with ho | ho
      · exact ht.latest o ho p hp
      · rw [List.mem_singleton.mp ho] at hp
        exact absurd (hl.symm.trans hp) fun h ↦ nomatch h
  · rw [last_append]
    cases hl : last Point.id points id with
    | some q =>
      have hqid : q.id = id := key_of_last hl
      rw [← hqid] at hl
      exact Or.inr ⟨_, hnew, q, rfl, h.begin_due hk order hl hm⟩
    | none =>
      rw [Option.none_or]
      rcases ht.held m hm with hheld | ⟨o, ho, p, hp, hdue⟩
      · exact Or.inl hheld
      · exact Or.inr ⟨o, List.mem_append_left _ ho, p, hp, hdue⟩

/-- An upsert that is finished has nothing due. -/
theorem Progress.not_due_of_finished {o : Progress V} (h : o.finished = true) (m : PeerId)
    (p : Point V) : ¬ o.Due X m p := by
  obtain ⟨peer, points, calls, stage⟩ := o
  cases stage with
  | ready =>
    obtain rfl : calls = [] := List.isEmpty_iff.mp h
    rintro (⟨call, hcall, -⟩ | hdue)
    · exact absurd hcall (by simp)
    · exact hdue
  | _ => exact nomatch h

theorem Traffic.Heading.finish (ht : t.Heading X name peers f id) {i : ℕ} {o : Progress V}
    (hi : t.inProgress[i]? = some o) (hfin : o.finished = true) :
    Traffic.Heading X name peers f id { t with inProgress := t.inProgress.eraseIdx i } := by
  have hsub : ∀ o' ∈ t.inProgress.eraseIdx i, o' ∈ t.inProgress :=
    fun o' ho' ↦ (List.eraseIdx_sublist _ _).subset ho'
  refine ⟨fun o' ho' ↦ ht.sound o' (hsub o' ho'), fun o' ho' ↦ ht.latest o' (hsub o' ho'),
    fun m hm ↦ ?_⟩
  rcases ht.held m hm with hheld | ⟨o', ho', p, hp, hdue⟩
  · exact Or.inl hheld
  · -- what is due is due in another upsert
    obtain ⟨j, hj⟩ := List.mem_iff_getElem?.mp ho'
    have hne : j ≠ i := by
      rintro rfl
      obtain rfl : o = o' := Option.some.inj (hi.symm.trans hj)
      exact Progress.not_due_of_finished hfin m p hdue
    exact Or.inr ⟨o', List.mem_eraseIdx_iff_getElem?.mpr ⟨j, hne, hj⟩, p, hp, hdue⟩

/-- What is stored under the key of a number after one more insert. -/
theorem Stores.getElem?_put {w : Stores} {pl pl' : Place} {p : Point V} {k : String} :
    (w.put X pl p pl' 0)[k]?
      = if pl' = pl ∧ Segment.keyOf p = k then some (X.encode p) else (w pl' 0)[k]? := by
  rw [Stores.put_eq_putAll, Stores.putAll, LocalShard.putAll_zero, Segment.getElem?_putAll,
    WriteLog.single]
  by_cases hpl : pl' = pl
  · rw [if_pos hpl, last_singleton]
    by_cases hk : Segment.keyOf p = k <;> simp [hpl, hk]
  · simp [hpl]

theorem Traffic.Heading.step [X.PayloadsRoundTrip]
    (hroute : ∀ m ∈ peers, ∀ c, cl.collection m name = some c → c.shardOf = f)
    (hid : id.isId = true) (ht : t.Heading X name peers f id) {i : ℕ}
    {o o' : Progress V} (hi : t.inProgress[i]? = some o)
    {order : IterOrder (ShardId × List PointId)} {w' : Stores}
    (hstep : o.step cl name order t.stores = some (w', o')) :
    Traffic.Heading X name peers f id
      { t with stores := w', inProgress := t.inProgress.set i o' } := by
  have ho : o ∈ t.inProgress := List.mem_of_getElem? hi
  obtain ⟨hsound, hpoints, hadv⟩ := Progress.step_spec hroute (ht.sound o ho) hstep
  have hmem : o' ∈ t.inProgress.set i o' := by
    obtain ⟨hlt, -⟩ := List.getElem?_eq_some_iff.mp hi
    exact List.mem_set hlt o'
  -- of the upserts before, all but `o` are still there
  have hcases : ∀ q ∈ t.inProgress, q = o ∨ q ∈ t.inProgress.set i o' := by
    intro q hq
    obtain ⟨j, hj⟩ := List.mem_iff_getElem?.mp hq
    by_cases hij : i = j
    · subst hij
      exact Or.inl (Option.some.inj (hj.symm.trans hi))
    · refine Or.inr (List.mem_iff_getElem?.mpr ⟨j, ?_⟩)
      rw [List.getElem?_set_ne hij]
      exact hj
  refine ⟨fun q hq ↦ ?_, fun q hq p hp ↦ ?_, fun m hm ↦ ?_⟩
  · rcases List.mem_or_eq_of_mem_set hq with hq | rfl
    · exact ht.sound q hq
    · exact hsound
  · rcases List.mem_or_eq_of_mem_set hq with hq | rfl
    · exact ht.latest q hq p hp
    · rw [hpoints] at hp
      exact ht.latest o ho p hp
  cases hadv with
  | idle hdue =>
    rcases ht.held m hm with hheld | ⟨q, hq, p, hp, hqdue⟩
    · exact Or.inl hheld
    · rcases hcases q hq with rfl | hq
      · exact Or.inr ⟨o', hmem, p, hp, hdue m p hqdue⟩
      · exact Or.inr ⟨q, hq, p, hp, hqdue⟩
  | store m₁ q₁ hq₁ hdue =>
    have hlast := (ht.sound o ho).last m₁ q₁ hq₁
    simp only [Stores.getElem?_put]
    by_cases hwrite : (⟨m, name, f id⟩ : Place) = ⟨m₁, name, f q₁.id⟩ ∧
        Segment.keyOf q₁ = id.intoString
    · -- the point of the id is stored at this node
      have hq₁id : q₁.id = id := PointId.eq_of_intoString
        ((ht.sound o ho).numeric q₁ (mem_of_last hlast)) hid hwrite.2
      rw [hq₁id] at hlast
      rw [if_pos hwrite, ht.latest o ho q₁ hlast]
      exact Or.inl rfl
    · rw [if_neg hwrite]
      rcases ht.held m hm with hheld | ⟨q, hq, p, hp, hqdue⟩
      · exact Or.inl hheld
      · refine Or.inr ?_
        rcases hcases q hq with rfl | hq
        · rcases hdue m p hqdue with hdue | ⟨rfl, rfl⟩
          · exact ⟨o', hmem, p, hp, hdue⟩
          · have hpid : p.id = id := key_of_last hp
            exact absurd ⟨by rw [hpid], by rw [Segment.keyOf, hpid]⟩ hwrite
        · exact ⟨q, hq, p, hp, hqdue⟩

/-- **Whatever happens keeps the invariant**, as long as the upserts in progress agree. -/
theorem Traffic.Heading.act [X.PayloadsRoundTrip] (h : cl.Replicated name shards peers)
    (hroute : ∀ m ∈ peers, ∀ c, cl.collection m name = some c → c.shardOf = f)
    (hid : id.isId = true) (ht : t.Heading X name peers f id) {a : Action V} (ha : a.Valid peers)
    (hact : cl.act name t a = some t') (hagree : t'.Agrees id) : t'.Heading X name peers f id := by
  cases a with
  | start peer order points =>
    obtain ⟨c, hc, hk⟩ := h.hosts peer ha.1
    rw [Cluster.act, hc.collection, Option.map_some, Option.some_inj] at hact
    subst hact
    exact ht.start h hc hk (hroute peer ha.1 c hc.collection) order ha.2 hagree
  | step i order =>
    rw [Cluster.act, Option.bind_eq_some_iff] at hact
    obtain ⟨o, hi, hact⟩ := hact
    cases hfin : o.finished with
    | true =>
      rw [hfin, if_pos rfl, Option.some_inj] at hact
      subst hact
      exact ht.finish hi hfin
    | false =>
      rw [hfin, if_neg Bool.false_ne_true, Option.map_eq_some_iff] at hact
      obtain ⟨⟨w', o'⟩, hstep, rfl⟩ := hact
      exact ht.step hroute hid hi hstep

/-- What happens one after the other keeps the invariant. -/
theorem Traffic.Heading.acts [X.PayloadsRoundTrip] (h : cl.Replicated name shards peers)
    (hroute : ∀ m ∈ peers, ∀ c, cl.collection m name = some c → c.shardOf = f)
    (hid : id.isId = true) {as : List (Action V)} (has : ∀ a ∈ as, a.Valid peers)
    (ht : t.Heading X name peers f id) (hacts : cl.acts name as t = some t')
    (hagree : ∀ n t'', cl.acts name (as.take n) t = some t'' → t''.Agrees id) :
    t'.Heading X name peers f id := by
  induction as generalizing t with
  | nil => rwa [← Option.some.inj hacts]
  | cons a as ih =>
    rw [Cluster.acts, Option.bind_eq_some_iff] at hacts
    obtain ⟨t₁, hact, hacts⟩ := hacts
    have hstep : ∀ n, cl.acts name ((a :: as).take (n + 1)) t = cl.acts name (as.take n) t₁ := by
      intro n
      rw [List.take_succ_cons, Cluster.acts, hact, Option.bind_some]
    have ht₁ : t₁.Heading X name peers f id :=
      ht.act h hroute hid (has a List.mem_cons_self) hact (hagree 1 t₁ (by rw [hstep]; rfl))
    exact ih (fun b hb ↦ has b (List.mem_cons_of_mem _ hb)) ht₁ hacts
      fun n t'' hn ↦ hagree (n + 1) t'' ((hstep n).trans hn)

end

/-! ## When all is done -/

/-- A step leaves the batch as it is. -/
theorem Progress.step_points {cl : Cluster X} {name : CollectionName}
    {order : IterOrder (ShardId × List PointId)} {o o' : Progress V} {w w' : Stores}
    (h : o.step cl name order w = some (w', o')) : o'.points = o.points := by
  rw [step] at h
  repeat' split at h
  all_goals first | (cases h; rfl) | cases h

/-- Every upsert in progress was started. -/
theorem Cluster.acts_inProgress {cl : Cluster X} {name : CollectionName} {as : List (Action V)}
    {t t' : Traffic V} (h : cl.acts name as t = some t') : ∀ o ∈ t'.inProgress,
      (∃ o₀ ∈ t.inProgress, o.points = o₀.points) ∨
        ∃ peer order, .start peer order o.points ∈ as := by
  induction as generalizing t with
  | nil =>
    rw [← Option.some.inj h]
    exact fun o ho ↦ Or.inl ⟨o, ho, rfl⟩
  | cons a as ih =>
    rw [acts, Option.bind_eq_some_iff] at h
    obtain ⟨t₁, hact, h⟩ := h
    intro o ho
    rcases ih h o ho with ⟨o₁, ho₁, hpoints⟩ | ⟨peer, order, hmem⟩
    swap
    · exact Or.inr ⟨peer, order, List.mem_cons_of_mem _ hmem⟩
    cases a with
    | start peer order points =>
      rw [act, Option.map_eq_some_iff] at hact
      obtain ⟨c, -, rfl⟩ := hact
      rcases List.mem_append.mp ho₁ with ho₁ | ho₁
      · exact Or.inl ⟨o₁, ho₁, hpoints⟩
      · rw [List.mem_singleton.mp ho₁] at hpoints
        exact Or.inr ⟨peer, order, by rw [hpoints]; exact List.mem_cons_self⟩
    | step i order =>
      rw [act, Option.bind_eq_some_iff] at hact
      obtain ⟨q, hi, hact⟩ := hact
      cases hfin : q.finished with
      | true =>
        rw [hfin, if_pos rfl, Option.some_inj] at hact
        subst hact
        exact Or.inl ⟨o₁, (List.eraseIdx_sublist _ _).subset ho₁, hpoints⟩
      | false =>
        rw [hfin, if_neg Bool.false_ne_true, Option.map_eq_some_iff] at hact
        obtain ⟨⟨w', q'⟩, hstep, rfl⟩ := hact
        rcases List.mem_or_eq_of_mem_set ho₁ with ho₁ | rfl
        · exact Or.inl ⟨o₁, ho₁, hpoints⟩
        · exact Or.inl ⟨q, List.mem_of_getElem? hi, by rw [hpoints, Progress.step_points hstep]⟩

/-- No upsert is in progress. -/
def Traffic.empty (V : Type) (w : Stores) : Traffic V := ⟨w, [], []⟩

/-- **Replicas converge where upserts agree.**  Let clients upsert points with numbers for ids to
any nodes of an empty cluster, with the inserts, requests and replies of all upserts interleaved in
any way, and let nothing be in progress at the end.  If at no time two upserts in progress had
different points for an id, then every node has the point of the id that was started last. -/
theorem replicas_converge [X.PointsRoundTrip] [X.PayloadsRoundTrip] {cl : Cluster X}
    {name : CollectionName} {shards : List ShardId} {peers : List PeerId}
    (h : cl.Replicated name shards peers) {w : Stores} (hw : ∀ m ∈ peers, w.Fresh m name)
    {as : List (Action V)} (has : ∀ a ∈ as, a.Valid peers) {t : Traffic V}
    (hacts : cl.acts name as (.empty V w) = some t) (hdone : t.inProgress = []) {id : PointId}
    (hid : id.isId = true)
    (hagree : ∀ n t', cl.acts name (as.take n) (.empty V w) = some t' → t'.Agrees id) :
    ∀ m ∈ peers, ∀ c, cl.collection m name = some c →
      t.stores.read X m name (c.shardOf id) id = last Point.id t.started id := by
  intro m hm c hc
  have hroute : ∀ m ∈ peers, ∀ c', cl.collection m name = some c' → c'.shardOf = c.shardOf := by
    intro m' hm' c' hc'
    obtain ⟨c₁, hc₁, hk₁⟩ := h.hosts m hm
    obtain ⟨c₂, hc₂, hk₂⟩ := h.hosts m' hm'
    obtain rfl : c = c₁ := Option.some.inj (hc.symm.trans hc₁.collection)
    obtain rfl : c' = c₂ := Option.some.inj (hc'.symm.trans hc₂.collection)
    exact hk₂.shardOf_eq hk₁
  have hempty : (Traffic.empty V w).Heading X name peers c.shardOf id :=
    ⟨fun o ho ↦ absurd ho (by simp [Traffic.empty]),
      fun o ho ↦ absurd ho (by simp [Traffic.empty]), fun m' hm' ↦ Or.inl (by
        simp [Traffic.empty, hw m' hm' _ 0])⟩
  obtain ⟨-, -, hheld⟩ := hempty.acts h hroute hid has hacts hagree
  rcases hheld m hm with hheld | ⟨o, ho, -⟩
  · rw [Stores.read, Segment.read, hheld]
    cases last Point.id t.started id <;> simp [Except.toOption]
  · rw [hdone] at ho
    exact absurd ho (by simp)

/-- The `i`-th upsert in progress gets on by some steps. -/
def steps (i n : ℕ) : List (Action Bool) := List.replicate n (.step i .insertion)

/-- Two nodes are sent different points for one id.  Each stores its own, and then the other's. -/
def crossing : List (Action Bool) :=
  [.start 101 .insertion [⟨.id 1, true⟩], .start 102 .insertion [⟨.id 1, false⟩]]
    ++ steps 0 3 ++ steps 1 3 ++ steps 0 6 ++ steps 0 6

/-- Both upserts are done, and the nodes are left with different payloads. -/
theorem replicas_diverge :
    (∀ a ∈ crossing, a.Valid [101, 102]) ∧
    ((Cluster.joined Crates.bool "c" [101, 102]).acts "c" crossing (.empty Bool .empty)).map
      (fun t ↦ (t.inProgress.length, t.stores.read Crates.bool 101 "c" 0 (.id 1),
        t.stores.read Crates.bool 102 "c" 0 (.id 1)))
      = some (0, some ⟨.id 1, false⟩, some ⟨.id 1, true⟩) := by
  refine ⟨fun a ha ↦ ?_, by decide⟩
  cases a with
  | start peer order points =>
    have hstart : (peer = 101 ∧ order = .insertion ∧ points = [⟨.id 1, true⟩]) ∨
        (peer = 102 ∧ order = .insertion ∧ points = [⟨.id 1, false⟩]) := by
      simpa [crossing, steps] using ha
    rcases hstart with ⟨rfl, -, rfl⟩ | ⟨rfl, -, rfl⟩ <;> simp [Action.Valid, PointId.isId]
  | step i order => trivial

/-- The same schedule, with different ids. -/
def passing : List (Action Bool) :=
  [.start 101 .insertion [⟨.id 1, true⟩], .start 102 .insertion [⟨.id 2, false⟩]]
    ++ steps 0 3 ++ steps 1 3 ++ steps 0 6 ++ steps 0 6

theorem start_mem_passing {peer : PeerId} {order : IterOrder (ShardId × List PointId)}
    {points : List (Point Bool)} (h : .start peer order points ∈ passing) :
    (peer = 101 ∧ order = .insertion ∧ points = [⟨.id 1, true⟩]) ∨
      (peer = 102 ∧ order = .insertion ∧ points = [⟨.id 2, false⟩]) := by
  simpa [passing, steps] using h

/-- Both nodes have the point that was sent to the first. -/
theorem replicas_converge_passing : ∃ t,
    (Cluster.joined Crates.bool "c" [101, 102]).acts "c" passing (.empty Bool .empty) = some t ∧
    t.stores.read Crates.bool 102 "c" 0 (.id 1) = last Point.id t.started (.id 1) := by
  have hrep : (Cluster.joined Crates.bool "c" [101, 102]).Replicated "c" [0, 1] [101, 102] :=
    Cluster.joined_replicated (by decide)
  have hrun : ∃ t, (Cluster.joined Crates.bool "c" [101, 102]).acts "c" passing
      (.empty Bool .empty) = some t ∧ t.inProgress = [] := ⟨_, rfl, rfl⟩
  obtain ⟨t, ht, hdone⟩ := hrun
  have hvalid : ∀ a ∈ passing, a.Valid [101, 102] := by
    intro a ha
    cases a with
    | start peer order points =>
      rcases start_mem_passing ha with ⟨rfl, -, rfl⟩ | ⟨rfl, -, rfl⟩ <;>
        simp [Action.Valid, PointId.isId]
    | step i order => trivial
  have hagree : ∀ n t', (Cluster.joined Crates.bool "c" [101, 102]).acts "c" (passing.take n)
      (.empty Bool .empty) = some t' → t'.Agrees (.id 1) := by
    intro n t' hn
    -- only one of the two batches has the id
    have hpoint : ∀ o ∈ t'.inProgress, ∀ p, last Point.id o.points (.id 1) = some p →
        p = ⟨.id 1, true⟩ := by
      intro o ho p hp
      rcases Cluster.acts_inProgress hn o ho with ⟨o₀, ho₀, -⟩ | ⟨peer, order, hstart⟩
      · exact absurd ho₀ (by simp [Traffic.empty])
      · have hmem := mem_of_last hp
        have hid : p.id = .id 1 := key_of_last hp
        rcases start_mem_passing (List.mem_of_mem_take hstart) with
          ⟨-, -, hpoints⟩ | ⟨-, -, hpoints⟩
        · simpa [hpoints] using hmem
        · rw [hpoints, List.mem_singleton] at hmem
          rw [hmem] at hid
          exact absurd hid (by decide)
    intro o ho o' ho' p p' hp hp'
    rw [hpoint o ho p hp, hpoint o' ho' p' hp']
  exact ⟨t, ht, replicas_converge hrep (fun m _ ↦ Stores.empty_fresh m "c") hvalid ht hdone rfl
    hagree 102 (by decide) _ (Cluster.joined_hosts (by decide)).collection⟩

end Smoldb
