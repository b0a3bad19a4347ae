import Smoldb.Storage.Upsert

/-!
# What a read returns

A read by id asks one shard after the other for the ids that belong there and puts the answers in a
row: `getPoints_ids` says what that row is, up to order, for whatever the shards answer.

A list asks all replicas of one shard after the other and keeps, of all points with one id, the
first.  `getPoints_none` says that the result is `firsts`, the first point of every id, in the order
of their ids.

The code collects a list in a `BTreeMap`, and inserts only what is not there yet.  `firsts` is the
same as a function of the answers, one behind the other, and a list is determined by what it
contains: two lists that are `IdSorted` and have the same points are equal
(`IdSorted.eq_of_mem_iff`).  So what is shown elsewhere about lists is shown about membership.

Both kinds of reads fail as a whole when a replica that they ask fails (`Collection.Lists`,
`listedAll`), and a read by id fails when there is no shard for an id.
-/

set_option autoImplicit false

namespace Smoldb

open LastWrite

variable {V : Type} {X : Crates V}

/-! ## Lists of points in the order of their ids -/

/-- The points are in strictly increasing order of their ids. -/
def IdSorted (ps : List (Point V)) : Prop := ps.Pairwise fun p q ↦ compare p.id q.id = .lt

theorem IdSorted.ids_nodup {ps : List (Point V)} (h : IdSorted ps) : (ps.map Point.id).Nodup := by
  rw [List.Nodup, List.pairwise_map]
  refine h.imp fun {p q} hlt heq ↦ ?_
  have hrefl : compare q.id q.id = .eq := Std.ReflCmp.compare_self
  rw [heq, hrefl] at hlt
  exact nomatch hlt

theorem IdSorted.nodup {ps : List (Point V)} (h : IdSorted ps) : ps.Nodup := h.ids_nodup.of_map

/-- A sorted list is determined by its elements. -/
theorem IdSorted.eq_of_mem_iff {ps qs : List (Point V)} (hp : IdSorted ps) (hq : IdSorted qs)
    (h : ∀ p, p ∈ ps ↔ p ∈ qs) : ps = qs := by
  have hperm : ps.Perm qs := (List.perm_ext_iff_of_nodup hp.nodup hq.nodup).mpr h
  refine List.Perm.eq_of_pairwise ?_ hp hq hperm
  intro p q _ _ hpq hqp
  rw [Std.OrientedOrd.eq_swap (a := q.id) (b := p.id), hpq] at hqp
  exact nomatch hqp

/-- The first point of every id, in the order of the ids. -/
def firsts (ps : List (Point V)) : List (Point V) :=
  (Collection.insertVacant ps ∅).toList.map Prod.snd

theorem getElem?_insertVacant (ps : List (Point V)) (id : PointId) :
    (Collection.insertVacant ps ∅)[id]? = first Point.id ps id := by
  have h := getElem?_foldl_insertIfNew Point.id (fun p : Point V ↦ p) ps
    (∅ : Std.ExtTreeMap PointId (Point V)) id
  rw [Collection.insertVacant, h]
  simp

theorem mem_firsts {ps : List (Point V)} {p : Point V} :
    p ∈ firsts ps ↔ first Point.id ps p.id = some p := by
  rw [firsts, List.mem_map]
  constructor
  · rintro ⟨⟨id, q⟩, hq, rfl⟩
    rw [Std.ExtTreeMap.mem_toList_iff_getElem?_eq_some, getElem?_insertVacant] at hq
    rwa [key_of_first hq]
  · intro h
    refine ⟨(p.id, p), ?_, rfl⟩
    rwa [Std.ExtTreeMap.mem_toList_iff_getElem?_eq_some, getElem?_insertVacant]

theorem firsts_sorted (ps : List (Point V)) : IdSorted (firsts ps) := by
  have hkey : ∀ e ∈ (Collection.insertVacant ps ∅).toList, e.2.id = e.1 := by
    intro e he
    rw [Std.ExtTreeMap.mem_toList_iff_getElem?_eq_some, getElem?_insertVacant] at he
    exact key_of_first he
  rw [IdSorted, firsts, List.pairwise_map]
  refine Std.ExtTreeMap.ordered_keys_toList.imp_of_mem fun {a b} ha hb hlt ↦ ?_
  rwa [hkey a ha, hkey b hb]

theorem insertVacant_append (ps qs : List (Point V)) (all : Std.ExtTreeMap PointId (Point V)) :
    Collection.insertVacant (ps ++ qs) all
      = Collection.insertVacant qs (Collection.insertVacant ps all) := List.foldl_append

namespace Collection

variable {self : Collection X}
  {read : ShardId → Replica → Option (List PointId) → Option (CollectionResult (List (Point V)))}

/-! ## Reads by id -/

/-- What the groups of a read are answered, for shards that answer `g`. -/
def groupAnswers (g : ShardId → PointId → Option (Point V))
    (groups : List (ShardId × List PointId)) :
    List (Point V) := groups.flatMap fun group ↦ group.2.filterMap (g group.1)

/-- The answers to the groups are the answers to the ids, rearranged. -/
theorem groupAnswers_perm (g : ShardId → PointId → Option (Point V)) (f : PointId → ShardId)
    (ids : List PointId) {groups : List (ShardId × List PointId)}
    (h : groups.Perm (Grouping.groups f ids)) :
    (groupAnswers g groups).Perm (ids.filterMap fun id ↦ g (f id) id) := by
  have hgroup : ∀ group ∈ Grouping.groups f ids, group.2.filterMap (g group.1)
      = group.2.filterMap fun id ↦ g (f id) id := by
    rintro ⟨s, as⟩ hs
    refine List.filterMap_congr fun id hid ↦ ?_
    rw [(Grouping.mem_groups.mp hs).1, List.mem_filter, decide_eq_true_iff] at hid
    rw [hid.2]
  have hflat : (Grouping.groups f ids).flatMap (fun group ↦ group.2.filterMap (g group.1))
      = ((Grouping.groups f ids).flatMap Prod.snd).filterMap fun id ↦ g (f id) id := by
    rw [List.flatMap_congr hgroup, List.filterMap_flatMap]
  refine (h.flatMap_right _).trans ?_
  rw [hflat]
  exact (Grouping.groups_flatMap_perm f ids).filterMap _

/-- The loop over the groups, when it gets to the end.  `Q` is what an id has to be like for the
shard to answer. -/
theorem run_readGroup {g : ShardId → PointId → Option (Point V)} {Q : ShardId → PointId → Prop}
    (h : ∀ s rs ids ps, self.replicaHolder.shards.lookup s = some rs →
      read s (.localShard rs.localShard) (some ids) = some (.ok ps) →
        (∀ id ∈ ids, Q s id) ∧ ps = ids.filterMap (g s))
    (groups : List (ShardId × List PointId)) (acc : List (Point V)) {result : List (Point V)}
    (hrun : Loop.run (self.readGroup read) groups acc = (result, none)) :
    (∀ group ∈ groups, ∀ id ∈ group.2, Q group.1 id) ∧ result = acc ++ groupAnswers g groups := by
  induction groups generalizing acc with
  | nil =>
    rw [Loop.run_nil, Prod.mk.injEq] at hrun
    refine ⟨fun _ hgroup ↦ absurd hgroup List.not_mem_nil, ?_⟩
    rw [← hrun.1, groupAnswers, List.flatMap_nil, List.append_nil]
  | cons group groups ih =>
    rw [Loop.run, readGroup, ReplicaHolder.getReplicaSet] at hrun
    cases hrs : self.replicaHolder.shards.lookup group.1 with
    | none => simp [hrs] at hrun
    | some rs =>
      cases hread : read group.1 (.localShard rs.localShard) (some group.2) with
      | none => simp [hrs, hread] at hrun
      | some r =>
        cases r with
        | error e => simp [hrs, hread] at hrun
        | ok ps =>
          simp only [hrs, hread] at hrun
          obtain ⟨hgroup, hps⟩ := h _ _ _ _ hrs hread
          obtain ⟨hgroups, hresult⟩ := ih _ hrun
          refine ⟨List.forall_mem_cons.mpr ⟨hgroup, hgroups⟩, ?_⟩
          rw [hresult, hps, groupAnswers, groupAnswers, List.flatMap_cons, List.append_assoc]

/-- The loop over the groups, when every shard answers. -/
theorem run_readGroup_total {g : ShardId → PointId → Option (Point V)}
    {groups : List (ShardId × List PointId)}
    (h : ∀ group ∈ groups, ∃ rs, self.replicaHolder.shards.lookup group.1 = some rs ∧
      read group.1 (.localShard rs.localShard) (some group.2)
        = some (.ok (group.2.filterMap (g group.1))))
    (acc : List (Point V)) :
    Loop.run (self.readGroup read) groups acc = (acc ++ groupAnswers g groups, none) := by
  induction groups generalizing acc with
  | nil => simp [groupAnswers]
  | cons group groups ih =>
    obtain ⟨rs, hrs, hread⟩ := h group (by simp)
    have hgroup : self.readGroup read group acc = (acc ++ group.2.filterMap (g group.1), none) := by
      simp only [readGroup, ReplicaHolder.getReplicaSet, hrs, hread]
    rw [Loop.run, hgroup]
    simp only
    rw [ih fun group' hg ↦ h group' (List.mem_cons_of_mem _ hg)]
    simp [groupAnswers]

/-- The loop over the groups is never left with a success. -/
theorem run_readGroup_ne {groups : List (ShardId × List PointId)} {acc result ps : List (Point V)} :
    Loop.run (self.readGroup read) groups acc ≠ (result, some (some (.ok ps))) := by
  induction groups generalizing acc with
  | nil => simp
  | cons group groups ih =>
    intro hrun
    rw [Loop.run, readGroup] at hrun
    cases hrs : self.replicaHolder.getReplicaSet group.1 with
    | error e => simp [hrs] at hrun
    | ok rs =>
      cases hread : read group.1 (.localShard rs.localShard) (some group.2) with
      | none => simp [hrs, hread] at hrun
      | some r =>
        cases r with
        | error e => simp [hrs, hread] at hrun
        | ok qs =>
          simp only [hrs, hread] at hrun
          exact ih hrun

/-- **A read by id that succeeds** returns, up to order, what the shard of each id answers. -/
theorem getPoints_ids {g : ShardId → PointId → Option (Point V)} {Q : ShardId → PointId → Prop}
    (h : ∀ s rs ids ps, self.replicaHolder.shards.lookup s = some rs →
      read s (.localShard rs.localShard) (some ids) = some (.ok ps) →
        (∀ id ∈ ids, Q s id) ∧ ps = ids.filterMap (g s))
    {order : IterOrder (ShardId × List PointId)} {ids : List PointId} {localOnly : Bool}
    {ps : List (Point V)}
    (hok : self.getPoints read order (some ids) none localOnly = some (.ok ps)) :
    (∀ id ∈ ids, Q (self.shardOf id) id) ∧
      ps.Perm (ids.filterMap fun id ↦ g (self.shardOf id) id) := by
  have hloop : ∀ groups, self.replicaHolder.selectShards ids = .ok groups →
      (∀ group ∈ order.arrange groups, ∀ id ∈ group.2, Q group.1 id) ∧
        ps = groupAnswers g (order.arrange groups) := by
    intro groups hsel
    simp only [getPoints, hsel] at hok
    cases hrun : Loop.run (self.readGroup read) (order.arrange groups) [] with
    | mk points exit =>
      cases exit with
      | none =>
        simp only [hrun, Option.some.injEq, Except.ok.injEq] at hok
        rw [← hok]
        exact run_readGroup h _ _ hrun
      | some result =>
        simp only [hrun] at hok
        rw [hok] at hrun
        exact absurd hrun run_readGroup_ne
  rcases List.eq_nil_or_concat self.replicaHolder.shards.keys with hkeys | ⟨_, s₀, hkeys⟩
  · by_cases hids : ids = []
    · subst hids
      rw [(hloop [] rfl).2, (order.perm []).eq_nil]
      exact ⟨fun _ hid ↦ absurd hid List.not_mem_nil, List.Perm.nil⟩
    · rw [getPoints, ReplicaHolder.selectShards_of_keys_nil hkeys hids] at hok
      exact nomatch hok
  · have hs₀ : s₀ ∈ self.replicaHolder.shards := AList.mem_keys.mpr (by simp [hkeys])
    obtain ⟨hgroups, hps⟩ := hloop _ (ReplicaHolder.selectShards_eq hs₀ ids)
    refine ⟨fun id hid ↦ ?_, by rw [hps]; exact groupAnswers_perm g self.shardOf ids (order.perm _)⟩
    have hmem : id ∈ ids.filter fun a ↦ self.shardOf a = self.shardOf id :=
      List.mem_filter.mpr ⟨hid, decide_eq_true rfl⟩
    have hgroup := Grouping.mem_groups.mpr ⟨rfl, List.ne_nil_of_mem hmem⟩
    exact hgroups _ ((order.perm _).mem_iff.mpr hgroup) id hmem

/-- A read by id succeeds if the shards answer for the ids that belong there. -/
theorem getPoints_ids_total {g : ShardId → PointId → Option (Point V)} {ids : List PointId}
    (h : ∀ s rs as, self.replicaHolder.shards.lookup s = some rs →
      (∀ id ∈ as, id ∈ ids ∧ self.shardOf id = s) →
        read s (.localShard rs.localShard) (some as) = some (.ok (as.filterMap (g s))))
    {s₀ : ShardId} (hs₀ : s₀ ∈ self.replicaHolder.shards)
    (order : IterOrder (ShardId × List PointId)) (localOnly : Bool) :
    ∃ ps, self.getPoints read order (some ids) none localOnly = some (.ok ps) ∧
      ps.Perm (ids.filterMap fun id ↦ g (self.shardOf id) id) := by
  have hgroups : ∀ group ∈ order.arrange (Grouping.groups self.shardOf ids),
      ∃ rs, self.replicaHolder.shards.lookup group.1 = some rs ∧
        read group.1 (.localShard rs.localShard) (some group.2)
          = some (.ok (group.2.filterMap (g group.1))) := by
    rintro ⟨s, as⟩ hgroup
    obtain ⟨has, hne⟩ := Grouping.mem_groups.mp ((order.perm _).mem_iff.mp hgroup)
    have hmem : ∀ id ∈ as, id ∈ ids ∧ self.shardOf id = s := by
      intro id hid
      rw [has, List.mem_filter, decide_eq_true_iff] at hid
      exact hid
    obtain ⟨id, hid⟩ := List.exists_mem_of_ne_nil as hne
    obtain ⟨rs, hrs⟩ := ReplicaHolder.exists_lookup_shardOf hs₀ id
    rw [show self.replicaHolder.shardOf id = s from (hmem id hid).2] at hrs
    exact ⟨rs, hrs, h s rs as hrs hmem⟩
  refine ⟨groupAnswers g (order.arrange (Grouping.groups self.shardOf ids)), ?_,
    groupAnswers_perm g self.shardOf ids (order.perm _)⟩
  have hsel : self.replicaHolder.selectShards ids = .ok (Grouping.groups self.shardOf ids) :=
    ReplicaHolder.selectShards_eq hs₀ ids
  have hrun := run_readGroup_total hgroups []
  rw [List.nil_append] at hrun
  simp only [getPoints, hsel, hrun]

/-! ## Lists -/

/-- What a replica answers to a list. -/
def listed (read : ShardId → Replica → Option (List PointId) →
    Option (CollectionResult (List (Point V)))) (s : ShardId) (r : Replica) : List (Point V) :=
  match read s r none with
  | some (.ok ps) => ps
  | _ => []

/-- Every replica of a shard answers a list. -/
def Lists (read : ShardId → Replica → Option (List PointId) →
    Option (CollectionResult (List (Point V)))) (localOnly : Bool)
    (entry : Sigma fun _ : ShardId ↦ ReplicaSet) : Prop :=
  ∀ r ∈ entry.2.replicas localOnly, read entry.1 r none = some (.ok (listed read entry.1 r))

/-- The answers of the replicas of a shard, in a row. -/
def listedAll (read : ShardId → Replica → Option (List PointId) →
    Option (CollectionResult (List (Point V)))) (localOnly : Bool)
    (entry : Sigma fun _ : ShardId ↦ ReplicaSet) : List (Point V) :=
  (entry.2.replicas localOnly).flatMap (listed read entry.1)

/-- Asking remote shards gives the answers of all of them, or a panic. -/
theorem operateRemotes_read {ρ : Type} (f : Replica → Option (CollectionResult ρ))
    (l : List RemoteShard) :
    (∃ results, ReplicaSet.operateRemotes (fun r (u : Unit) ↦ (u, f r)) l () = ((), some results) ∧
        (l.map Replica.remoteShard).map f = results.map some) ∨
      (ReplicaSet.operateRemotes (fun r (u : Unit) ↦ (u, f r)) l () = ((), none) ∧
        none ∈ (l.map Replica.remoteShard).map f) := by
  induction l with
  | nil => exact Or.inl ⟨[], rfl, rfl⟩
  | cons r l ih =>
    cases hr : f (.remoteShard r) with
    | none => exact Or.inr ⟨by simp [ReplicaSet.operateRemotes, hr], by simp [hr]⟩
    | some a =>
      rcases ih with ⟨results, hres, hmap⟩ | ⟨hnone, hmem⟩
      · refine Or.inl ⟨a :: results, by simp [ReplicaSet.operateRemotes, hr, hres], ?_⟩
        rw [List.map_cons, List.map_cons, hr, hmap, List.map_cons]
      · refine Or.inr ⟨by simp [ReplicaSet.operateRemotes, hr, hnone], ?_⟩
        rw [List.map_cons, List.map_cons]
        exact List.mem_cons_of_mem _ hmem

/-- Asking the replicas of a shard gives the answers of all of them, or a panic. -/
theorem executeClusterOperation_read {ρ : Type} (rs : ReplicaSet)
    (f : Replica → Option (CollectionResult ρ)) (localOnly : Bool) :
    (∃ results, (rs.executeClusterOperation (fun r (u : Unit) ↦ (u, f r)) localOnly ()).2
        = some results ∧ (rs.replicas localOnly).map f = results.map some) ∨
      ((rs.executeClusterOperation (fun r (u : Unit) ↦ (u, f r)) localOnly ()).2 = none ∧
        none ∈ (rs.replicas localOnly).map f) := by
  rw [ReplicaSet.executeClusterOperation, ReplicaSet.replicas]
  cases hl : f (.localShard rs.localShard) with
  | none => exact Or.inr ⟨by simp, by simp [hl]⟩
  | some a =>
    cases localOnly with
    | true => exact Or.inl ⟨[a], by simp, by simp [hl]⟩
    | false =>
      rcases operateRemotes_read f rs.remotes with ⟨results, hres, hmap⟩ | ⟨hnone, hmem⟩
      · exact Or.inl ⟨a :: results, by simp [hres], by simpa [hl] using hmap⟩
      · exact Or.inr ⟨by simp [hnone], by simpa [hl] using hmem⟩

theorem collectResults_eq_ok {ρ : Type} {results : List (CollectionResult ρ)} {as : List ρ} :
    collectResults results = .ok as ↔ results = as.map .ok := by
  induction results generalizing as with
  | nil =>
    rw [collectResults, Except.ok.injEq]
    constructor
    · rintro rfl; rfl
    · intro h; exact (List.map_eq_nil_iff.mp h.symm).symm
  | cons r results ih =>
    cases r with
    | error e => cases as <;> simp [collectResults]
    | ok a =>
      rw [collectResults, except_map_eq_ok]
      cases as with
      | nil => simp
      | cons b bs => simp [ih, and_comm]

/-- One round of the loop, when all replicas answer. -/
theorem listShard_of_lists {shardId : Option ShardId} {localOnly : Bool}
    {entry : Sigma fun _ : ShardId ↦ ReplicaSet} (hskip : shardId.any (entry.1 ≠ ·) = false)
    (h : Lists read localOnly entry) (all : Std.ExtTreeMap PointId (Point V)) :
    listShard read shardId localOnly entry all
      = (insertVacant (listedAll read localOnly entry) all, none) := by
  have hmap : (entry.2.replicas localOnly).map (fun r ↦ read entry.1 r none)
      = (((entry.2.replicas localOnly).map (listed read entry.1)).map .ok).map some := by
    rw [List.map_map, List.map_map]
    exact List.map_congr_left h
  rw [listShard, hskip, if_neg (by simp)]
  rcases executeClusterOperation_read entry.2 (fun r ↦ read entry.1 r none) localOnly with
    ⟨results, hres, hresults⟩ | ⟨-, hmem⟩
  · rw [hmap, (List.map_injective_iff.mpr (Option.some_injective _)).eq_iff] at hresults
    simp only [hres, collectResults_eq_ok.mpr hresults.symm]
    rw [listedAll, List.flatMap_def]
  · rw [hmap] at hmem
    exact absurd hmem (by simp)

/-- One round of the loop, when some replica does not answer. -/
theorem listShard_of_not_lists {shardId : Option ShardId} {localOnly : Bool}
    {entry : Sigma fun _ : ShardId ↦ ReplicaSet} (hskip : shardId.any (entry.1 ≠ ·) = false)
    (h : ¬ Lists read localOnly entry) (all : Std.ExtTreeMap PointId (Point V)) :
    ∃ r, (listShard read shardId localOnly entry all).2 = some r ∧ ∀ ps, r ≠ some (.ok ps) := by
  rw [listShard, hskip, if_neg (by simp)]
  rcases executeClusterOperation_read entry.2 (fun r ↦ read entry.1 r none) localOnly with
    ⟨results, hres, hresults⟩ | ⟨hnone, -⟩
  · simp only [hres]
    cases hc : collectResults results with
    | error e => exact ⟨_, rfl, fun ps h ↦ nomatch h⟩
    | ok lists =>
      refine absurd (fun r hr ↦ ?_) h
      rw [collectResults_eq_ok.mp hc] at hresults
      have hmem : read entry.1 r none ∈ (lists.map Except.ok).map some := by
        rw [← hresults]
        exact List.mem_map.mpr ⟨r, hr, rfl⟩
      rw [List.mem_map] at hmem
      obtain ⟨x, hx, hread⟩ := hmem
      obtain ⟨ps, -, rfl⟩ := List.mem_map.mp hx
      rw [listed, ← hread]
  · simp only [hnone]
    exact ⟨none, rfl, fun ps h ↦ nomatch h⟩

/-- The entries a list is about. -/
def selected (shardId : Option ShardId) (entries : List (Sigma fun _ : ShardId ↦ ReplicaSet)) :
    List (Sigma fun _ : ShardId ↦ ReplicaSet) :=
  entries.filter fun entry ↦ !shardId.any (entry.1 ≠ ·)

theorem selected_cons_of_skip {shardId : Option ShardId}
    {entry : Sigma fun _ : ShardId ↦ ReplicaSet}
    (h : shardId.any (entry.1 ≠ ·) = true) (entries : List (Sigma fun _ : ShardId ↦ ReplicaSet)) :
    selected shardId (entry :: entries) = selected shardId entries :=
  List.filter_cons_of_neg (by rw [h]; decide)

theorem selected_cons_of_keep {shardId : Option ShardId}
    {entry : Sigma fun _ : ShardId ↦ ReplicaSet}
    (h : shardId.any (entry.1 ≠ ·) = false) (entries : List (Sigma fun _ : ShardId ↦ ReplicaSet)) :
    selected shardId (entry :: entries) = entry :: selected shardId entries :=
  List.filter_cons_of_pos (by rw [h]; decide)

/-- The loop over the shards, when all replicas of all of them answer. -/
theorem run_listShard {shardId : Option ShardId} {localOnly : Bool}
    {entries : List (Sigma fun _ : ShardId ↦ ReplicaSet)}
    (h : ∀ entry ∈ selected shardId entries, Lists read localOnly entry)
    (all : Std.ExtTreeMap PointId (Point V)) :
    Loop.run (listShard read shardId localOnly) entries all
      = (insertVacant ((selected shardId entries).flatMap (listedAll read localOnly))
        all, none) := by
  induction entries generalizing all with
  | nil => rfl
  | cons entry entries ih =>
    rw [Loop.run]
    cases hskip : shardId.any (entry.1 ≠ ·) with
    | true =>
      rw [selected_cons_of_skip hskip] at h ⊢
      rw [listShard, hskip, if_pos rfl]
      exact ih h all
    | false =>
      rw [selected_cons_of_keep hskip] at h ⊢
      rw [listShard_of_lists hskip (h entry (by simp)), List.flatMap_cons, insertVacant_append]
      exact ih (fun e he ↦ h e (List.mem_cons_of_mem _ he)) _

/-- The loop over the shards, when some replica does not answer. -/
theorem run_listShard_of_not {shardId : Option ShardId} {localOnly : Bool}
    {entries : List (Sigma fun _ : ShardId ↦ ReplicaSet)}
    (h : ¬ ∀ entry ∈ selected shardId entries, Lists read localOnly entry)
    (all : Std.ExtTreeMap PointId (Point V)) :
    ∃ r, (Loop.run (listShard read shardId localOnly) entries all).2 = some r ∧
      ∀ ps, r ≠ some (.ok ps) := by
  induction entries generalizing all with
  | nil => exact absurd (fun entry he ↦ absurd he (by simp [selected])) h
  | cons entry entries ih =>
    rw [Loop.run_cons]
    cases hskip : shardId.any (entry.1 ≠ ·) with
    | true =>
      rw [selected_cons_of_skip hskip] at h
      have hround : listShard read shardId localOnly entry all = (all, none) := by
        rw [listShard, hskip, if_pos rfl]
      rw [hround]
      exact ih h all
    | false =>
      rw [selected_cons_of_keep hskip] at h
      by_cases hentry : Lists read localOnly entry
      · rw [listShard_of_lists hskip hentry]
        refine ih (fun hall ↦ h ?_) _
        exact List.forall_mem_cons.mpr ⟨hentry, hall⟩
      · obtain ⟨r, hr, hne⟩ := listShard_of_not_lists hskip hentry all
        rw [hr]
        exact ⟨r, rfl, hne⟩

/-- **A list succeeds exactly if all replicas it asks answer**, and then it is the first point of
every id, with the shards in the order of the map and the shard of the node itself before its
remotes. -/
theorem getPoints_none {order : IterOrder (ShardId × List PointId)} {shardId : Option ShardId}
    {localOnly : Bool} {ps : List (Point V)} :
    self.getPoints read order none shardId localOnly = some (.ok ps) ↔
      (∀ entry ∈ selected shardId self.replicaHolder.shards.entries, Lists read localOnly entry) ∧
        ps = firsts ((selected shardId self.replicaHolder.shards.entries).flatMap
          (listedAll read localOnly)) := by
  by_cases h : ∀ entry ∈ selected shardId self.replicaHolder.shards.entries,
      Lists read localOnly entry
  · simp only [getPoints, run_listShard h, Option.some.injEq, Except.ok.injEq]
    exact ⟨fun hps ↦ ⟨h, hps.symm⟩, fun hps ↦ hps.2.symm⟩
  · obtain ⟨r, hr, hne⟩ := run_listShard_of_not h ∅
    refine ⟨fun hok ↦ ?_, fun hps ↦ absurd hps.1 h⟩
    simp only [getPoints] at hok
    cases hrun : Loop.run (listShard read shardId localOnly)
        self.replicaHolder.shards.entries ∅ with
    | mk all exit =>
      rw [hrun] at hr
      simp only at hr
      rw [hrun, hr] at hok
      exact absurd hok (hne ps)

/-! ## Reads that fail -/

/-- **A read that fails returns an error**, as long as no replica panics. -/
theorem getPoints_ne_none (h : ∀ s r ids, read s r ids ≠ none)
    (order : IterOrder (ShardId × List PointId)) (ids : Option (List PointId))
    (shardId : Option ShardId) (localOnly : Bool) :
    self.getPoints read order ids shardId localOnly ≠ none := by
  have hlist : ∀ entry all, (listShard read shardId localOnly entry all).2 ≠ some none := by
    intro entry all hexit
    rw [listShard] at hexit
    split at hexit
    · exact nomatch hexit
    rcases executeClusterOperation_read entry.2 (fun r ↦ read entry.1 r none) localOnly with
      ⟨results, hres, -⟩ | ⟨-, hmem⟩
    · simp only [hres] at hexit
      cases hc : collectResults results <;> simp [hc] at hexit
    · obtain ⟨r, -, hr⟩ := List.mem_map.mp hmem
      exact h _ _ _ hr
  have hgroup : ∀ group points, (self.readGroup read group points).2 ≠ some none := by
    intro group points hexit
    rw [readGroup] at hexit
    cases hrs : self.replicaHolder.getReplicaSet group.1 with
    | error e => simp [hrs] at hexit
    | ok rs =>
      cases hread : read group.1 (.localShard rs.localShard) (some group.2) with
      | none => exact h _ _ _ hread
      | some r => cases r <;> simp [hrs, hread] at hexit
  intro hnone
  cases ids with
  | none =>
    simp only [getPoints] at hnone
    rcases hrun : Loop.run (listShard read shardId localOnly) self.replicaHolder.shards.entries ∅
      with ⟨all, - | result⟩
    · simp [hrun] at hnone
    · simp only [hrun] at hnone
      subst hnone
      obtain ⟨entry, -, all', hexit⟩ := Loop.exists_of_run_eq (congrArg Prod.snd hrun)
      exact hlist entry all' hexit
  | some ids =>
    cases shardId with
    | some s =>
      cases hrs : self.replicaHolder.getReplicaSet s with
      | error e => simp [getPoints, hrs] at hnone
      | ok rs =>
        simp only [getPoints, hrs] at hnone
        exact h _ _ _ hnone
    | none =>
      cases hsel : self.replicaHolder.selectShards ids with
      | error e => simp [getPoints, hsel] at hnone
      | ok groups =>
        simp only [getPoints, hsel] at hnone
        rcases hrun : Loop.run (self.readGroup read) (order.arrange groups) []
          with ⟨points, - | result⟩
        · simp [hrun] at hnone
        · simp only [hrun] at hnone
          subst hnone
          obtain ⟨group, -, points', hexit⟩ := Loop.exists_of_run_eq (congrArg Prod.snd hrun)
          exact hgroup group points' hexit

end Collection

end Smoldb
