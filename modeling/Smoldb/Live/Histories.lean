import Smoldb.Live.Calls

/-!
# The history of a request that is answered

What can be said of an upsert that is acknowledged, whatever came in between, is said of its
history, the calls it has made with what each of them returned.

* For every shard of the batch there is a stretch in the history where the points of the shard are
  inserted, each of them with success, and the tree is flushed, with success as well
  (`ran_upsertSteps`).
* If the collection has remote shards and the upsert is not local, one of the calls to other nodes
  has returned a success, for each of the shards (`ran_upsertSteps_remote`).
* For a read by id it is what the gets were answered: `PointHistory.Answers` says that each id has
  been looked up in its own shard, that what was found there is returned, and that all that is
  returned was found so (`ran_getSteps`).

Of the calls of a request, answered well or not, it is said what they can be: every insert of an
upsert is of a point of the batch, under its key and in its shard (`calls_upsertSteps`), what it
sends to other nodes are its own points (`calls_upsertSteps_forwards`), and an upsert that is local
calls nobody (`calls_upsertSteps_local`).

`Program.Ran` is from `Lib/History.lean`, and `Program.Calls` from `Lib/Program.lean`.  The lemmas here go down the program
as it is put together, with one for each function: `Ran.handle_ok` takes a history apart where one
program goes on with another, and the loops are inductions on the list that is looped over.  Nothing
here is about trees or about time, so nothing has to be said about other requests.
-/

set_option autoImplicit false

namespace Smoldb

open Program (Ran)

variable {V : Type} {X : Crates V}

/-- The calls of a request so far, with what they were answered. -/
abbrev PointHistory (V : Type) := List (Σ op : PointCall V, op.Reply)

/-! ## Upserts -/

/-- The groups of an upsert or a read, if it gets that far. -/
theorem ReplicaHolder.groups_of_selectShards {self : ReplicaHolder X} {ids : List PointId}
    {groups : List (ShardId × List PointId)} (h : self.selectShards ids = .ok groups) :
    groups = Grouping.groups self.shardOf ids := by
  rcases List.eq_nil_or_concat self.shards.keys with hkeys | ⟨_, s₀, hkeys⟩
  · by_cases hids : ids = []
    · subst hids
      exact (Except.ok.inj h).symm
    · rw [selectShards_of_keys_nil hkeys hids] at h
      exact absurd h (by simp)
  · have hs₀ : s₀ ∈ self.shards := AList.mem_keys.mpr (by simp [hkeys])
    rw [selectShards_eq hs₀] at h
    exact (Except.ok.inj h).symm

/-- The history of an `insert_points` that succeeds, from its `i`-th insert on. -/
def Segment.insertHistory (X : Crates V) (s : ShardId) : ℕ → List (Point V) → PointHistory V
  | _, [] => [⟨.flush s, .ok ()⟩]
  | i, p :: ps => ⟨.insert s i (keyOf p) (X.encode p), .ok ()⟩ :: insertHistory X s (i + 1) ps

theorem Segment.ran_insertSteps {s : ShardId} {i : ℕ} {points : List (Point V)}
    {h : PointHistory V} (hran : (insertSteps X s i points).Ran h (.ok ())) :
    h = insertHistory X s i points := by
  induction points generalizing i h with
  | nil =>
    obtain ⟨r, h', rfl, hnext⟩ := hran.of_call_ok
    cases r with
    | error e => exact absurd hnext.of_error.2 (by simp)
    | ok u => rw [hnext.of_ok.1, insertHistory]
  | cons p ps ih =>
    simp only [insertSteps, X.pointToString_eq] at hran
    obtain ⟨r, h', rfl, hnext⟩ := hran.of_call_ok
    cases r with
    | error e => exact absurd hnext.of_error.2 (by simp)
    | ok u => rw [ih hnext, insertHistory, keyOf]

/-- The last point with its key is inserted, and behind it there are nothing but inserts of points
with other keys, and the flush. -/
theorem Segment.insertHistory_split {s : ShardId} {i : ℕ} {points : List (Point V)} {k : String}
    {p : Point V} (hp : LastWrite.last keyOf points k = some p) :
    ∃ A B j, insertHistory X s i points
        = A ++ ⟨.insert s j k (X.encode p), .ok ()⟩ :: (B ++ [⟨.flush s, .ok ()⟩]) ∧
      ∀ c ∈ B, ∃ j' q, keyOf q ≠ k ∧
        c = (⟨.insert s j' (keyOf q) (X.encode q), .ok ()⟩ : Σ op : PointCall V, op.Reply) := by
  have hbehind : ∀ (ps : List (Point V)) (i : ℕ), (∀ q ∈ ps, keyOf q ≠ k) →
      ∃ B, insertHistory X s i ps = B ++ [⟨.flush s, .ok ()⟩] ∧ ∀ c ∈ B, ∃ j' q, keyOf q ≠ k ∧
        c = (⟨.insert s j' (keyOf q) (X.encode q), .ok ()⟩ : Σ op : PointCall V, op.Reply) := by
    intro ps
    induction ps with
    | nil => exact fun i _ ↦ ⟨[], rfl, fun c hc ↦ absurd hc (by simp)⟩
    | cons q ps ih =>
      intro i hps
      obtain ⟨hq, hps⟩ := List.forall_mem_cons.mp hps
      obtain ⟨B, heq, hB⟩ := ih (i + 1) hps
      refine ⟨_ :: B, by rw [insertHistory, heq]; rfl, List.forall_mem_cons.mpr ⟨?_, hB⟩⟩
      exact ⟨i, q, hq, rfl⟩
  induction points generalizing i with
  | nil => exact absurd hp (by simp)
  | cons q ps ih =>
    rw [LastWrite.last_cons] at hp
    cases hlast : LastWrite.last keyOf ps k with
    | some p' =>
      rw [hlast, Option.some_or] at hp
      obtain ⟨A, B, j, heq, hB⟩ := ih (i := i + 1) (hlast.trans hp)
      exact ⟨_ :: A, B, j, by rw [insertHistory, heq]; rfl, hB⟩
    | none =>
      rw [hlast, Option.none_or] at hp
      by_cases hk : keyOf q = k
      · rw [if_pos hk, Option.some_inj] at hp
        obtain ⟨B, heq, hB⟩ := hbehind ps (i + 1) (LastWrite.last_eq_none_iff.mp hlast)
        exact ⟨[], B, i, by rw [insertHistory, heq, hk, hp]; rfl, hB⟩
      · rw [if_neg hk] at hp
        exact absurd hp (by simp)

theorem LocalShard.ran_upsertSteps {shard : LocalShard} {s : ShardId} {points : List (Point V)}
    {h : PointHistory V} (hran : (shard.upsertSteps X s points).Ran h (.ok ())) :
    h = Segment.insertHistory X s 0 points := by
  rw [upsertSteps] at hran
  split at hran
  · exact Segment.ran_insertSteps hran.mapError_ok
  · exact absurd hran.of_error.2 (by simp)

/-- If it is an insert, it is into such a shard. -/
def PointCall.InsertsInto (P : ShardId → Prop) : PointCall V → Prop
  | insert s .. => P s
  | flush _ => True
  | get .. => True
  | upsertRemote .. => True

theorem PointCall.InsertsInto.mono {P Q : ShardId → Prop} {op : PointCall V} (h : op.InsertsInto P)
    (hPQ : ∀ s, P s → Q s) : op.InsertsInto Q := by
  cases op with
  | insert s i key value => exact hPQ s h
  | flush s => trivial
  | get s i key => trivial
  | upsertRemote s shard points => trivial

theorem ReplicaSet.calls_operateRemotesSteps {ρ : Type} {P : PointCall V → Prop}
    {operation : Replica → PointProgram V CollectionError ρ} {rs : List RemoteShard}
    (h : ∀ r ∈ rs, (operation (.remoteShard r)).Calls P) :
    (operateRemotesSteps operation rs).Calls P := by
  induction rs with
  | nil => exact trivial
  | cons r rs ih =>
    obtain ⟨hr, hrs⟩ := List.forall_mem_cons.mp h
    exact hr.attempt.bind fun _ ↦ (ih hrs).bind fun _ ↦ trivial

theorem ReplicaSet.calls_operateSteps {ρ : Type} {P : PointCall V → Prop} {self : ReplicaSet}
    {operation : Replica → PointProgram V CollectionError ρ}
    (hlocal : (operation (.localShard self.localShard)).Calls P) {localOnly : Bool}
    (hremote : localOnly = false → ∀ r ∈ self.remotes, (operation (.remoteShard r)).Calls P) :
    (self.operateSteps operation localOnly).Calls P := by
  refine hlocal.attempt.bind fun _ ↦ ?_
  split
  · exact trivial
  · rename_i hfalse
    exact (calls_operateRemotesSteps (hremote (Bool.eq_false_iff.mpr hfalse))).bind fun _ ↦ trivial

/-- A remote shard that has answered well has been called. -/
theorem ReplicaSet.ran_operateRemotesSteps {ρ : Type}
    {operation : Replica → PointProgram V CollectionError ρ} {rs : List RemoteShard}
    {results : List (CollectionResult ρ)} {h : PointHistory V}
    (hran : (operateRemotesSteps operation rs).Ran h (.ok results)) {a : ρ}
    (ha : .ok a ∈ results) :
    ∃ r ∈ rs, ∃ h', (operation (.remoteShard r)).Ran h' (.ok a) ∧ ∀ c ∈ h', c ∈ h := by
  induction rs generalizing results h with
  | nil =>
    rw [Program.ok.inj (show Ran (.ok []) h (.ok results) from hran).of_ok.2] at ha
    exact absurd ha (by simp)
  | cons r rs ih =>
    obtain ⟨h₁, h₂, result, rfl, hfirst, hrest⟩ := hran.bind_ok
    obtain ⟨h₃, h₄, results', rfl, hrests, hcons⟩ :=
      Ran.bind_ok (show Ran (_ >>= _) h₂ _ from hrest)
    obtain ⟨rfl, heq⟩ := (show Ran (.ok (result :: results')) h₄ _ from hcons).of_ok
    rw [Program.ok.inj heq] at ha
    obtain ha | ha := List.mem_cons.mp ha
    · obtain ⟨b, hb, hran⟩ | ⟨e, he, -⟩ := hfirst.attempt_ok
      · obtain rfl := Except.ok.inj (ha.trans hb)
        exact ⟨r, List.mem_cons_self, h₁, hran, fun c hc ↦ List.mem_append_left _ hc⟩
      · exact absurd (ha.trans he) (by simp)
    · obtain ⟨r', hr', h', hran, hmem⟩ := ih hrests ha
      exact ⟨r', List.mem_cons_of_mem _ hr', h', hran, fun c hc ↦
        List.mem_append_right _ (List.mem_append_left _ (hmem c hc))⟩

/-- The first result is that of the shard of the node, and what comes behind its calls are those of
the remote shards. -/
theorem ReplicaSet.ran_operateSteps {ρ : Type} {P : PointCall V → Prop} {self : ReplicaSet}
    {operation : Replica → PointProgram V CollectionError ρ} {localOnly : Bool}
    (hP : ∀ r, (operation (.remoteShard r)).Calls P)
    {results : List (CollectionResult ρ)} {h : PointHistory V}
    (hran : (self.operateSteps operation localOnly).Ran h (.ok results)) :
    ∃ h₁ h₂ r rest, h = h₁ ++ h₂ ∧ results = r :: rest ∧ (∀ c ∈ h₂, P c.1) ∧
      ∀ a, r = .ok a → (operation (.localShard self.localShard)).Ran h₁ (.ok a) := by
  obtain ⟨h₁, h₂, r, rfl, hlocal, hrest⟩ := hran.bind_ok
  have hfirst : ∀ a, r = .ok a → (operation (.localShard self.localShard)).Ran h₁ (.ok a) := by
    intro a ha
    obtain ⟨b, hb, hran⟩ | ⟨e, he, -⟩ := hlocal.attempt_ok
    · rwa [Except.ok.inj (ha.symm.trans hb)]
    · exact absurd (ha.symm.trans he) (by simp)
  refine ⟨h₁, h₂, r, results.tail, rfl, ?_⟩
  cases localOnly with
  | true =>
    obtain ⟨rfl, heq⟩ := (show Ran (.ok [r]) h₂ (.ok results) from hrest).of_ok
    rw [Program.ok.inj heq]
    exact ⟨rfl, fun c hc ↦ absurd hc (by simp), hfirst⟩
  | false =>
    obtain ⟨h₃, h₄, rest, rfl, hran₃, hcons⟩ := Ran.bind_ok (show Ran (_ >>= _) h₂ _ from hrest)
    obtain ⟨rfl, heq⟩ := (show Ran (.ok (r :: rest)) h₄ (.ok results) from hcons).of_ok
    rw [Program.ok.inj heq, List.append_nil]
    exact ⟨rfl, (hran₃.calls (calls_operateRemotesSteps fun r _ ↦ hP r)).1, hfirst⟩

/-- An `insert_points` calls sled for its points, and flushes. -/
theorem Segment.calls_insertSteps {P : PointCall V → Prop} {s : ShardId} {points : List (Point V)}
    (hinsert : ∀ i, ∀ p ∈ points, P (.insert s i (keyOf p) (X.encode p))) (hflush : P (.flush s))
    (i : ℕ) : (insertSteps X s i points).Calls P := by
  induction points generalizing i with
  | nil =>
    refine ⟨hflush, fun r ↦ ?_⟩
    cases r <;> exact trivial
  | cons p ps ih =>
    simp only [insertSteps, X.pointToString_eq]
    refine ⟨hinsert i p List.mem_cons_self, fun r ↦ ?_⟩
    cases r with
    | error e => exact trivial
    | ok u => exact ih (fun i q hq ↦ hinsert i q (List.mem_cons_of_mem p hq)) (i + 1)

namespace Collection

variable {self : Collection X} {points : List (Point V)} {localOnly : Bool} {h : PointHistory V}

theorem calls_exit {P : PointCall V → Prop} (o : Option (Option (CollectionResult Unit))) :
    (exit o : PointProgram V CollectionError Unit).Calls P := by
  rcases o with _ | _ | r
  · exact trivial
  · exact trivial
  · exact Program.calls_ofExcept r

/-- A group calls what its shard and the remote shards call. -/
theorem calls_groupSteps {P : PointCall V → Prop} {group : ShardId × List PointId}
    (hlocal : (Segment.insertSteps X group.1 0 (groupPoints points group.2)).Calls P)
    (hremote : localOnly = false → ∀ replicaSet,
      self.replicaHolder.shards.lookup group.1 = some replicaSet → ∀ shard ∈ replicaSet.remotes,
        P (.upsertRemote group.1 shard (groupPoints points group.2))) :
    (self.groupSteps points localOnly group).Calls P := by
  rw [groupSteps]
  cases hrs : self.replicaHolder.shards.lookup group.1 with
  | none => exact trivial
  | some replicaSet =>
    refine (ReplicaSet.calls_operateSteps ?_ fun hlocal shard hshard ↦ ?_).bind fun _ ↦
      calls_exit _
    · rw [replicaSteps, LocalShard.upsertSteps]
      split
      · exact hlocal.mapError _
      · exact trivial
    · exact ⟨hremote hlocal replicaSet hrs shard hshard, fun r ↦ Program.calls_ofExcept r⟩

theorem ran_groupSteps {group : ShardId × List PointId}
    (hran : (self.groupSteps points localOnly group).Ran h (.ok ())) :
    ∃ h', h = Segment.insertHistory X group.1 0 (groupPoints points group.2) ++ h' ∧
      ∀ c ∈ h', c.1.InsertsInto fun _ ↦ False := by
  rw [groupSteps] at hran
  cases hrs : self.replicaHolder.shards.lookup group.1 with
  | none =>
    rw [hrs] at hran
    exact absurd hran.of_error.2 (by simp)
  | some replicaSet =>
    rw [hrs] at hran
    obtain ⟨h₁, h₂, results, rfl, hresults, hexit⟩ := hran.bind_ok
    have hremote : ∀ r, (replicaSteps X group.1 (groupPoints points group.2)
        (.remoteShard r)).Calls (PointCall.InsertsInto fun _ ↦ False) :=
      fun r ↦ ⟨trivial, fun r ↦ Program.calls_ofExcept r⟩
    obtain ⟨h₃, h₄, r, rest, rfl, rfl, hremotes, hlocal⟩ :=
      ReplicaSet.ran_operateSteps hremote hresults
    cases r with
    | error e => exact absurd (show Ran (.error _) h₂ _ from hexit).of_error.2 (by simp)
    | ok u =>
      refine ⟨h₄ ++ h₂, ?_, fun c hc ↦ ?_⟩
      · rw [← LocalShard.ran_upsertSteps (hlocal u rfl), List.append_assoc]
      · obtain hc | hc := List.mem_append.mp hc
        · exact hremotes c hc
        · exact (hexit.calls (calls_exit _)).1 c hc

/-- A point of the batch is in the group of its shard. -/
theorem exists_group (order : IterOrder (ShardId × List PointId)) {p : Point V} (hp : p ∈ points) :
    ∃ group ∈ order.arrange (Grouping.groups self.shardOf (points.map Point.id)),
      group.1 = self.shardOf p.id := by
  obtain ⟨group, hgroup, hs⟩ := List.mem_map.mp (Grouping.mem_groups_keys.mpr
    ⟨p.id, List.mem_map_of_mem hp, rfl⟩ :
      self.shardOf p.id ∈ (Grouping.groups self.shardOf (points.map Point.id)).map Prod.fst)
  exact ⟨group, (order.perm _).mem_iff.mpr hgroup, hs⟩

/-- **An upsert that is acknowledged** has inserted the points of each shard of the batch, and has
flushed its tree behind them, and inserts nothing into the shard any more. -/
theorem ran_upsertSteps {order : IterOrder (ShardId × List PointId)}
    (hran : (self.upsertSteps order points localOnly).Ran h (.ok ())) {p : Point V}
    (hp : p ∈ points) : ∃ h₁ h₂, h = h₁ ++ (Segment.insertHistory X (self.shardOf p.id) 0
      (shardPoints self.shardOf points (self.shardOf p.id)) ++ h₂) ∧
      ∀ c ∈ h₂, c.1.InsertsInto (· ≠ self.shardOf p.id) := by
  rw [upsertSteps] at hran
  cases hsel : self.replicaHolder.selectShards (points.map Point.id) with
  | error e =>
    rw [hsel] at hran
    exact absurd hran.of_error.2 (by simp)
  | ok groups =>
    rw [hsel, ReplicaHolder.groups_of_selectShards hsel] at hran
    obtain ⟨group, hgroup, hs⟩ := exists_group order hp
    have hnodup : ((order.arrange (Grouping.groups self.shardOf (points.map Point.id))).map
        Prod.fst).Nodup := shardOrder_nodup order points
    have hall := Ran.foldlM_ok (P := fun done _ h ↦ (done.map Prod.fst).Nodup → ∀ g ∈ done,
        ∃ h₁ h₂ : PointHistory V,
          h = h₁ ++ (Segment.insertHistory X g.1 0 (groupPoints points g.2) ++ h₂) ∧
          ∀ c ∈ h₂, c.1.InsertsInto (· ≠ g.1))
      (fun done g _ h _ h' hdone hround hnodup g' hg' ↦ ?_)
      (fun _ g hg ↦ absurd hg (by simp)) hran hnodup group hgroup
    · rwa [← hs, ← groupPoints_of_mem hgroup]
    · rw [List.map_append, List.nodup_append] at hnodup
      obtain ⟨h'', rfl, hrest⟩ := ran_groupSteps hround
      obtain hg' | hg' := List.mem_append.mp hg'
      · -- the group that has just been written is another one
        obtain ⟨h₁, h₂, rfl, hh₂⟩ := hdone hnodup.1 g' hg'
        have hne : g.1 ≠ g'.1 := fun heq ↦ hnodup.2.2 _ (List.mem_map_of_mem hg') _
          (List.mem_singleton_self _) heq.symm
        have hcalls := (hround.calls (calls_groupSteps
          (P := PointCall.InsertsInto (· = g.1))
          (Segment.calls_insertSteps (fun _ _ _ ↦ rfl) trivial 0) fun _ _ _ _ _ ↦ trivial)).1
        refine ⟨h₁, h₂ ++ (Segment.insertHistory X g.1 0 (groupPoints points g.2) ++ h''),
          by simp only [List.append_assoc], fun c hc ↦ ?_⟩
        obtain hc | hc := List.mem_append.mp hc
        · exact hh₂ c hc
        · exact (hcalls c hc).mono fun s hs ↦ hs ▸ hne
      · obtain rfl := List.mem_singleton.mp hg'
        exact ⟨h, h'', rfl, fun c hc ↦ (hrest c hc).mono fun s hs ↦ hs.elim⟩

end Collection

/-! ## What an upsert calls -/

/-- If it is an insert, it is of one of these points, under its key and in its shard. -/
def PointCall.Inserts (X : Crates V) (f : PointId → ShardId) (points : List (Point V)) :
    PointCall V → Prop
  | insert s _ key value => ∃ p ∈ points, f p.id = s ∧ Segment.keyOf p = key ∧ X.encode p = value
  | flush _ => True
  | get .. => True
  | upsertRemote .. => True

namespace Collection

variable {self : Collection X}

/-- **An upsert inserts nothing but its points**, each under its key and in its shard. -/
theorem calls_upsertSteps (order : IterOrder (ShardId × List PointId)) (points : List (Point V))
    (localOnly : Bool) : (self.upsertSteps order points localOnly).Calls
      (PointCall.Inserts X self.shardOf points) := by
  rw [upsertSteps]
  cases hsel : self.replicaHolder.selectShards (points.map Point.id) with
  | error e => exact trivial
  | ok groups =>
    obtain rfl := ReplicaHolder.groups_of_selectShards hsel
    refine Program.calls_foldlM (fun group hgroup _ ↦ ?_) ()
    refine calls_groupSteps (Segment.calls_insertSteps (fun i p hp ↦ ?_) trivial 0)
      fun _ _ _ _ _ ↦ trivial
    rw [groupPoints_of_mem hgroup, mem_shardPoints] at hp
    exact ⟨p, LastWrite.mem_of_last hp.2, hp.1, rfl, rfl⟩

end Collection

/-! ## Calls to other nodes -/

/-- If it is a call to another node, it is for the collection, and of these points. -/
def PointCall.Forwards (peer : PeerId) (name : CollectionName) (points : List (Point V)) :
    PointCall V → Prop
  | insert .. => True
  | flush _ => True
  | get .. => True
  | upsertRemote _ shard ps =>
    shard.collection = name ∧ shard.peerId ≠ peer ∧ ∀ p ∈ ps, p ∈ points

/-- It is not a call to another node. -/
def PointCall.StaysLocal : PointCall V → Prop
  | insert .. => True
  | flush _ => True
  | get .. => True
  | upsertRemote .. => False

namespace Collection

variable {self : Collection X} {points : List (Point V)}

/-- **An upsert sends nothing but its points**, and for its own collection. -/
theorem calls_upsertSteps_forwards {peer : PeerId} {name : CollectionName}
    (hremotes : ∀ s rs, self.replicaHolder.shards.lookup s = some rs → ∀ shard ∈ rs.remotes,
      shard.collection = name ∧ shard.peerId ≠ peer)
    (order : IterOrder (ShardId × List PointId)) (points : List (Point V)) (localOnly : Bool) :
    (self.upsertSteps order points localOnly).Calls (PointCall.Forwards peer name points) := by
  rw [upsertSteps]
  cases hsel : self.replicaHolder.selectShards (points.map Point.id) with
  | error e => exact trivial
  | ok groups =>
    obtain rfl := ReplicaHolder.groups_of_selectShards hsel
    refine Program.calls_foldlM (fun group hgroup _ ↦ ?_) ()
    refine calls_groupSteps (Segment.calls_insertSteps (fun _ _ _ ↦ trivial) trivial 0)
      fun _ rs hrs shard hshard ↦ ?_
    obtain ⟨hname, hpeer⟩ := hremotes group.1 rs hrs shard hshard
    refine ⟨hname, hpeer, fun p hp ↦ ?_⟩
    rw [groupPoints_of_mem hgroup, mem_shardPoints] at hp
    exact LastWrite.mem_of_last hp.2

/-- **An upsert of another node calls nobody.** -/
theorem calls_upsertSteps_local (order : IterOrder (ShardId × List PointId))
    (points : List (Point V)) :
    (self.upsertSteps order points true).Calls PointCall.StaysLocal := by
  rw [upsertSteps]
  cases self.replicaHolder.selectShards (points.map Point.id) with
  | error e => exact trivial
  | ok groups =>
    refine Program.calls_foldlM (fun group _ _ ↦ ?_) ()
    exact calls_groupSteps (Segment.calls_insertSteps (fun _ _ _ ↦ trivial) trivial 0) (by simp)

/-- If a shard with remote shards lets the upsert go on, one of them has taken the points. -/
theorem ran_groupSteps_remote {group : ShardId × List PointId} {h : PointHistory V}
    (hran : (self.groupSteps points false group).Ran h (.ok ())) {rs : ReplicaSet}
    (hrs : self.replicaHolder.shards.lookup group.1 = some rs) (hne : rs.remotes ≠ []) :
    ∃ shard ∈ rs.remotes,
      ⟨.upsertRemote group.1 shard (groupPoints points group.2), .ok ()⟩ ∈ h := by
  rw [groupSteps, hrs] at hran
  obtain ⟨h₁, h₂, results, rfl, hresults, hexit⟩ := hran.bind_ok
  have hack : Acknowledged rs false results := by
    rw [← acknowledge_eq_none_iff (X := X) (s := group.1)]
    cases hack : acknowledge X group.1 rs false results with
    | none => rfl
    | some result =>
      rw [hack] at hexit
      rcases result with _ | e | u
      · exact absurd hexit.of_panicked.2 (by simp)
      · exact absurd (show Ran (.error e) h₂ _ from hexit).of_error.2 (by simp)
      · exact absurd hack (acknowledge_ne_ok _ _ _ _)
  obtain ⟨⟨rest, rfl⟩, hcount⟩ := hack
  obtain ⟨h₃, h₄, r, rfl, hlocal, hrest⟩ := hresults.bind_ok
  obtain ⟨h₅, h₆, results, rfl, hremotes, hcons⟩ := Ran.bind_ok (show Ran (_ >>= _) h₄ _ from hrest)
  obtain ⟨rfl, heq⟩ := (show Ran (.ok (r :: results)) h₆ _ from hcons).of_ok
  obtain ⟨-, rfl⟩ := List.cons.inj (Program.ok.inj heq)
  obtain ⟨a, ha, hok⟩ : ∃ a ∈ rest, a.isOk = true := by
    have hcount := hcount.resolve_left Bool.false_ne_true
    have hlength := List.length_pos_iff.mpr hne
    have hpos : 0 < rest.countP fun r ↦ r.isOk := by
      rw [List.countP_cons, ReplicaSet.numReplicas, defaultConsistencyFactor] at hcount
      split at hcount <;> omega
    exact List.countP_pos_iff.mp hpos
  obtain ⟨u, rfl⟩ : ∃ u, a = .ok u := by
    cases a with
    | ok u => exact ⟨u, rfl⟩
    | error e => exact absurd hok (by simp [Except.isOk, Except.toBool])
  obtain ⟨shard, hshard, h', hran, hmem⟩ := ReplicaSet.ran_operateRemotesSteps hremotes ha
  refine ⟨shard, hshard, List.mem_append_left _ (List.mem_append_right _
    (List.mem_append_left _ (hmem _ ?_)))⟩
  obtain ⟨reply, h'', rfl, hnext⟩ := Ran.of_call_ok
    (show Ran (.call (.upsertRemote group.1 shard (groupPoints points group.2)) .ofExcept) h' _
      from hran)
  rw [(hnext.ofExcept_ok).2]
  exact List.mem_cons_self

/-- **An upsert that is acknowledged** has been taken, for every shard of the batch that has remote
shards, by one of them. -/
theorem ran_upsertSteps_remote {order : IterOrder (ShardId × List PointId)} {h : PointHistory V}
    (hran : (self.upsertSteps order points false).Ran h (.ok ())) {p : Point V} (hp : p ∈ points)
    {rs : ReplicaSet} (hrs : self.replicaHolder.shards.lookup (self.shardOf p.id) = some rs)
    (hne : rs.remotes ≠ []) : ∃ shard ∈ rs.remotes,
      ⟨.upsertRemote (self.shardOf p.id) shard
        (shardPoints self.shardOf points (self.shardOf p.id)), .ok ()⟩ ∈ h := by
  rw [upsertSteps] at hran
  cases hsel : self.replicaHolder.selectShards (points.map Point.id) with
  | error e =>
    rw [hsel] at hran
    exact absurd hran.of_error.2 (by simp)
  | ok groups =>
    rw [hsel, ReplicaHolder.groups_of_selectShards hsel] at hran
    obtain ⟨group, hgroup, hs⟩ := exists_group order hp
    have hall := Ran.foldlM_ok (P := fun done _ h ↦ ∀ g ∈ done, ∀ rs,
        self.replicaHolder.shards.lookup g.1 = some rs → rs.remotes ≠ [] →
          ∃ shard ∈ rs.remotes, (⟨.upsertRemote g.1 shard (groupPoints points g.2), .ok ()⟩ :
            Σ op : PointCall V, op.Reply) ∈ h)
      (fun done g _ h _ h' hdone hround g' hg' rs hrs hne ↦ ?_)
      (fun g hg ↦ absurd hg (by simp)) hran group hgroup
    · rw [← hs] at hrs ⊢
      rw [← groupPoints_of_mem hgroup]
      exact hall rs hrs hne
    · obtain hg' | hg' := List.mem_append.mp hg'
      · obtain ⟨shard, hshard, hmem⟩ := hdone g' hg' rs hrs hne
        exact ⟨shard, hshard, List.mem_append_left _ hmem⟩
      · obtain rfl := List.mem_singleton.mp hg'
        obtain ⟨shard, hshard, hmem⟩ := ran_groupSteps_remote hround hrs hne
        exact ⟨shard, hshard, List.mem_append_right _ hmem⟩

end Collection

/-! ## Reads by id -/

/-- A read of these ids has returned these points: each id has been looked up in its shard, and what
was found there is what is returned. -/
structure PointHistory.Answers (X : Crates V) (f : PointId → ShardId) (ids : List PointId)
    (ps : List (Point V)) (h : PointHistory V) : Prop where
  complete : ∀ id ∈ ids, ∃ i o, ⟨.get (f id) i id.intoString, .ok o⟩ ∈ h ∧
    ∀ v, o = some v → ∃ p ∈ ps, X.pointFromSlice v = .ok p
  sound : ∀ p ∈ ps, ∃ id ∈ ids, ∃ i v, ⟨.get (f id) i id.intoString, .ok (some v)⟩ ∈ h ∧
    X.pointFromSlice v = .ok p

namespace PointHistory.Answers

variable {f : PointId → ShardId} {ids ids' : List PointId} {ps ps' : List (Point V)}
  {h h' : PointHistory V}

theorem nil (f : PointId → ShardId) : Answers X f [] [] ([] : PointHistory V) :=
  ⟨fun _ hid ↦ absurd hid (by simp), fun _ hp ↦ absurd hp (by simp)⟩

theorem append (hfirst : Answers X f ids ps h) (hrest : Answers X f ids' ps' h') :
    Answers X f (ids ++ ids') (ps ++ ps') (h ++ h') := by
  constructor
  · intro id hid
    obtain hid | hid := List.mem_append.mp hid
    · obtain ⟨i, o, hget, ho⟩ := hfirst.complete id hid
      refine ⟨i, o, List.mem_append_left _ hget, fun v hv ↦ ?_⟩
      obtain ⟨p, hp, hdec⟩ := ho v hv
      exact ⟨p, List.mem_append_left _ hp, hdec⟩
    · obtain ⟨i, o, hget, ho⟩ := hrest.complete id hid
      refine ⟨i, o, List.mem_append_right _ hget, fun v hv ↦ ?_⟩
      obtain ⟨p, hp, hdec⟩ := ho v hv
      exact ⟨p, List.mem_append_right _ hp, hdec⟩
  · intro p hp
    obtain hp | hp := List.mem_append.mp hp
    · obtain ⟨id, hid, i, v, hget, hdec⟩ := hfirst.sound p hp
      exact ⟨id, List.mem_append_left _ hid, i, v, List.mem_append_left _ hget, hdec⟩
    · obtain ⟨id, hid, i, v, hget, hdec⟩ := hrest.sound p hp
      exact ⟨id, List.mem_append_right _ hid, i, v, List.mem_append_right _ hget, hdec⟩

/-- One id, in front of the others. -/
theorem cons {id : PointId} {i : ℕ} {o : Option String} (found : List (Point V))
    (hfound : ∀ p, p ∈ found ↔ ∃ v, o = some v ∧ X.pointFromSlice v = .ok p)
    (hsome : ∀ v, o = some v → ∃ p, X.pointFromSlice v = .ok p) (hrest : Answers X f ids ps h) :
    Answers X f (id :: ids) (found ++ ps)
      (⟨.get (f id) i id.intoString, .ok o⟩ :: h) := by
  refine append (show Answers X f [id] found [⟨.get (f id) i id.intoString, .ok o⟩] from ⟨?_, ?_⟩)
    hrest
  · intro id' hid'
    obtain rfl := List.mem_singleton.mp hid'
    refine ⟨i, o, List.mem_singleton_self _, fun v hv ↦ ?_⟩
    obtain ⟨p, hdec⟩ := hsome v hv
    exact ⟨p, (hfound p).mpr ⟨v, hv, hdec⟩, hdec⟩
  · intro p hp
    obtain ⟨v, rfl, hdec⟩ := (hfound p).mp hp
    exact ⟨id, List.mem_singleton_self _, i, v, List.mem_singleton_self _, hdec⟩

end PointHistory.Answers

theorem Segment.ran_getSteps {f : PointId → ShardId} {s : ShardId} {i : ℕ} {ids : List PointId}
    (hf : ∀ id ∈ ids, f id = s) {ps : List (Point V)} {h : PointHistory V}
    (hran : (getSteps X s i ids).Ran h (.ok ps)) : h.Answers X f ids ps := by
  induction ids generalizing i ps h with
  | nil =>
    obtain ⟨rfl, hps⟩ := hran.of_ok
    rw [Program.ok.inj hps]
    exact .nil f
  | cons id ids ih =>
    obtain ⟨hid, hids⟩ := List.forall_mem_cons.mp hf
    obtain ⟨r, h', rfl, hnext⟩ := hran.of_call_ok
    subst hid
    rcases r with e | _ | value
    · exact absurd hnext.of_error.2 (by simp)
    · exact .cons [] (by simp) (by simp) (ih hids hnext)
    · cases hdec : X.pointFromSlice value with
      | error e =>
        simp only [decode, hdec] at hnext
        exact absurd hnext.of_error.2 (by simp)
      | ok p =>
        simp only [decode, hdec] at hnext
        obtain ⟨h₁, h₂, rfl, ⟨qs, hqs, hret⟩ | ⟨e, -, he⟩⟩ := hnext.handle_ok
        · obtain ⟨rfl, heq⟩ := hret.of_ok
          rw [Program.ok.inj heq, List.append_nil]
          refine .cons [p] (fun q ↦ ?_) (fun v hv ↦ ?_) (ih hids hqs)
          · rw [List.mem_singleton]
            constructor
            · rintro rfl
              exact ⟨value, rfl, hdec⟩
            · rintro ⟨v, hv, hq⟩
              rw [← Option.some.inj hv, hdec] at hq
              exact (Except.ok.inj hq).symm
          · exact ⟨p, Option.some.inj hv ▸ hdec⟩
        · exact absurd he.of_error.2 (by simp)

/-- **A read by id that is answered** has looked up every id in its shard. -/
theorem Collection.ran_getSteps {self : Collection X} {order : IterOrder (ShardId × List PointId)}
    {ids : List PointId} {ps : List (Point V)} {h : PointHistory V}
    (hran : (self.getSteps order ids).Ran h (.ok ps)) : h.Answers X self.shardOf ids ps := by
  rw [getSteps] at hran
  cases hsel : self.replicaHolder.selectShards ids with
  | error e =>
    rw [hsel] at hran
    exact absurd hran.of_error.2 (by simp)
  | ok groups =>
    rw [hsel, ReplicaHolder.groups_of_selectShards hsel] at hran
    have hgroups : ∀ group ∈ order.arrange (Grouping.groups self.shardOf ids),
        group.2 = ids.filter (fun id ↦ self.shardOf id = group.1) := fun group hgroup ↦
      (Grouping.mem_groups.mp ((order.perm _).mem_iff.mp hgroup)).1
    have hall := Ran.foldlM_ok (P := fun done collected h ↦
      (∀ group ∈ done, ∀ id ∈ group.2, self.shardOf id = group.1) →
        PointHistory.Answers X self.shardOf (done.flatMap Prod.snd) collected h)
      (fun done group b h b' h' hdone hround hin ↦ ?_) (fun _ ↦ .nil _) hran
    · have hids : ∀ id, id ∈ (order.arrange (Grouping.groups self.shardOf ids)).flatMap Prod.snd ↔
          id ∈ ids := fun id ↦ ((((order.perm _).flatMap_right _).trans
            (Grouping.groups_flatMap_perm self.shardOf ids))).mem_iff
      obtain ⟨hcomplete, hsound⟩ := hall fun group hgroup id hid ↦ by
        rw [hgroups group hgroup] at hid
        simpa using (List.mem_filter.mp hid).2
      refine ⟨fun id hid ↦ hcomplete id ((hids id).mpr hid), fun p hp ↦ ?_⟩
      obtain ⟨id, hid, hget⟩ := hsound p hp
      exact ⟨id, (hids id).mp hid, hget⟩
    · rw [readSteps] at hround
      cases hrs : self.replicaHolder.getReplicaSet group.1 with
      | error e =>
        rw [hrs] at hround
        exact absurd hround.of_error.2 (by simp)
      | ok replicaSet =>
        rw [hrs] at hround
        obtain ⟨h₁, h₂, qs, rfl, hqs, hret⟩ := hround.bind_ok
        obtain ⟨rfl, heq⟩ := (show Ran (.ok (b ++ qs)) h₂ _ from hret).of_ok
        rw [Program.ok.inj heq, List.append_nil, List.flatMap_append, List.flatMap_singleton]
        refine (hdone fun g hg ↦ hin g (List.mem_append_left _ hg)).append ?_
        rw [LocalShard.getSteps] at hqs
        split at hqs
        · exact Segment.ran_getSteps (hin group (List.mem_append_right _
            (List.mem_singleton_self _))) hqs.mapError_ok
        · exact absurd hqs.of_error.2 (by simp)

/-- It looks something up. -/
def PointCall.IsGet : PointCall V → Prop
  | insert .. => False
  | flush _ => False
  | get .. => True
  | upsertRemote .. => False

theorem PointCall.IsGet.inserts {op : PointCall V} (h : op.IsGet) (f : PointId → ShardId) :
    op.Inserts X f [] := by
  cases op with
  | get s i key => trivial
  | insert s i key value => exact h.elim
  | flush s => exact h.elim
  | upsertRemote s shard points => exact h.elim

theorem PointCall.IsGet.forwards {op : PointCall V} (h : op.IsGet) (peer : PeerId)
    (name : CollectionName) : op.Forwards peer name [] := by
  cases op with
  | get s i key => trivial
  | insert s i key value => exact h.elim
  | flush s => exact h.elim
  | upsertRemote s shard points => exact h.elim

theorem Segment.calls_getSteps (s : ShardId) (i : ℕ) (ids : List PointId) :
    (getSteps X s i ids).Calls PointCall.IsGet := by
  induction ids generalizing i with
  | nil => exact trivial
  | cons id ids ih =>
    refine ⟨trivial, fun r ↦ ?_⟩
    rcases r with e | _ | value
    · exact trivial
    · exact ih (i + 1)
    · simp only
      split
      · exact trivial
      · exact (ih (i + 1)).handle (fun _ ↦ trivial) fun _ ↦ trivial

/-- **A read looks up and does nothing else.** -/
theorem Collection.calls_getSteps {self : Collection X}
    (order : IterOrder (ShardId × List PointId)) (ids : List PointId) :
    (self.getSteps order ids).Calls PointCall.IsGet := by
  rw [getSteps]
  cases self.replicaHolder.selectShards ids with
  | error e => exact trivial
  | ok groups =>
    refine Program.calls_foldlM (fun group _ collected ↦ ?_) []
    rw [readSteps]
    cases self.replicaHolder.getReplicaSet group.1 with
    | error e => exact trivial
    | ok replicaSet =>
      refine Program.Calls.bind ?_ fun _ ↦ trivial
      rw [LocalShard.getSteps]
      split
      · exact (Segment.calls_getSteps _ _ _).mapError _
      · exact trivial

end Smoldb
