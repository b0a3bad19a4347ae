import Smoldb.Storage.Segment
import Smoldb.Json

/-!
# When a segment is a map from ids to points

A segment stores points under the text of their ids, and the number `1` and the string `"1"` have
the same text.  So a segment is a map from texts to points, and it is one from ids to points only as
long as no two ids that look alike are involved.  What it stores is a text again, so it gives back a
point only if the text of the point is read as that point.

`segment_faithful_iff` has the exact conditions, for any sequence of inserts and whatever sled does
in them: for one id to be read back, for the count to be right, and for the whole of it.

* An id reads as the last point inserted with it if no id that looks like it was inserted behind
  that point (`Renewed`), and the point is read as it was written (`LastReadsBack`).
* The count is the number of ids if no two of them look alike.  Ids that are `Unmistakable` do not
  look like any other, and these are the strings that no number is written as.

The trees are those of `insert_points` calls that may fail anywhere, so what counts as inserted is
what sled has taken: a prefix of each call (`inserted`).
-/

set_option autoImplicit false

namespace Smoldb

open LastWrite

variable {V : Type} {X : Crates V}

namespace PointId

/-- The id is a string that no number is written as. -/
def Unmistakable (id : PointId) : Prop := ∃ s, id = .uuid s ∧ ∀ n : UInt64, s ≠ Nat.repr n.toNat

/-- Those are the ids that share their text with no other. -/
theorem unmistakable_iff {a : PointId} :
    a.Unmistakable ↔ ∀ b : PointId, b.intoString = a.intoString → b = a := by
  constructor
  · rintro ⟨s, rfl, hs⟩ b hb
    cases b with
    | id n => exact absurd hb.symm (hs n)
    | uuid t => rw [show t = s from hb]
  · intro h
    cases a with
    | id n => exact nomatch h (.uuid (Nat.repr n.toNat)) rfl
    | uuid s => exact ⟨s, rfl, fun n hn ↦ nomatch h (.id n) hn.symm⟩

end PointId

namespace Segment

/-! ## Sequences of inserts -/

/-- The points that get into the tree, from the `i`-th round on. -/
def insertedFrom (env : SledWrites) : ℕ → List (Point V) → List (Point V)
  | _, [] => []
  | i, p :: ps =>
    match env.insert i with
    | .ok => p :: insertedFrom env (i + 1) ps
    | .fails _ applied => if applied then [p] else []

/-- A call of `insert_points`. -/
structure Insert (V : Type) where
  env : SledWrites
  points : List (Point V)

/-- The points that get into the tree in a sequence of calls. -/
def inserted (calls : List (Insert V)) : List (Point V) :=
  calls.flatMap fun call ↦ insertedFrom call.env 0 call.points

/-- The tree after a sequence of calls. -/
def runInserts (X : Crates V) (calls : List (Insert V)) (db : Db) : Db :=
  calls.foldl (fun db call ↦ (insertPoints X call.env call.points db).1) db

theorem insertFrom_inserted (env : SledWrites) (i : ℕ) (points : List (Point V)) (db : Db) :
    (insertFrom X env i points db).1 = putAll X (insertedFrom env i points) db := by
  induction points generalizing i db with
  | nil => cases h : env.flush <;> simp [insertFrom, insertedFrom, h]
  | cons p ps ih =>
    cases hi : env.insert i with
    | ok =>
      simp only [insertFrom, insertedFrom, X.pointToString_eq, hi, ih, putAll_cons]
      rfl
    | fails e applied =>
      simp only [insertFrom, insertedFrom, X.pointToString_eq, hi]
      cases applied <;> rfl

/-- **What a sequence of calls leaves.** -/
theorem runInserts_eq (calls : List (Insert V)) (db : Db) :
    runInserts X calls db = putAll X (inserted calls) db := by
  induction calls generalizing db with
  | nil => rfl
  | cons call calls ih =>
    have hcons : inserted (call :: calls) = insertedFrom call.env 0 call.points ++ inserted calls :=
      List.flatMap_cons
    have hstep : runInserts X (call :: calls) db
        = runInserts X calls (insertPoints X call.env call.points db).1 := rfl
    rw [hstep, ih, hcons, putAll_append, insertPoints, insertFrom_inserted]

/-! ## Reading and counting -/

/-- Every look-alike of `x` is followed by a point that has `x` for its id. -/
def Renewed (W : List (Point V)) (x : PointId) : Prop :=
  ∀ A q B, W = A ++ q :: B → q.id ≠ x → q.id.intoString = x.intoString → ∃ p ∈ B, p.id = x

/-- The last point of a text is the last point of an id exactly if the id is renewed. -/
theorem last_keyOf_eq_iff {W : List (Point V)} {x : PointId} :
    last keyOf W x.intoString = last Point.id W x ↔ Renewed W x := by
  have hcoarse : ∀ p q : Point V, p.id = q.id → keyOf p = keyOf q :=
    fun p q h ↦ congrArg PointId.intoString h
  constructor
  · rintro h A q B rfl hne hkey
    by_contra hno
    push Not at hno
    have hB : last Point.id (q :: B) x = none := by
      rw [last_eq_none_iff]
      exact List.forall_mem_cons.mpr ⟨hne, hno⟩
    obtain ⟨p, hp⟩ := exists_last_of_mem keyOf (List.mem_cons_self : q ∈ q :: B)
    have hpx : last keyOf (q :: B) x.intoString = some p := by rw [← hkey]; exact hp
    rw [last_append, hpx, Option.some_or, last_append, hB, Option.none_or] at h
    have hid : p.id = x := key_of_last h.symm
    exact last_eq_none_iff.mp hB p (mem_of_last hpx) hid
  · intro h
    cases hl : last keyOf W x.intoString with
    | none =>
      refine (last_eq_none_iff.mpr fun p hp hid ↦ ?_).symm
      exact last_eq_none_iff.mp hl p hp (congrArg PointId.intoString hid)
    | some q =>
      obtain ⟨hk, A, B, rfl, hB⟩ := last_eq_some_iff.mp hl
      by_cases hid : q.id = x
      · rw [← hid]
        exact (last_refine hcoarse hl).symm
      · obtain ⟨p, hp, hpx⟩ := h A q B rfl hid hk
        exact absurd (congrArg PointId.intoString hpx) (hB p hp)

/-- The last point of the id, if there is one, is read back from its text as it is. -/
def LastReadsBack (X : Crates V) (W : List (Point V)) (x : PointId) : Prop :=
  ∀ p, last Point.id W x = some p → X.ReadsBack p

/-- A read of one id, when sled answers. -/
theorem getPoints_one {db : Db} {x : PointId} {o : Option (Point V)} :
    getPoints X .clean (some [x]) db = .ok o.toList ↔
      ReadableAt X db x.intoString ∧ read X db x.intoString = o := by
  have hanswer : answer X (some [x]) db = (read X db x.intoString).toList := by
    rw [answer_some, List.filterMap_cons]
    cases read X db x.intoString <;> rfl
  constructor
  · intro h
    obtain ⟨hreadable, hps⟩ := getPoints_eq_ok X h
    rw [hanswer] at hps
    refine ⟨hreadable x List.mem_cons_self, ?_⟩
    cases ho : o <;> cases hr : read X db x.intoString <;> simp_all
  · rintro ⟨hreadable, rfl⟩
    rw [getPoints_clean X (some [x]) fun id hid ↦ ?_, hanswer]
    rwa [List.mem_singleton.mp hid]

/-- **When an id reads as the last point inserted with it**: every look-alike of it is followed by
such a point, and the last of these is read back from its text. -/
theorem getPoints_runInserts_iff (calls : List (Insert V)) (x : PointId) :
    getPoints X .clean (some [x]) (runInserts X calls ∅)
        = .ok (last Point.id (inserted calls) x).toList ↔
      Renewed (inserted calls) x ∧ LastReadsBack X (inserted calls) x := by
  have hget : (runInserts X calls ∅)[x.intoString]?
      = (last keyOf (inserted calls) x.intoString).map X.encode := by
    rw [runInserts_eq, getElem?_putAll]
    simp
  rw [getPoints_one, ← last_keyOf_eq_iff]
  cases hl : last keyOf (inserted calls) x.intoString with
  | none =>
    rw [hl, Option.map_none] at hget
    have hnone : read X (runInserts X calls ∅) x.intoString = none := by rw [read, hget]; rfl
    rw [hnone]
    refine ⟨fun h ↦ ⟨h.2, fun p hp ↦ ?_⟩, fun h ↦ ⟨fun v hv ↦ ?_, h.1⟩⟩
    · rw [← h.2] at hp
      cases hp
    · rw [hget] at hv
      cases hv
  | some q =>
    rw [hl, Option.map_some] at hget
    constructor
    · rintro ⟨hreadable, hread⟩
      obtain ⟨r, hr⟩ := hreadable _ hget
      rw [(read_eq_some_iff X).mpr ⟨_, hget, hr⟩] at hread
      -- the id survives whatever the reader makes of the payload
      have hid : q.id = x := by rw [← X.id_of_read hr]; exact key_of_last hread.symm
      have hlast : last Point.id (inserted calls) x = some q := by
        rw [← hid]
        exact last_refine (fun p q h ↦ congrArg PointId.intoString h) hl
      rw [hlast, Option.some.injEq] at hread
      refine ⟨hlast.symm, fun p hp ↦ ?_⟩
      obtain rfl : q = p := Option.some.inj (hlast.symm.trans hp)
      rw [hread] at hr
      exact hr
    · rintro ⟨hlast, hback⟩
      have hq := hback q hlast.symm
      rw [← hlast]
      exact ⟨fun v hv ↦ ⟨q, by rw [← Option.some.inj (hget.symm.trans hv)]; exact hq⟩,
        (read_eq_some_iff X).mpr ⟨_, hget, hq⟩⟩

/-- The number of different ids of a list of points. -/
def idCount (W : List (Point V)) : ℕ := (W.map Point.id).toFinset.card

/-- A tree has one entry for every text. -/
theorem countPoints_putAll (W : List (Point V)) :
    countPoints (putAll X W ∅) = ((W.map Point.id).toFinset.image PointId.intoString).card := by
  have hnodup : ((putAll X W ∅).toList.map Prod.fst).Nodup := by
    rw [List.Nodup, List.pairwise_map]
    exact Std.ExtTreeMap.distinct_keys_toList.imp fun {a b} h heq ↦ h (by
      rw [heq]; exact Std.ReflCmp.compare_self)
  have hmem : ((putAll X W ∅).toList.map Prod.fst).toFinset
      = (W.map Point.id).toFinset.image PointId.intoString := by
    ext k
    have hk : (putAll X W ∅)[k]? = (last keyOf W k).map X.encode := by
      rw [getElem?_putAll]; simp
    constructor
    · intro h
      obtain ⟨⟨k', v⟩, he, rfl⟩ := List.mem_map.mp (List.mem_toFinset.mp h)
      have hv := Std.ExtTreeMap.mem_toList_iff_getElem?_eq_some.mp he
      rw [hk] at hv
      obtain ⟨p, hp, -⟩ := Option.map_eq_some_iff.mp hv
      have hkey : keyOf p = k' := key_of_last hp
      refine Finset.mem_image.mpr ⟨p.id, ?_, hkey⟩
      exact List.mem_toFinset.mpr (List.mem_map.mpr ⟨p, mem_of_last hp, rfl⟩)
    · intro h
      obtain ⟨id, hid, rfl⟩ := Finset.mem_image.mp h
      obtain ⟨p, hp, rfl⟩ := List.mem_map.mp (List.mem_toFinset.mp hid)
      obtain ⟨q, hq⟩ := exists_last_of_mem keyOf hp
      refine List.mem_toFinset.mpr (List.mem_map.mpr ⟨(keyOf p, X.encode q), ?_, rfl⟩)
      rw [Std.ExtTreeMap.mem_toList_iff_getElem?_eq_some]
      have hk' : (putAll X W ∅)[keyOf p]? = (last keyOf W (keyOf p)).map X.encode := hk
      rw [hk', hq]
      rfl
  rw [countPoints, ← Std.ExtTreeMap.length_toList, ← List.length_map (f := Prod.fst),
    ← List.toFinset_card_of_nodup hnodup, hmem]

/-- **The count is the number of ids exactly if no two of them look alike.** -/
theorem countPoints_runInserts_iff (calls : List (Insert V)) :
    countPoints (runInserts X calls ∅) = idCount (inserted calls) ↔
      ∀ p ∈ inserted calls, ∀ q ∈ inserted calls, p.id.intoString = q.id.intoString →
        p.id = q.id := by
  rw [runInserts_eq, countPoints_putAll, idCount, Finset.card_image_iff]
  constructor
  · intro h p hp q hq hpq
    exact h (Finset.mem_coe.mpr (List.mem_toFinset.mpr (List.mem_map_of_mem hp)))
      (Finset.mem_coe.mpr (List.mem_toFinset.mpr (List.mem_map_of_mem hq))) hpq
  · intro h a ha b hb hab
    obtain ⟨p, hp, rfl⟩ := List.mem_map.mp (List.mem_toFinset.mp (Finset.mem_coe.mp ha))
    obtain ⟨q, hq, rfl⟩ := List.mem_map.mp (List.mem_toFinset.mp (Finset.mem_coe.mp hb))
    exact h p hp q hq hab

/-- **When a segment is a faithful map from ids to points.**  Reading `x` gives the last point
inserted with that id exactly if every look-alike of it is followed by such a point and the last of
these is read back from its text; the count is the number of ids exactly if no two inserted ids look
alike; and all of it holds, for every `x`, exactly if the inserted ids are all unmistakable and the
last point of each is read back from its text. -/
theorem segment_faithful_iff (X : Crates V) (calls : List (Insert V)) :
    (∀ x, getPoints X .clean (some [x]) (runInserts X calls ∅)
        = .ok (last Point.id (inserted calls) x).toList ↔
          Renewed (inserted calls) x ∧ LastReadsBack X (inserted calls) x) ∧
    (countPoints (runInserts X calls ∅) = idCount (inserted calls) ↔
      ∀ p ∈ inserted calls, ∀ q ∈ inserted calls, p.id.intoString = q.id.intoString →
        p.id = q.id) ∧
    (((∀ x, getPoints X .clean (some [x]) (runInserts X calls ∅)
          = .ok (last Point.id (inserted calls) x).toList) ∧
        countPoints (runInserts X calls ∅) = idCount (inserted calls)) ↔
      (∀ p ∈ inserted calls, p.id.Unmistakable) ∧ ∀ x, LastReadsBack X (inserted calls) x) := by
  have hread := getPoints_runInserts_iff (X := X) calls
  have hcount := countPoints_runInserts_iff (X := X) calls
  refine ⟨hread, hcount, ?_, fun ⟨h, hback⟩ ↦ ⟨fun x ↦ (hread x).mpr ⟨?_, hback x⟩, hcount.mpr ?_⟩⟩
  · rintro ⟨hall, -⟩
    refine ⟨fun p hp ↦ ?_, fun x ↦ ((hread x).mp (hall x)).2⟩
    obtain ⟨q, hq⟩ := exists_last_of_mem keyOf hp
    -- what is read under the text of the id has every id of that text
    have hid : ∀ b : PointId, b.intoString = p.id.intoString → q.id = b := by
      intro b hb
      have hlast := last_keyOf_eq_iff.mpr ((hread b).mp (hall b)).1
      rw [hb, show last keyOf (inserted calls) p.id.intoString = some q from hq] at hlast
      exact key_of_last hlast.symm
    exact PointId.unmistakable_iff.mpr fun b hb ↦ (hid b hb).symm.trans (hid p.id rfl)
  · intro A q B hW hne hkey
    have hq := h q (by rw [hW]; simp)
    exact absurd (PointId.unmistakable_iff.mp hq x hkey.symm).symm hne
  · intro p hp q _ hpq
    exact (PointId.unmistakable_iff.mp (h p hp) q.id hpq.symm).symm

/-- The number `1` and then the string `"1"`: the point of the number is gone, and its id reads as
the point of the string. -/
theorem segment_overwrites_lookalike :
    last Point.id (inserted [⟨.clean, [⟨.id 1, true⟩, ⟨.uuid "1", false⟩]⟩]) (.id 1)
      = some ⟨.id 1, true⟩ ∧
    getPoints Crates.bool .clean (some [.id 1])
        (runInserts Crates.bool [⟨.clean, [⟨.id 1, true⟩, ⟨.uuid "1", false⟩]⟩] ∅)
      = .ok [⟨.uuid "1", false⟩] ∧
    countPoints (runInserts Crates.bool [⟨.clean, [⟨.id 1, true⟩, ⟨.uuid "1", false⟩]⟩] ∅) = 1 ∧
    idCount (inserted [⟨.clean, [⟨.id 1, true⟩, ⟨.uuid "1", false⟩]⟩]) = 2 := by
  decide

end Segment

end Smoldb
