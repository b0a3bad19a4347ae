import Mathlib

/-!
# Writes that are buffered

A file is written to by calls that may each write a part of what they are given, be interrupted, or
fail.  `Sink` is a file together with what becomes of the calls to come, and `Sink.writeAll` repeats
the call until everything is written, or a call fails or writes nothing.

A `BufWriter` keeps what is short in a buffer, and what is left there is written when the writer is
dropped.  Nobody is told when that fails: `through_eq` says what is written through a new writer and
what is said about it.
-/

set_option autoImplicit false

/-- What becomes of a call that writes. -/
inductive WriteResult where
  | wrote (n : ℕ)
  | interrupted
  | failed (message : String)
  deriving DecidableEq

namespace WriteResult

/-- How much of what it is given a call writes. -/
def count : WriteResult → ℕ
  | wrote n => n
  | interrupted => 0
  | failed _ => 0

/-- Nothing more is written after the call. -/
def Fails : WriteResult → Prop
  | wrote n => n = 0
  | interrupted => False
  | failed _ => True

/-- No call fails before some number of elements has been written. -/
def Completes (coming : List WriteResult) (n : ℕ) : Prop :=
  ∀ done r, done ++ [r] <+: coming → r.Fails → n ≤ (done.map count).sum

theorem completes_zero (coming : List WriteResult) : Completes coming 0 :=
  fun _ _ _ _ ↦ Nat.zero_le _

theorem completes_nil (n : ℕ) : Completes [] n :=
  fun done r h _ ↦ absurd (List.prefix_nil.mp h) (by simp)

theorem completes_cons {r : WriteResult} {coming : List WriteResult} {n : ℕ} :
    Completes (r :: coming) n ↔ (r.Fails → n = 0) ∧ Completes coming (n - r.count) := by
  constructor
  · intro h
    refine ⟨fun hr ↦ Nat.le_zero.mp (h [] r (by simp) hr), fun done r' hp hr' ↦ ?_⟩
    have hle := h (r :: done) r' (List.cons_prefix_cons.mpr ⟨rfl, hp⟩) hr'
    rw [List.map_cons, List.sum_cons] at hle
    omega
  · rintro ⟨hfirst, hrest⟩ done r' hp hr'
    cases done with
    | nil =>
      obtain rfl := (List.cons_prefix_cons.mp hp).1
      exact (hfirst hr').le
    | cons r₁ done =>
      obtain ⟨rfl, htail⟩ := List.cons_prefix_cons.mp hp
      have hle := hrest done r' htail hr'
      rw [List.map_cons, List.sum_cons]
      omega

end WriteResult

/-- A file, and what becomes of the calls that write to it.  When the list is used up they all write
what they are given. -/
structure Sink (β : Type) where
  content : List β
  coming : List WriteResult

namespace Sink

variable {β : Type}

/-- Write until there is nothing left to write, or something goes wrong. -/
def writeLoop : List WriteResult → List β → List β → Sink β × Except String Unit
  | coming, content, [] => (⟨content, coming⟩, .ok ())
  | [], content, data => (⟨content ++ data, []⟩, .ok ())
  | .wrote 0 :: coming, content, _ => (⟨content, coming⟩, .error "failed to write whole buffer")
  | .wrote (n + 1) :: coming, content, data =>
    writeLoop coming (content ++ data.take (n + 1)) (data.drop (n + 1))
  | .interrupted :: coming, content, data => writeLoop coming content data
  | .failed message :: coming, content, _ => (⟨content, coming⟩, .error message)

/-- `Write::write_all`. -/
def writeAll (self : Sink β) (data : List β) : Sink β × Except String Unit :=
  writeLoop self.coming self.content data

@[simp] theorem writeAll_nil (self : Sink β) : self.writeAll [] = (self, .ok ()) := by
  rw [writeAll, writeLoop]

theorem writeLoop_spec (coming : List WriteResult) (content data : List β) :
    ∃ k ≤ data.length, (writeLoop coming content data).1.content = content ++ data.take k ∧
      ((writeLoop coming content data).2 = .ok () ↔ k = data.length) := by
  fun_induction writeLoop coming content data with
  | case1 coming content => exact ⟨0, le_rfl, by simp⟩
  | case2 content data => exact ⟨data.length, le_rfl, by simp⟩
  | case3 coming content data hdata =>
    have hlen : data.length ≠ 0 := fun h ↦ hdata (List.length_eq_zero_iff.mp h)
    exact ⟨0, Nat.zero_le _, by simp, by simpa using hlen.symm⟩
  | case4 n coming content data hdata ih =>
    obtain ⟨k, hk, hcontent, hok⟩ := ih
    rw [List.length_drop] at hk hok
    refine ⟨min (n + 1 + k) data.length, min_le_right _ _, ?_, hok.trans (by omega)⟩
    rw [hcontent, List.append_assoc, ← List.take_add, ← List.take_eq_take_min]
  | case5 coming content data hdata ih => exact ih
  | case6 message coming content data hdata =>
    have hlen : data.length ≠ 0 := fun h ↦ hdata (List.length_eq_zero_iff.mp h)
    exact ⟨0, Nat.zero_le _, by simp, by simpa using hlen.symm⟩

theorem writeLoop_ok_iff (coming : List WriteResult) (content data : List β) :
    (writeLoop coming content data).2 = .ok () ↔ WriteResult.Completes coming data.length := by
  fun_induction writeLoop coming content data with
  | case1 coming content => exact iff_of_true rfl (WriteResult.completes_zero coming)
  | case2 content data => exact iff_of_true rfl (WriteResult.completes_nil _)
  | case3 coming content data hdata =>
    have hlen : data.length ≠ 0 := fun h ↦ hdata (List.length_eq_zero_iff.mp h)
    exact iff_of_false (by simp) fun h ↦ hlen ((WriteResult.completes_cons.mp h).1 rfl)
  | case4 n coming content data hdata ih =>
    rw [ih, WriteResult.completes_cons, List.length_drop]
    exact (and_iff_right fun h ↦ absurd h (Nat.succ_ne_zero n)).symm
  | case5 coming content data hdata ih =>
    rw [ih, WriteResult.completes_cons]
    exact (and_iff_right False.elim).symm
  | case6 message coming content data hdata =>
    have hlen : data.length ≠ 0 := fun h ↦ hdata (List.length_eq_zero_iff.mp h)
    exact iff_of_false (by simp) fun h ↦ hlen ((WriteResult.completes_cons.mp h).1 trivial)

/-- **When all of the data is written**: no call may fail before. -/
theorem writeAll_ok_iff (self : Sink β) (data : List β) :
    (self.writeAll data).2 = .ok () ↔ WriteResult.Completes self.coming data.length :=
  writeLoop_ok_iff self.coming self.content data

/-- **What has been written** is the first part of the data, and all of it if nothing is wrong. -/
theorem writeAll_spec (self : Sink β) (data : List β) :
    ∃ k ≤ data.length, (self.writeAll data).1.content = self.content ++ data.take k ∧
      ((self.writeAll data).2 = .ok () ↔ k = data.length) :=
  writeLoop_spec self.coming self.content data

end Sink

/-- What is kept to be written later. -/
structure BufWriter (β : Type) where
  capacity : ℕ
  buffer : List β

namespace BufWriter

variable {β : Type}

/-- `BufWriter::with_capacity`. -/
def new (β : Type) (capacity : ℕ) : BufWriter β := ⟨capacity, []⟩

/-- `BufWriter::write_all`: what does not fit next to the buffer makes it be written, and what would
not fit an empty buffer is written right away. -/
def writeAll (self : BufWriter β) (data : List β) (file : Sink β) :
    (BufWriter β × Sink β) × Except String Unit :=
  if data.length < self.capacity - self.buffer.length then
    (({ self with buffer := self.buffer ++ data }, file), .ok ())
  else if self.capacity - self.buffer.length < data.length then
    match file.writeAll self.buffer with
    | (file', .error e) =>
      -- what has been written leaves the buffer
      (({ self with
          buffer := self.buffer.drop (file'.content.length - file.content.length) }, file'),
        .error e)
    | (file', .ok ()) => writeEmptied { self with buffer := [] } data file'
  else writeEmptied self data file
where
  /-- The rest of `BufWriter::write_all`, when there is space in the buffer if there can be. -/
  writeEmptied (self : BufWriter β) (data : List β) (file : Sink β) :
      (BufWriter β × Sink β) × Except String Unit :=
    if self.capacity ≤ data.length then
      ((self, (file.writeAll data).1), (file.writeAll data).2)
    else (({ self with buffer := self.buffer ++ data }, file), .ok ())

/-- `Drop::drop`: what is left is written, and nobody is told how that went. -/
def drop (self : BufWriter β) (file : Sink β) : Sink β := (file.writeAll self.buffer).1

/-- Data is written through a new writer, which is then dropped. -/
def through (capacity : ℕ) (data : List β) (file : Sink β) : Sink β × Except String Unit :=
  match (new β capacity).writeAll data file with
  | ((writer, file), result) => (writer.drop file, result)

/-- **What goes through a new writer** is written either way.  If it fits the buffer, nothing is
said about whether all of it has been. -/
theorem through_eq (capacity : ℕ) (data : List β) (file : Sink β) :
    through capacity data file
      = if data.length < capacity then ((file.writeAll data).1, .ok ()) else
        file.writeAll data := by
  have hnew : new β capacity = ⟨capacity, []⟩ := rfl
  rw [through, writeAll, hnew, List.length_nil, Nat.sub_zero, Sink.writeAll_nil]
  by_cases hfits : data.length < capacity
  · rw [if_pos hfits, if_pos hfits]
    rfl
  · have hemptied : writeAll.writeEmptied ⟨capacity, []⟩ data file
        = ((⟨capacity, []⟩, (file.writeAll data).1), (file.writeAll data).2) :=
      if_pos (Nat.le_of_not_lt hfits)
    rw [if_neg hfits, if_neg hfits]
    simp only [hemptied, ite_self, drop, Sink.writeAll_nil]

end BufWriter
