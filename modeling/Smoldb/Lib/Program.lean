import Mathlib

/-!
# Programs that make calls

A program computes and makes calls to the system it runs on, such as an operating system, and ends
with a value, with an error, or in a panic.  It is kept as a value of its own, `Program`, with the
calls in it; what the calls do is decided by the system it is run on, in `run`.

A program is run backwards from its parts: `run_bind_of` goes on behind a part that finished, and
`run_foldlM` is the rule for loops, with an invariant on the part of the list that is done.  What a
program can return at all, on any system, is in `Returns`, and what it can call is in `Calls`.  A
system may also stop in the middle of a run, which is what `crash` is about.
-/

set_option autoImplicit false

/-- A program with calls `Op`, of which `op` is answered with a `Res op`. -/
inductive Program (Op : Type) (Res : Op → Type) (ε α : Type) where
  | ok (a : α)
  | error (e : ε)
  | panicked (message : String)
  | call (op : Op) (next : Res op → Program Op Res ε α)

namespace Program

/-- What a program ends with. -/
inductive Outcome (ε α : Type) where
  | ok (a : α)
  | error (e : ε)
  | panicked (message : String)
  deriving DecidableEq

variable {Op : Type} {Res : Op → Type} {ε ε' α β σ : Type}

/-! ## Building programs -/

/-- Go on behind a program, in one way with its value and in another with its error. -/
def handle : Program Op Res ε α → (α → Program Op Res ε' β) → (ε → Program Op Res ε' β) →
    Program Op Res ε' β
  | ok a, f, _ => f a
  | error e, _, g => g e
  | panicked message, _, _ => panicked message
  | call op next, f, g => call op fun r ↦ (next r).handle f g

instance : Monad (Program Op Res ε) where
  pure := ok
  bind p f := p.handle f error

/-- One call, and nothing else. -/
def perform (op : Op) : Program Op Res ε (Res op) := call op ok

/-- A result as a program. -/
def ofExcept : Except ε α → Program Op Res ε α
  | .ok a => ok a
  | .error e => error e

/-- Replace the error a program ends with. -/
def mapError (f : ε → ε') (p : Program Op Res ε α) : Program Op Res ε' α :=
  p.handle ok fun e ↦ error (f e)

/-- Panic instead of ending with an error. -/
def expect (message : String) (p : Program Op Res ε α) : Program Op Res ε' α :=
  p.handle ok fun _ ↦ panicked message

/-- Take the error a program ends with as a value. -/
def attempt (p : Program Op Res ε α) : Program Op Res ε' (Except ε α) :=
  p.handle (fun a ↦ ok (.ok a)) fun e ↦ ok (.error e)

/-! ## Running programs -/

/-- Run a program on a system that answers its calls. -/
def run (answer : σ → (op : Op) → σ × Res op) : Program Op Res ε α → σ → σ × Outcome ε α
  | ok a, s => (s, .ok a)
  | error e, s => (s, .error e)
  | panicked message, s => (s, .panicked message)
  | call op next, s => (next (answer s op).2).run answer (answer s op).1

variable {answer : σ → (op : Op) → σ × Res op}

@[simp] theorem run_pure (a : α) (s : σ) :
    (pure a : Program Op Res ε α).run answer s = (s, .ok a) := rfl

theorem run_call (op : Op) (next : Res op → Program Op Res ε α) (s : σ) :
    (call op next).run answer s = (next (answer s op).2).run answer (answer s op).1 := rfl

@[simp] theorem run_ofExcept_ok (a : α) (s : σ) :
    (ofExcept (.ok a) : Program Op Res ε α).run answer s = (s, .ok a) := rfl

@[simp] theorem run_perform (op : Op) (s : σ) :
    (perform op : Program Op Res ε (Res op)).run answer s
      = ((answer s op).1, .ok (answer s op).2) := rfl

theorem run_handle (p : Program Op Res ε α) (f : α → Program Op Res ε' β)
    (g : ε → Program Op Res ε' β) (s : σ) :
    (p.handle f g).run answer s = match p.run answer s with
      | (s', .ok a) => (f a).run answer s'
      | (s', .error e) => (g e).run answer s'
      | (s', .panicked message) => (s', .panicked message) := by
  induction p generalizing s with
  | ok a => rfl
  | error e => rfl
  | panicked message => rfl
  | call op next ih => exact ih _ _

section Parts

variable {p : Program Op Res ε α} {s s' : σ}

/-- **Go on behind a part that finished.** -/
theorem run_bind_of {a : α} (h : p.run answer s = (s', .ok a)) (f : α → Program Op Res ε β) :
    (p >>= f).run answer s = (f a).run answer s' := by
  rw [show p >>= f = p.handle f error from rfl, run_handle, h]

theorem run_bind_of_error {e : ε} (h : p.run answer s = (s', .error e))
    (f : α → Program Op Res ε β) : (p >>= f).run answer s = (s', .error e) := by
  rw [show p >>= f = p.handle f error from rfl, run_handle, h]
  rfl

theorem run_mapError_of {a : α} (h : p.run answer s = (s', .ok a)) (f : ε → ε') :
    (p.mapError f).run answer s = (s', .ok a) := by
  rw [mapError, run_handle, h]
  rfl

theorem run_mapError_of_error {e : ε} (h : p.run answer s = (s', .error e)) (f : ε → ε') :
    (p.mapError f).run answer s = (s', .error (f e)) := by
  rw [mapError, run_handle, h]
  rfl

theorem run_expect_of {a : α} (h : p.run answer s = (s', .ok a)) (message : String) :
    (p.expect message : Program Op Res ε' α).run answer s = (s', .ok a) := by
  rw [expect, run_handle, h]
  rfl

theorem run_expect_of_error {e : ε} (h : p.run answer s = (s', .error e)) (message : String) :
    (p.expect message : Program Op Res ε' α).run answer s = (s', .panicked message) := by
  rw [expect, run_handle, h]
  rfl

theorem run_attempt_of {a : α} (h : p.run answer s = (s', .ok a)) :
    (p.attempt : Program Op Res ε' (Except ε α)).run answer s = (s', .ok (.ok a)) := by
  rw [attempt, run_handle, h]
  rfl

theorem run_attempt_of_error {e : ε} (h : p.run answer s = (s', .error e)) :
    (p.attempt : Program Op Res ε' (Except ε α)).run answer s = (s', .ok (.error e)) := by
  rw [attempt, run_handle, h]
  rfl

theorem run_handle_of_panicked {message : String} (h : p.run answer s = (s', .panicked message))
    (f : α → Program Op Res ε' β) (g : ε → Program Op Res ε' β) :
    (p.handle f g).run answer s = (s', .panicked message) := by
  rw [run_handle, h]

theorem run_attempt_of_panicked {message : String}
    (h : p.run answer s = (s', .panicked message)) :
    (p.attempt : Program Op Res ε' (Except ε α)).run answer s = (s', .panicked message) :=
  run_handle_of_panicked h _ _

theorem run_bind_of_panicked {message : String} (h : p.run answer s = (s', .panicked message))
    (f : α → Program Op Res ε β) : (p >>= f).run answer s = (s', .panicked message) :=
  run_handle_of_panicked h f error

end Parts

/-! ## What is left of a panic -/

/-- What a program ends with, if that is not a panic. -/
def Outcome.result : Outcome ε α → Option (Except ε α)
  | ok a => some (.ok a)
  | error e => some (.error e)
  | panicked _ => none

/-- Run a program, and forget the message of a panic. -/
def eval (answer : σ → (op : Op) → σ × Res op) (p : Program Op Res ε α) (s : σ) :
    σ × Option (Except ε α) := ((p.run answer s).1, (p.run answer s).2.result)

@[simp] theorem eval_ok (a : α) (s : σ) :
    (ok a : Program Op Res ε α).eval answer s = (s, some (.ok a)) := rfl

@[simp] theorem eval_error (e : ε) (s : σ) :
    (error e : Program Op Res ε α).eval answer s = (s, some (.error e)) := rfl

@[simp] theorem eval_panicked (message : String) (s : σ) :
    (panicked message : Program Op Res ε α).eval answer s = (s, none) := rfl

@[simp] theorem eval_ofExcept (r : Except ε α) (s : σ) :
    (ofExcept r : Program Op Res ε α).eval answer s = (s, some r) := by cases r <;> rfl

theorem eval_handle (p : Program Op Res ε α) (f : α → Program Op Res ε' β)
    (g : ε → Program Op Res ε' β) (s : σ) :
    (p.handle f g).eval answer s = match p.eval answer s with
      | (s', some (.ok a)) => (f a).eval answer s'
      | (s', some (.error e)) => (g e).eval answer s'
      | (s', none) => (s', none) := by
  rw [eval, eval, run_handle]
  rcases p.run answer s with ⟨s', a | e | message⟩ <;> rfl

theorem eval_call (op : Op) (next : Res op → Program Op Res ε α) (s : σ) :
    (call op next).eval answer s = (next (answer s op).2).eval answer (answer s op).1 := rfl

theorem eval_mapError (p : Program Op Res ε α) (f : ε → ε') (s : σ) :
    (p.mapError f).eval answer s =
      ((p.eval answer s).1, (p.eval answer s).2.map (·.mapError f)) := by
  rw [mapError, eval_handle]
  rcases p.eval answer s with ⟨s', _ | _ | _⟩ <;> rfl

theorem eval_attempt (p : Program Op Res ε α) (s : σ) :
    (p.attempt : Program Op Res ε' (Except ε α)).eval answer s
      = ((p.eval answer s).1, (p.eval answer s).2.map .ok) := by
  rw [attempt, eval_handle]
  rcases p.eval answer s with ⟨s', _ | _ | _⟩ <;> rfl

theorem eval_bind (p : Program Op Res ε α) (f : α → Program Op Res ε β) (s : σ) :
    (p >>= f).eval answer s = match p.eval answer s with
      | (s', some (.ok a)) => (f a).eval answer s'
      | (s', some (.error e)) => (s', some (.error e))
      | (s', none) => (s', none) := eval_handle p f error s

/-- **The loop rule.**  If every round finishes and carries an invariant over, the loop does. -/
theorem run_foldlM {f : β → α → Program Op Res ε β} {P : List α → β → σ → Prop} {l : List α}
    (h : ∀ done a, a ∈ l → ∀ b s, P done b s →
      ∃ b' s', (f b a).run answer s = (s', .ok b') ∧ P (done ++ [a]) b' s')
    {done : List α} {b : β} {s : σ} (hP : P done b s) :
    ∃ b' s', (l.foldlM f b).run answer s = (s', .ok b') ∧ P (done ++ l) b' s' := by
  induction l generalizing done b s with
  | nil => exact ⟨b, s, rfl, by rwa [List.append_nil]⟩
  | cons a l ih =>
    obtain ⟨b₁, s₁, hrun, hP₁⟩ := h done a List.mem_cons_self b s hP
    obtain ⟨b₂, s₂, hrun₂, hP₂⟩ :=
      ih (fun done c hc ↦ h done c (List.mem_cons_of_mem _ hc)) hP₁
    refine ⟨b₂, s₂, ?_, by rwa [List.append_cons]⟩
    rw [List.foldlM_cons, run_bind_of hrun, hrun₂]

/-- **Go on behind the first part of a loop** that finished. -/
theorem run_foldlM_append {f : β → α → Program Op Res ε β} {l : List α} (l' : List α) {b b' : β}
    {s s' : σ} (h : (l.foldlM f b).run answer s = (s', .ok b')) :
    ((l ++ l').foldlM f b).run answer s = (l'.foldlM f b').run answer s' := by
  induction l generalizing b s with
  | nil =>
    obtain ⟨rfl, hb⟩ := Prod.ext_iff.mp h
    obtain rfl := Outcome.ok.inj hb
    rfl
  | cons a l ih =>
    rw [List.foldlM_cons] at h
    rw [List.cons_append, List.foldlM_cons]
    rcases hround : (f b a).run answer s with ⟨s₁, b₁ | e | message⟩
    · rw [run_bind_of hround] at h ⊢
      exact ih h
    · rw [run_bind_of_error hround] at h
      exact nomatch h
    · rw [run_bind_of_panicked hround] at h
      exact nomatch h

/-- A loop panics if it comes to a round that does. -/
theorem run_foldlM_panicked {f : β → α → Program Op Res ε β} {P : β → σ → Prop} {Q : α → Prop}
    {l : List α} (hex : ∃ a ∈ l, Q a)
    (hok : ∀ a ∈ l, ¬ Q a → ∀ b s, P b s →
      ∃ b' s', (f b a).run answer s = (s', .ok b') ∧ P b' s')
    (hpanic : ∀ a ∈ l, Q a → ∀ b s, P b s → ∃ s' message,
      (f b a).run answer s = (s', .panicked message)) {b : β} {s : σ} (hP : P b s) :
    ∃ s' message, (l.foldlM f b).run answer s = (s', .panicked message) := by
  induction l generalizing b s with
  | nil => simp at hex
  | cons a l ih =>
    rw [List.foldlM_cons]
    by_cases ha : Q a
    · obtain ⟨s', message, hrun⟩ := hpanic a List.mem_cons_self ha b s hP
      exact ⟨s', message, run_bind_of_panicked hrun _⟩
    · obtain ⟨b', s', hrun, hP'⟩ := hok a List.mem_cons_self ha b s hP
      rw [run_bind_of hrun]
      refine ih ?_ (fun c hc ↦ hok c (List.mem_cons_of_mem _ hc))
        (fun c hc ↦ hpanic c (List.mem_cons_of_mem _ hc)) hP'
      obtain ⟨c, hc, hQ⟩ := hex
      exact ⟨c, (List.mem_cons.mp hc).resolve_left fun heq ↦ ha (heq ▸ hQ), hQ⟩

/-- The system stops while a program runs on it: some calls have been answered, and the next one is
cut short. -/
def crash (answer : σ → (op : Op) → σ × Res op) (cut : σ → Op → σ) :
    Program Op Res ε α → ℕ → σ → σ
  | ok _, _, s => s
  | error _, _, s => s
  | panicked _, _, s => s
  | call op _, 0, s => cut s op
  | call op next, n + 1, s => (next (answer s op).2).crash answer cut n (answer s op).1

/-! ## What a program can return -/

/-- Whatever its calls are answered, a program returns nothing but such values. -/
def Returns (Q : α → Prop) : Program Op Res ε α → Prop
  | ok a => Q a
  | error _ => True
  | panicked _ => True
  | call _ next => ∀ r, (next r).Returns Q

section Returns

variable {Q : α → Prop} {p : Program Op Res ε α}

theorem Returns.of_run (h : p.Returns Q) {s s' : σ} {a : α} (hrun : p.run answer s = (s', .ok a)) :
    Q a := by
  induction p generalizing s with
  | ok b =>
    obtain ⟨-, hab⟩ := Prod.ext_iff.mp hrun
    rw [← Outcome.ok.inj hab]
    exact h
  | error e => exact nomatch (Prod.ext_iff.mp hrun).2
  | panicked message => exact nomatch (Prod.ext_iff.mp hrun).2
  | call op next ih => exact ih _ (h _) hrun

/-- A program returns only such values if each part goes on from what the part before returns. -/
theorem Returns.handle (h : p.Returns Q) {f : α → Program Op Res ε' β}
    {g : ε → Program Op Res ε' β} {R : β → Prop} (hf : ∀ a, Q a → (f a).Returns R)
    (hg : ∀ e, (g e).Returns R) : (p.handle f g).Returns R := by
  induction p with
  | ok a => exact hf a h
  | error e => exact hg e
  | panicked message => exact trivial
  | call op next ih => exact fun r ↦ ih r (h r)

theorem Returns.bind (h : p.Returns Q) {f : α → Program Op Res ε β} {R : β → Prop}
    (hf : ∀ a, Q a → (f a).Returns R) : (p >>= f).Returns R :=
  h.handle hf fun _ ↦ trivial

theorem Returns.expect (h : p.Returns Q) (message : String) :
    (p.expect message : Program Op Res ε' α).Returns Q :=
  h.handle (fun _ ha ↦ ha) fun _ ↦ trivial

theorem returns_true (p : Program Op Res ε α) : p.Returns fun _ ↦ True := by
  induction p with
  | ok a => exact trivial
  | error e => exact trivial
  | panicked message => exact trivial
  | call op next ih => exact ih

/-- What every round of a loop carries over, the loop returns. -/
theorem returns_foldlM {f : β → α → Program Op Res ε β} {R : β → Prop}
    (hf : ∀ b a, R b → (f b a).Returns R) (l : List α) {b : β} (hb : R b) :
    (l.foldlM f b).Returns R := by
  induction l generalizing b with
  | nil => exact hb
  | cons a l ih =>
    rw [List.foldlM_cons]
    exact (hf b a hb).bind fun _ hb' ↦ ih hb'

end Returns

/-! ## What a program calls -/

/-- Whatever its calls are answered, a program makes only such calls. -/
def Calls (P : Op → Prop) : Program Op Res ε α → Prop
  | ok _ => True
  | error _ => True
  | panicked _ => True
  | call op next => P op ∧ ∀ r, (next r).Calls P

section Calls

variable {P : Op → Prop} {p : Program Op Res ε α}

theorem calls_pure (a : α) : (pure a : Program Op Res ε α).Calls P := trivial

theorem calls_ofExcept (r : Except ε α) : (ofExcept r : Program Op Res ε α).Calls P := by
  cases r <;> exact trivial

theorem Calls.mono (h : p.Calls P) {P' : Op → Prop} (hP : ∀ op, P op → P' op) : p.Calls P' := by
  induction p with
  | ok a => exact trivial
  | error e => exact trivial
  | panicked message => exact trivial
  | call op next ih => exact ⟨hP op h.1, fun r ↦ ih r (h.2 r)⟩

theorem Calls.handle (h : p.Calls P) {f : α → Program Op Res ε' β} {g : ε → Program Op Res ε' β}
    (hf : ∀ a, (f a).Calls P) (hg : ∀ e, (g e).Calls P) : (p.handle f g).Calls P := by
  induction p with
  | ok a => exact hf a
  | error e => exact hg e
  | panicked message => exact trivial
  | call op next ih => exact ⟨h.1, fun r ↦ ih r (h.2 r)⟩

theorem Calls.bind (h : p.Calls P) {f : α → Program Op Res ε β} (hf : ∀ a, (f a).Calls P) :
    (p >>= f).Calls P := h.handle hf fun _ ↦ trivial

/-- What a program goes on with depends on what the part before can return. -/
theorem Calls.bind_of_returns (h : p.Calls P) {Q : α → Prop} (hp : p.Returns Q)
    {f : α → Program Op Res ε β} (hf : ∀ a, Q a → (f a).Calls P) : (p >>= f).Calls P := by
  induction p with
  | ok a => exact hf a hp
  | error e => exact trivial
  | panicked message => exact trivial
  | call op next ih => exact ⟨h.1, fun r ↦ ih r (h.2 r) (hp r)⟩

theorem Calls.mapError (h : p.Calls P) (f : ε → ε') : (p.mapError f).Calls P :=
  h.handle (fun _ ↦ trivial) fun _ ↦ trivial

theorem Calls.expect (h : p.Calls P) (message : String) :
    (p.expect message : Program Op Res ε' α).Calls P :=
  h.handle (fun _ ↦ trivial) fun _ ↦ trivial

theorem Calls.attempt (h : p.Calls P) : (p.attempt : Program Op Res ε' (Except ε α)).Calls P :=
  h.handle (fun _ ↦ trivial) fun _ ↦ trivial

/-- What the rounds of a loop call. -/
theorem calls_foldlM {f : β → α → Program Op Res ε β} {l : List α}
    (h : ∀ a ∈ l, ∀ b, (f b a).Calls P) (b : β) : (l.foldlM f b).Calls P := by
  induction l generalizing b with
  | nil => exact trivial
  | cons a l ih =>
    rw [List.foldlM_cons]
    exact (h a List.mem_cons_self b).bind fun b' ↦
      ih (fun c hc ↦ h c (List.mem_cons_of_mem _ hc)) b'

/-- **What every call keeps, the program keeps.** -/
theorem Calls.run_inv (h : p.Calls P) {Inv : σ → Prop}
    (hinv : ∀ s op, P op → Inv s → Inv (answer s op).1) {s : σ} (hs : Inv s) :
    Inv (p.run answer s).1 := by
  induction p generalizing s with
  | ok a => exact hs
  | error e => exact hs
  | panicked message => exact hs
  | call op next ih => exact ih _ (h.2 _) (hinv s op h.1 hs)

/-- What every call keeps, finished or not, is kept when the system stops. -/
theorem Calls.crash_inv (h : p.Calls P) {cut : σ → Op → σ} {Inv : σ → Prop}
    (hinv : ∀ s op, P op → Inv s → Inv (answer s op).1)
    (hcut : ∀ s op, P op → Inv s → Inv (cut s op)) (n : ℕ) {s : σ} (hs : Inv s) :
    Inv (p.crash answer cut n s) := by
  induction p generalizing n s with
  | ok a => exact hs
  | error e => exact hs
  | panicked message => exact hs
  | call op next ih =>
    cases n with
    | zero => exact hcut s op h.1 hs
    | succ n => exact ih _ (h.2 _) n (hinv s op h.1 hs)

end Calls

/-! ## Which calls it makes, one after the other -/

/-- The program makes the calls of a list, in this order.  It ends with a value behind the last of
them, and before that it only ends, with an error or in a panic, if it has been answered in a way
that stops it.  Whether it has is kept as a proposition, and the value may depend on it. -/
def Makes (Stops : (op : Op) → Res op → Prop) (Q : α → Prop → Prop) :
    Program Op Res ε α → List Op → Prop → Prop
  | ok a, l, stopped => l = [] ∧ Q a stopped
  | error _, _, stopped => stopped
  | panicked _, _, stopped => stopped
  | call op next, l, stopped =>
    ∃ l', l = op :: l' ∧ ∀ r, (next r).Makes Stops Q l' (stopped ∨ Stops op r)

section Makes

variable {Stops : (op : Op) → Res op → Prop} {Q : α → Prop → Prop} {p : Program Op Res ε α}
  {l l' : List Op} {stopped : Prop}

/-- **Go on behind a program** that makes its calls. -/
theorem Makes.handle (h : p.Makes Stops Q l stopped) {f : α → Program Op Res ε' β}
    {g : ε → Program Op Res ε' β} {R : β → Prop → Prop}
    (hf : ∀ a stopped', (stopped → stopped') → Q a stopped' → (f a).Makes Stops R l' stopped')
    (hg : ∀ e m stopped', stopped' → (g e).Makes Stops R m stopped') :
    (p.handle f g).Makes Stops R (l ++ l') stopped := by
  induction p generalizing l stopped with
  | ok a =>
    obtain ⟨rfl, hQ⟩ := h
    exact hf a stopped id hQ
  | error e => exact hg e _ stopped h
  | panicked message => exact h
  | call op next ih =>
    obtain ⟨m, rfl, hnext⟩ := h
    refine ⟨m ++ l', rfl, fun r ↦ ih r (hnext r) fun a stopped' hle ↦ ?_⟩
    exact hf a stopped' fun hs ↦ hle (Or.inl hs)

theorem Makes.bind (h : p.Makes Stops Q l stopped) {f : α → Program Op Res ε β}
    {R : β → Prop → Prop}
    (hf : ∀ a stopped', (stopped → stopped') → Q a stopped' → (f a).Makes Stops R l' stopped') :
    (p >>= f).Makes Stops R (l ++ l') stopped :=
  h.handle hf fun _ _ _ hs ↦ hs

/-- Calls are not made by what is done with a result. -/
theorem Makes.map (h : p.Makes Stops Q l stopped) (f : α → β) (g : ε → ε') :
    (p.handle (fun a ↦ ok (f a)) fun e ↦ error (g e)).Makes Stops (fun _ _ ↦ True) l stopped := by
  rw [← List.append_nil l]
  exact h.handle (fun _ _ _ _ ↦ ⟨rfl, trivial⟩) fun _ _ _ hs ↦ hs

/-- A program that returns more needs no more calls. -/
theorem Makes.mono (h : p.Makes Stops Q l stopped) {R : α → Prop → Prop} {stopped' : Prop}
    (hle : stopped → stopped')
    (hQ : ∀ a s s', (stopped → s) → (s → s') → (stopped' → s') → Q a s → R a s') :
    p.Makes Stops R l stopped' := by
  induction p generalizing l stopped stopped' with
  | ok a => exact ⟨h.1, hQ a stopped stopped' id hle id h.2⟩
  | error e => exact hle h
  | panicked message => exact hle h
  | call op next ih =>
    obtain ⟨m, rfl, hnext⟩ := h
    refine ⟨m, rfl, fun r ↦ ih r (hnext r) (Or.imp_left hle) fun a s s' hs hss hs' ↦ ?_⟩
    exact hQ a s s' (fun h ↦ hs (Or.inl h)) hss fun h ↦ hs' (Or.inl h)

/-- The calls of a loop are those of its rounds. -/
theorem makes_foldlM {f : β → α → Program Op Res ε β} {g : α → List Op}
    (h : ∀ b a s, (stopped → s) → (f b a).Makes Stops (fun _ _ ↦ True) (g a) s)
    (as : List α) (b : β) :
    (as.foldlM f b).Makes Stops (fun _ _ ↦ True) (as.flatMap g) stopped := by
  suffices hall : ∀ s, (stopped → s) →
      (as.foldlM f b).Makes Stops (fun _ _ ↦ True) (as.flatMap g) s from hall stopped id
  induction as generalizing b with
  | nil => exact fun _ _ ↦ ⟨rfl, trivial⟩
  | cons a as ih =>
    intro s hs
    rw [List.foldlM_cons, List.flatMap_cons]
    exact (h b a s hs).bind fun b' s' hle _ ↦ ih b' s' fun h ↦ hle (hs h)

end Makes

end Program
