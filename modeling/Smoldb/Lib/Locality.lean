import Smoldb.Lib.FileTree

/-!
# Operations that stay in a directory

An operation on a file tree is local to a location if it changes nothing that is not there, and if
what it does there and what it returns depend on nothing that is not there.  All it may rely on is
that the location is in a directory.

The operations on paths of ordinary pieces are local to every location on their way, and operations
that are local to a location can be put one after the other.
-/

set_option autoImplicit false

namespace FileTree

variable {α β γ : Type} {dir path : List String}

/-- An operation changes nothing outside of a location, and depends on nothing there. -/
structure LocalTo (dir : List String) (f : FileTree α → FileTree α × β) : Prop where
  outside : ∀ t, t.lookup dir.dropLast = some .dir → ∀ q, ¬ dir <+: q →
    (f t).1.lookup q = t.lookup q
  congr : ∀ t t', t.lookup dir.dropLast = some .dir → t'.lookup dir.dropLast = some .dir →
    View.below dir t.lookup = View.below dir t'.lookup →
      (f t).2 = (f t').2 ∧ View.below dir (f t).1.lookup = View.below dir (f t').1.lookup

theorem not_prefix_dropLast (hdir : dir ≠ []) : ¬ dir <+: dir.dropLast := by
  intro h
  have hlen := h.length_le
  have hpos := List.length_pos_iff.mpr hdir
  rw [List.length_dropLast] at hlen
  omega

namespace LocalTo

variable {f : FileTree α → FileTree α × β}

/-- The location is still in a directory. -/
theorem lookup_dropLast (h : LocalTo dir f) (hdir : dir ≠ []) {t : FileTree α}
    (ht : t.lookup dir.dropLast = some .dir) : (f t).1.lookup dir.dropLast = some .dir := by
  rw [h.outside t ht _ (not_prefix_dropLast hdir)]
  exact ht

theorem pure (b : β) : LocalTo dir fun t : FileTree α ↦ (t, b) :=
  ⟨fun _ _ _ _ ↦ rfl, fun _ _ _ _ hsame ↦ ⟨rfl, hsame⟩⟩

/-- **One operation after the other.** -/
theorem bind (hdir : dir ≠ []) (hf : LocalTo dir f) {g : β → FileTree α → FileTree α × γ}
    (hg : ∀ b, LocalTo dir (g b)) : LocalTo dir fun t ↦ g (f t).2 (f t).1 := by
  constructor
  · intro t ht q hq
    rw [(hg _).outside _ (hf.lookup_dropLast hdir ht) q hq, hf.outside t ht q hq]
  · intro t t' ht ht' hsame
    obtain ⟨hreply, hbelow⟩ := hf.congr t t' ht ht' hsame
    rw [hreply]
    exact (hg _).congr _ _ (hf.lookup_dropLast hdir ht) (hf.lookup_dropLast hdir ht') hbelow

theorem map (hf : LocalTo dir f) (g : β → γ) : LocalTo dir fun t ↦ ((f t).1, g (f t).2) := by
  constructor
  · exact fun t ht q hq ↦ hf.outside t ht q hq
  · intro t t' ht ht' hsame
    obtain ⟨hreply, hbelow⟩ := hf.congr t t' ht ht' hsame
    exact ⟨congrArg g hreply, hbelow⟩

end LocalTo

/-- What is at or below a location is the same in trees that look the same there. -/
theorem lookup_congr_below {t t' : FileTree α}
    (hsame : View.below dir t.lookup = View.below dir t'.lookup) (hpath : dir <+: path) :
    t.lookup path = t'.lookup path := by
  obtain ⟨r, rfl⟩ := hpath
  exact congrFun hsame r

/-- The directory a path ends in is the same in trees that look the same below a location on the
path. -/
theorem lookup_dropLast_congr {t t' : FileTree α} (ht : t.lookup dir.dropLast = some .dir)
    (ht' : t'.lookup dir.dropLast = some .dir)
    (hsame : View.below dir t.lookup = View.below dir t'.lookup) (hpath : dir <+: path) :
    t.lookup path.dropLast = t'.lookup path.dropLast := by
  obtain ⟨r, rfl⟩ := hpath
  by_cases hr : r = []
  · rw [hr, List.append_nil, ht, ht']
  · rw [List.dropLast_append_of_ne_nil hr]
    exact lookup_congr_below hsame (List.prefix_append _ _)

theorem resolveFrom_concat {t : FileTree α} {d : List String} (path : List String)
    (piece : String) : t.resolveFrom d (path ++ [piece]) = (t.resolveFrom d path).bind fun p ↦
      if t.lookup p = some .dir then some (follow p piece) else none := by
  induction path generalizing d with
  | nil => rfl
  | cons first path ih =>
    rw [List.cons_append, resolveFrom, resolveFrom]
    split
    · exact ih
    · rfl

/-- Where a path of ordinary pieces leads. -/
theorem resolve_eq {t : FileTree α} (h : ∀ piece ∈ path, Ordinary piece) (hpath : path ≠ []) :
    t.resolve path = if t.lookup path.dropLast = some .dir then some path else none := by
  split
  · rename_i hdir
    exact resolve_of_ordinary h hdir
  · rename_i hdir
    rw [Option.eq_none_iff_forall_ne_some]
    intro p hp
    obtain ⟨init, piece, rfl⟩ := (List.eq_nil_or_concat' path).resolve_left hpath
    rw [List.dropLast_concat] at hdir
    rw [resolve, resolveFrom_concat] at hp
    cases hinit : t.resolveFrom [] init with
    | none =>
      rw [hinit] at hp
      cases hp
    | some q =>
      have hq : q = init := eq_of_resolve (fun s hs ↦ h s (List.mem_append_left _ hs)) hinit
      rw [hinit, Option.bind_some, hq, if_neg hdir] at hp
      cases hp

section Ordinary

variable (h : ∀ piece ∈ path, Ordinary piece) (hpath : dir <+: path)

include h hpath

theorem localTo_get : LocalTo dir fun t : FileTree α ↦ (t, t.get path) := by
  refine ⟨fun _ _ _ _ ↦ rfl, fun t t' _ _ hsame ↦ ⟨?_, hsame⟩⟩
  show t.get path = t'.get path
  rw [get_eq_lookup h, get_eq_lookup h, lookup_congr_below hsame hpath]

theorem localTo_read : LocalTo dir fun t : FileTree α ↦ (t, t.read path) := by
  refine ⟨fun _ _ _ _ ↦ rfl, fun t t' ht ht' hsame ↦ ⟨?_, hsame⟩⟩
  have hget : t.get path = t'.get path := ((localTo_get h hpath).congr t t' ht ht' hsame).1
  show t.read path = t'.read path
  rw [read, read, hget]

end Ordinary

/-- Something is put at a location, or not. -/
theorem lookup_put_eq (t : FileTree α) (p : List String) (n : FileNode α) (q : List String) :
    (t.put p n).lookup q = if t.Free p ∧ q = p then some n else t.lookup q := by
  by_cases hp : t.Free p
  · rw [lookup_put hp]
    by_cases hq : q = p
    · rw [if_pos hq, if_pos ⟨hp, hq⟩]
    · rw [if_neg hq, if_neg fun h ↦ hq h.2]
  · rw [put, dif_neg hp, if_neg fun h ↦ hp h.1]

theorem free_congr {t t' : FileTree α} (ht : t.lookup dir.dropLast = some .dir)
    (ht' : t'.lookup dir.dropLast = some .dir)
    (hsame : View.below dir t.lookup = View.below dir t'.lookup) (hpath : dir <+: path) :
    t.Free path ↔ t'.Free path := by
  rw [Free, Free, lookup_dropLast_congr ht ht' hsame hpath, lookup_congr_below hsame hpath]

theorem localTo_put (hpath : dir <+: path) (n : FileNode α) (b : β) :
    LocalTo dir fun t ↦ (t.put path n, b) := by
  constructor
  · intro t _ q hq
    rw [lookup_put_eq, if_neg]
    rintro ⟨-, rfl⟩
    exact hq hpath
  · intro t t' ht ht' hsame
    refine ⟨rfl, funext fun r ↦ ?_⟩
    simp only [View.below, lookup_put_eq, free_congr ht ht' hsame hpath]
    rw [lookup_congr_below hsame (List.prefix_append dir r)]

theorem localTo_prune (hpath : dir <+: path) (hne : path ≠ []) (b : β) :
    LocalTo dir fun t : FileTree α ↦ (t.prune path, b) := by
  constructor
  · intro t _ q hq
    rw [lookup_prune hne, if_neg fun h ↦ hq (hpath.trans h)]
  · intro t t' _ _ hsame
    refine ⟨rfl, funext fun r ↦ ?_⟩
    simp only [View.below, lookup_prune hne]
    rw [lookup_congr_below hsame (List.prefix_append dir r)]

/-- An operation does one thing or another, depending on what is at or below the location. -/
theorem LocalTo.ite {f g : FileTree α → FileTree α × β} (hf : LocalTo dir f) (hg : LocalTo dir g)
    {P : FileTree α → Prop} [DecidablePred P]
    (hP : ∀ t t', t.lookup dir.dropLast = some .dir → t'.lookup dir.dropLast = some .dir →
      View.below dir t.lookup = View.below dir t'.lookup → (P t ↔ P t')) :
    LocalTo dir fun t ↦ if P t then f t else g t := by
  constructor
  · intro t ht q hq
    split
    · exact hf.outside t ht q hq
    · exact hg.outside t ht q hq
  · intro t t' ht ht' hsame
    simp only [hP t t' ht ht' hsame]
    split
    · exact hf.congr t t' ht ht' hsame
    · exact hg.congr t t' ht ht' hsame

section Ordinary

variable (h : ∀ piece ∈ path, Ordinary piece) (hpath : dir <+: path) (hdir : dir ≠ [])

include h hpath hdir

theorem localTo_write (content : α) : LocalTo dir fun t ↦ t.write path content := by
  have hne : path ≠ [] := fun heq ↦ hdir (List.prefix_nil.mp (heq ▸ hpath))
  have hwrite : (fun t : FileTree α ↦ t.write path content) = fun t ↦
      if t.lookup path.dropLast = some .dir then
        if t.lookup path = some .dir then (t, .error .isADirectory)
        else (t.put path (.file content), .ok ())
      else (t, .error .notFound) := by
    funext t
    rw [write, resolve_eq h hne]
    by_cases hparent : t.lookup path.dropLast = some .dir
    · rw [if_pos hparent, if_pos hparent]
    · rw [if_neg hparent, if_neg hparent]
  rw [hwrite]
  refine .ite (.ite (.pure _) (localTo_put hpath _ _) ?_) (.pure _) ?_
  · intro t t' _ _ hsame
    rw [lookup_congr_below hsame hpath]
  · intro t t' ht ht' hsame
    rw [lookup_dropLast_congr ht ht' hsame hpath]

theorem localTo_removeDirAll : LocalTo dir fun t : FileTree α ↦ t.removeDirAll path := by
  have hne : path ≠ [] := fun heq ↦ hdir (List.prefix_nil.mp (heq ▸ hpath))
  have hremove : (fun t : FileTree α ↦ t.removeDirAll path) = fun t ↦
      if t.lookup path.dropLast = some .dir then
        if t.lookup path = some .dir then (t.prune path, .ok ())
        else if (t.lookup path).isSome then (t, .error .notADirectory)
        else (t, .error .notFound)
      else (t, .error .notFound) := by
    funext t
    rw [removeDirAll, resolve_eq h hne]
    by_cases hparent : t.lookup path.dropLast = some .dir
    · rw [if_pos hparent, if_pos hparent]
      rcases hl : t.lookup path with _ | _ | a <;> simp [hl]
    · rw [if_neg hparent, if_neg hparent]
  rw [hremove]
  refine .ite (.ite (localTo_prune hpath hne _) (.ite (.pure _) (.pure _) ?_) ?_) (.pure _) ?_
  · intro t t' _ _ hsame
    rw [lookup_congr_below hsame hpath]
  · intro t t' _ _ hsame
    rw [lookup_congr_below hsame hpath]
  · intro t t' ht ht' hsame
    rw [lookup_dropLast_congr ht ht' hsame hpath]

end Ordinary

/-- `ensureDir` as an operation. -/
def makeDir (p : List String) (t : FileTree α) : FileTree α × Except Error Unit :=
  match t.ensureDir p with
  | .error e => (t, .error e)
  | .ok t => (t, .ok ())

/-- What `createDirAllFrom` does behind the first piece. -/
def makeRest (d rest : List String) : Except Error Unit → FileTree α →
    FileTree α × Except Error Unit
  | .error e, t => (t, .error e)
  | .ok _, t => t.createDirAllFrom d rest

theorem localTo_makeDir (hpath : dir <+: path) : LocalTo dir fun t : FileTree α ↦
    t.makeDir path := by
  have hmake : (fun t : FileTree α ↦ t.makeDir path) = fun t ↦
      if t.lookup path = some .dir then (t, .ok ())
      else if (t.lookup path).isSome then (t, .error .alreadyExists)
      else (t.put path .dir, .ok ()) := by
    funext t
    rw [makeDir, ensureDir]
    rcases t.lookup path with _ | _ | a <;> rfl
  rw [hmake]
  refine .ite (.pure _) (.ite (.pure _) (localTo_put hpath _ _) ?_) ?_
  · intro t t' _ _ hsame
    rw [lookup_congr_below hsame hpath]
  · intro t t' _ _ hsame
    rw [lookup_congr_below hsame hpath]

theorem localTo_createDirAllFrom (hdir : dir ≠ []) {d rest : List String}
    (h : ∀ piece ∈ rest, Ordinary piece)
    (hrest : ∀ piece q, piece :: q <+: rest → dir <+: d ++ piece :: q) :
    LocalTo dir fun t : FileTree α ↦ t.createDirAllFrom d rest := by
  induction rest generalizing d with
  | nil => exact .pure _
  | cons piece rest ih =>
    have hfollow : follow d piece = d ++ [piece] := follow_of_ordinary (h piece (by simp)) d
    -- the directory of the first piece, and then the rest
    have hstep : (fun t : FileTree α ↦ t.createDirAllFrom d (piece :: rest)) = fun t ↦
        makeRest (d ++ [piece]) rest (t.makeDir (d ++ [piece])).2
          (t.makeDir (d ++ [piece])).1 := by
      funext t
      rw [createDirAllFrom, hfollow, makeDir]
      cases t.ensureDir (d ++ [piece]) <;> rfl
    rw [hstep]
    refine .bind hdir (localTo_makeDir (hrest piece [] (by simp))) ?_
    rintro (e | _)
    · exact .pure _
    · refine ih (fun s hs ↦ h s (List.mem_cons_of_mem _ hs)) fun s q hq ↦ ?_
      rw [← List.append_cons]
      exact hrest piece (s :: q) (by simpa using hq)

/-- Directories that are there are not made again. -/
theorem createDirAllFrom_append_of_dir {t : FileTree α} {d base rest : List String}
    (h : ∀ piece ∈ base, Ordinary piece) (hbase : t.lookup (d ++ base) = some .dir) :
    t.createDirAllFrom d (base ++ rest) = t.createDirAllFrom (d ++ base) rest := by
  induction base generalizing d with
  | nil => rw [List.nil_append, List.append_nil]
  | cons piece base ih =>
    rw [List.append_cons] at hbase ⊢
    have hd : t.lookup (d ++ [piece]) = some .dir := by
      by_cases hnil : base = []
      · rwa [hnil, List.append_nil] at hbase
      · exact lookup_of_append hnil hbase
    rw [List.cons_append, createDirAllFrom, follow_of_ordinary (h piece (by simp)), ensureDir, hd]
    exact ih (fun s hs ↦ h s (List.mem_cons_of_mem _ hs)) hbase

theorem localTo_createDirAll (h : ∀ piece ∈ path, Ordinary piece) (hpath : dir <+: path)
    (hdir : dir ≠ []) : LocalTo dir fun t : FileTree α ↦ t.createDirAll path := by
  obtain ⟨r, rfl⟩ := hpath
  obtain ⟨base, s, rfl⟩ := (List.eq_nil_or_concat' dir).resolve_left hdir
  have hord : ∀ piece ∈ base, Ordinary piece := fun piece hp ↦ h piece (by simp [hp])
  have hlocal : LocalTo (base ++ [s]) fun t : FileTree α ↦ t.createDirAllFrom base (s :: r) := by
    refine localTo_createDirAllFrom hdir (fun piece hp ↦ h piece ?_) fun piece q hq ↦ ?_
    · rw [List.append_assoc]
      exact List.mem_append_right _ hp
    · obtain ⟨rfl, -⟩ := List.cons_prefix_cons.mp hq
      exact (List.prefix_append_right_inj base).mpr (by simp)
  -- what is above the location is there, so that the work starts at the location
  have heq : ∀ t : FileTree α, t.lookup (base ++ [s]).dropLast = some .dir →
      t.createDirAll (base ++ [s] ++ r) = t.createDirAllFrom base (s :: r) := by
    intro t ht
    rw [List.dropLast_concat] at ht
    rw [createDirAll, List.append_assoc]
    exact createDirAllFrom_append_of_dir (d := []) hord ht
  constructor
  · intro t ht q hq
    rw [heq t ht]
    exact hlocal.outside t ht q hq
  · intro t t' ht ht' hsame
    rw [heq t ht, heq t' ht']
    exact hlocal.congr t t' ht ht' hsame

/-- Operations that do the same to the trees that have the location in a directory. -/
theorem LocalTo.of_eq {f g : FileTree α → FileTree α × β} (hg : LocalTo dir g)
    (heq : ∀ t, t.lookup dir.dropLast = some .dir → f t = g t) : LocalTo dir f := by
  constructor
  · intro t ht q hq
    rw [heq t ht]
    exact hg.outside t ht q hq
  · intro t t' ht ht' hsame
    rw [heq t ht, heq t' ht']
    exact hg.congr t t' ht ht' hsame

/-- Directories on the way to the location are there already. -/
theorem localTo_createDirAll_take (h : ∀ piece ∈ path, Ordinary piece) (hpath : dir <+: path)
    (hdir : dir ≠ []) (k : ℕ) : LocalTo dir fun t : FileTree α ↦ t.createDirAll (path.take k) := by
  have hord : ∀ piece ∈ path.take k, Ordinary piece := fun s hs ↦ h s (List.mem_of_mem_take hs)
  by_cases hk : dir.length ≤ k
  · refine localTo_createDirAll hord ?_ hdir
    obtain ⟨r, rfl⟩ := hpath
    rw [List.take_append, List.take_of_length_le hk]
    exact List.prefix_append _ _
  · refine LocalTo.of_eq (.pure (.ok ())) fun t ht ↦ createDirAll_of_dir hord ?_
    -- the piece that is missing comes no later than the last of the location
    have hprefix : path.take k <+: dir.dropLast := by
      obtain ⟨r, rfl⟩ := hpath
      rw [List.take_append_of_le_length (by omega), List.dropLast_eq_take]
      exact List.take_prefix_take_left (by omega)
    obtain ⟨r, hr⟩ := hprefix
    by_cases hnil : r = []
    · rw [hnil, List.append_nil] at hr
      rw [hr]
      exact ht
    · exact lookup_of_append hnil (hr ▸ ht)

/-! ## What an operation adds -/

/-- Whatever is there afterwards was there before, or is of this kind. -/
def AddsOnly (P : List String → FileNode α → Prop) (t t' : FileTree α) : Prop :=
  ∀ q n, t'.lookup q = some n → t.lookup q = some n ∨ P q n

namespace AddsOnly

variable {P : List String → FileNode α → Prop} {t t' t'' : FileTree α}

theorem refl (t : FileTree α) : AddsOnly P t t := fun _ _ h ↦ Or.inl h

theorem trans (h : AddsOnly P t t') (h' : AddsOnly P t' t'') : AddsOnly P t t'' :=
  fun q n hn ↦ (h' q n hn).elim (h q n) Or.inr

end AddsOnly

section AddsOnly

variable {P : List String → FileNode α → Prop}

theorem addsOnly_put (t : FileTree α) {p : List String} {n : FileNode α} (h : P p n) :
    AddsOnly P t (t.put p n) := by
  intro q m hm
  rw [lookup_put_eq] at hm
  split at hm
  · rename_i hq
    rw [hq.2, ← Option.some.inj hm]
    exact Or.inr h
  · exact Or.inl hm

theorem addsOnly_prune (t : FileTree α) (p : List String) : AddsOnly P t (t.prune p) := by
  intro q n hn
  by_cases hp : p = []
  · rw [prune, dif_pos hp] at hn
    exact Or.inl hn
  · rw [lookup_prune hp] at hn
    split at hn
    · cases hn
    · exact Or.inl hn

theorem addsOnly_write (t : FileTree α) (hord : ∀ piece ∈ path, Ordinary piece) {content : α}
    (h : P path (.file content)) : AddsOnly P t (t.write path content).1 := by
  rw [write]
  split
  · exact .refl t
  · rename_i p hp
    obtain rfl := eq_of_resolve hord hp
    split
    · exact .refl t
    · exact t.addsOnly_put h

theorem addsOnly_createDirAllFrom (t : FileTree α) {d rest : List String}
    (hord : ∀ piece ∈ rest, Ordinary piece) (h : ∀ q, q <+: rest → P (d ++ q) .dir) :
    AddsOnly P t (t.createDirAllFrom d rest).1 := by
  induction rest generalizing t d with
  | nil => exact .refl t
  | cons piece rest ih =>
    have hrest : ∀ t₁ : FileTree α,
        AddsOnly P t₁ (t₁.createDirAllFrom (d ++ [piece]) rest).1 := fun t₁ ↦ by
      refine ih t₁ (fun s hs ↦ hord s (List.mem_cons_of_mem _ hs)) fun q hq ↦ ?_
      rw [← List.append_cons]
      exact h (piece :: q) (by simpa using hq)
    rw [createDirAllFrom, follow_of_ordinary (hord piece (by simp)), ensureDir]
    rcases t.lookup (d ++ [piece]) with _ | _ | a
    · exact (t.addsOnly_put (h [piece] (by simp))).trans (hrest _)
    · exact hrest t
    · exact .refl t

theorem addsOnly_createDirAll (t : FileTree α) (hord : ∀ piece ∈ path, Ordinary piece)
    (h : ∀ q, q <+: path → P q .dir) : AddsOnly P t (t.createDirAll path).1 :=
  t.addsOnly_createDirAllFrom (d := []) hord h

end AddsOnly

end FileTree
