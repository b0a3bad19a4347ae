import Mathlib

/-!
# File trees

A file system without links: a finite map from locations, which are lists of names, to directories
and files.  Whatever is in the tree is in a directory of the tree; that is part of the type.

Programs do not name locations but paths, and a path is followed piece by piece: an empty piece and
`.` stay where they are, `..` leads up, and every piece but the last has to be a directory.  For a
path of ordinary pieces none of this matters, and `get_eq_lookup` and its companions say so.

`View` is what a tree looks like: what is at each location, and nothing else.  The lemmas about the
operations are about paths of ordinary pieces, and say what the tree looks like afterwards.
-/

set_option autoImplicit false

/-- What there can be at a location. -/
inductive FileNode (α : Type) where
  | dir
  | file (content : α)
  deriving DecidableEq

/-- A tree of directories and files. -/
structure FileTree (α : Type) where
  entries : AList fun _ : List String ↦ FileNode α
  root : entries.lookup [] = some .dir
  closed : ∀ d s n, entries.lookup (d ++ [s]) = some n → entries.lookup d = some .dir

namespace FileTree

/-- Why an operation fails. -/
inductive Error where
  | notFound
  | alreadyExists
  | notADirectory
  | isADirectory
  deriving DecidableEq

variable {α : Type}

/-! ## Locations -/

/-- What is below a location is not above it. -/
theorem not_append_prefix {p r : List String} (hr : r ≠ []) : ¬ p ++ r <+: p := by
  intro h
  have hlen := h.length_le
  rw [List.length_append] at hlen
  exact hr (List.length_eq_zero_iff.mp (by omega))

/-- What is at a location. -/
def lookup (t : FileTree α) (p : List String) : Option (FileNode α) := t.entries.lookup p

@[simp] theorem lookup_nil (t : FileTree α) : t.lookup [] = some .dir := t.root

/-- Everything above an entry is a directory. -/
theorem lookup_of_append {t : FileTree α} {d p : List String} {n : FileNode α} (hp : p ≠ [])
    (h : t.lookup (d ++ p) = some n) : t.lookup d = some .dir := by
  induction p using List.reverseRecOn generalizing n with
  | nil => exact absurd rfl hp
  | append_singleton p s ih =>
    rw [← List.append_assoc] at h
    have hdir : t.lookup (d ++ p) = some .dir := t.closed _ _ _ h
    by_cases hnil : p = []
    · rwa [hnil, List.append_nil] at hdir
    · exact ih hnil hdir

theorem lookup_dropLast {t : FileTree α} {p : List String} {n : FileNode α}
    (h : t.lookup p = some n) : t.lookup p.dropLast = some .dir := by
  rcases List.eq_nil_or_concat' p with rfl | ⟨d, s, rfl⟩
  · exact t.lookup_nil
  · rw [List.dropLast_concat]
    exact lookup_of_append (by simp) h

theorem lookup_append_eq_none {t : FileTree α} {d : List String} (h : t.lookup d ≠ some .dir)
    {p : List String} (hp : p ≠ []) : t.lookup (d ++ p) = none := by
  rw [Option.eq_none_iff_forall_ne_some]
  exact fun n hn ↦ h (lookup_of_append hp hn)

/-- Where there is nothing, no file is in the way. -/
theorem not_file_below {t : FileTree α} {p r q : List String}
    (hdir : t.lookup p.dropLast = some .dir) (hnone : t.lookup p = none) (hq : q <+: p ++ r)
    (a : α) : t.lookup q ≠ some (.file a) := by
  rcases List.prefix_or_prefix_of_prefix hq (List.prefix_append p r) with ⟨s, rfl⟩ | ⟨s, rfl⟩
  · by_cases hs : s = []
    · rw [hs, List.append_nil] at hnone
      rw [hnone]; simp
    · rw [List.dropLast_append_of_ne_nil hs] at hdir
      have hq : t.lookup q = some .dir := by
        by_cases hnil : s.dropLast = []
        · rwa [hnil, List.append_nil] at hdir
        · exact lookup_of_append hnil hdir
      rw [hq]; simp
  · by_cases hs : s = []
    · rw [hs, List.append_nil, hnone]; simp
    · rw [lookup_append_eq_none (by rw [hnone]; simp) hs]; simp

/-- The tree with nothing in it. -/
def empty : FileTree α where
  entries := AList.singleton [] .dir
  root := by rw [← AList.insert_empty, AList.lookup_insert]
  closed d s n h := by
    rw [← AList.insert_empty, AList.lookup_insert_ne (by simp), AList.lookup_empty] at h
    exact nomatch h

theorem lookup_empty_of_ne {p : List String} (hp : p ≠ []) :
    (empty : FileTree α).lookup p = none :=
  AList.lookup_eq_none.mpr fun h ↦ hp (by simpa [empty, AList.mem_keys] using h)

instance (n : Option (FileNode α)) : Decidable (n = some .dir) :=
  match n with
  | some .dir => .isTrue rfl
  | some (.file _) => .isFalse fun h ↦ nomatch h
  | none => .isFalse fun h ↦ nomatch h

/-- May something be put at a location?  It has to be in a directory, and no directory itself. -/
def Free (t : FileTree α) (p : List String) : Prop :=
  p ≠ [] ∧ t.lookup p.dropLast = some .dir ∧ t.lookup p ≠ some .dir

instance (t : FileTree α) (p : List String) : Decidable (t.Free p) :=
  inferInstanceAs (Decidable (_ ∧ _ ∧ _))

/-- Put something at a location, if it is free. -/
def put (t : FileTree α) (p : List String) (n : FileNode α) : FileTree α :=
  if h : t.Free p then
    { entries := t.entries.insert p n
      root := by rw [AList.lookup_insert_ne (Ne.symm h.1)]; exact t.root
      closed := by
        intro d s m hm
        by_cases hd : d ++ [s] = p
        · have hdir := h.2.1
          rw [← hd, List.dropLast_concat] at hdir
          rw [AList.lookup_insert_ne (by simp [← hd])]
          exact hdir
        · rw [AList.lookup_insert_ne hd] at hm
          have hdir : t.lookup d = some .dir := t.closed d s m hm
          rw [AList.lookup_insert_ne fun hdp ↦ h.2.2 (by rw [← hdp]; exact hdir)]
          exact hdir }
  else t

theorem lookup_put {t : FileTree α} {p : List String} (h : t.Free p) (n : FileNode α)
    (q : List String) : (t.put p n).lookup q = if q = p then some n else t.lookup q := by
  rw [put, dif_pos h]
  split
  · rename_i hq; rw [hq]; exact AList.lookup_insert _
  · rename_i hq; exact AList.lookup_insert_ne hq

/-- The entries that are not at or below a location. -/
def entriesOutside (t : FileTree α) (p : List String) : AList fun _ : List String ↦ FileNode α :=
  ⟨t.entries.entries.filter fun e ↦ ¬ p <+: e.1,
    List.NodupKeys.sublist List.filter_sublist t.entries.nodupKeys⟩

theorem lookup_entriesOutside (t : FileTree α) (p q : List String) :
    (t.entriesOutside p).lookup q = if p <+: q then none else t.lookup q := by
  refine Option.ext fun n ↦ ?_
  rw [← Option.mem_def, AList.mem_lookup_iff, entriesOutside, List.mem_filter]
  split
  · rename_i hpq; simp [hpq]
  · rename_i hpq; simp [hpq, lookup, ← AList.mem_lookup_iff]

/-- The tree without what is at and below a location other than the root. -/
def prune (t : FileTree α) (p : List String) : FileTree α :=
  if h : p = [] then t
  else
    { entries := t.entriesOutside p
      root := by rw [lookup_entriesOutside, if_neg (by simpa using h)]; exact t.root
      closed := by
        intro d s n hn
        rw [lookup_entriesOutside] at hn ⊢
        split at hn
        · exact nomatch hn
        · rename_i hds
          rw [if_neg fun hd ↦ hds (hd.trans (List.prefix_append d [s]))]
          exact t.closed d s n hn }

theorem lookup_prune {t : FileTree α} {p : List String} (hp : p ≠ []) (q : List String) :
    (t.prune p).lookup q = if p <+: q then none else t.lookup q := by
  rw [prune, dif_neg hp]
  exact lookup_entriesOutside t p q

/-- The name of a location in a directory, if it is in it. -/
def nameIn (d p : List String) : Option String := if p.dropLast = d then p.getLast? else none

/-- The names of what is in a directory. -/
def names (t : FileTree α) (d : List String) : List String := t.entries.keys.filterMap (nameIn d)

theorem nameIn_eq_some {d p : List String} {s : String} : nameIn d p = some s ↔ p = d ++ [s] := by
  rw [nameIn]
  constructor
  · intro h
    split at h
    · rename_i hd
      rw [← hd]
      exact (List.dropLast_append_getLast? s h).symm
    · exact nomatch h
  · rintro rfl
    simp

theorem mem_names {t : FileTree α} {d : List String} {s : String} :
    s ∈ t.names d ↔ t.lookup (d ++ [s]) ≠ none := by
  rw [names, List.mem_filterMap, lookup, Ne, AList.lookup_eq_none, not_not]
  constructor
  · rintro ⟨p, hp, hs⟩
    rw [← nameIn_eq_some.mp hs]
    exact AList.mem_keys.mpr hp
  · exact fun h ↦ ⟨_, AList.mem_keys.mp h, nameIn_eq_some.mpr rfl⟩

theorem names_nodup (t : FileTree α) (d : List String) : (t.names d).Nodup :=
  t.entries.keys_nodup.filterMap fun _ _ _ hp hq ↦
    (nameIn_eq_some.mp hp).trans (nameIn_eq_some.mp hq).symm

/-! ## Views -/

/-- What is at each location. -/
abbrev View (α : Type) := List String → Option (FileNode α)

namespace View

/-- Directories at a location and above it. -/
def withDirs (p : List String) (v : View α) : View α := fun q ↦ if q <+: p then some .dir else v q

/-- A file at a location. -/
def withFile (p : List String) (a : α) (v : View α) : View α :=
  fun q ↦ if q = p then some (.file a) else v q

/-- Nothing at a location and below it. -/
def without (p : List String) (v : View α) : View α := fun q ↦ if p <+: q then none else v q

/-- What is below a location. -/
def below (p : List String) (v : View α) : View α := fun q ↦ v (p ++ q)

variable (v : View α) (p q : List String)

@[simp] theorem below_apply : below p v q = v (p ++ q) := rfl

theorem below_withDirs : below p (withDirs (p ++ q) v) = withDirs q (below p v) := by
  funext r
  simp [below, withDirs]

theorem below_withDirs_self : below p (withDirs p v) = withDirs [] (below p v) := by
  have h := below_withDirs v p []
  rwa [List.append_nil] at h

theorem below_withFile (a : α) : below p (withFile (p ++ q) a v) = withFile q a (below p v) := by
  funext r
  simp [below, withFile]

theorem withDirs_withDirs (h : p <+: q) : withDirs q (withDirs p v) = withDirs q v := by
  funext r
  by_cases hr : r <+: q
  · simp only [withDirs, if_pos hr]
  · have hp : ¬ r <+: p := fun hp ↦ hr (hp.trans h)
    simp only [withDirs, if_neg hr, if_neg hp]

theorem withFile_withFile (a b : α) : withFile p b (withFile p a v) = withFile p b v := by
  funext r
  by_cases hr : r = p
  · simp only [withFile, if_pos hr]
  · simp only [withFile, if_neg hr]

variable {p q}

/-- Directories elsewhere are not seen. -/
theorem below_withDirs_of_not_prefix (h : ¬ p <+: q) : below p (withDirs q v) = below p v := by
  funext r
  rw [below, withDirs, if_neg fun hr ↦ h ((List.prefix_append p r).trans hr), below]

/-- Files elsewhere are not seen. -/
theorem below_withFile_of_not_prefix (h : ¬ p <+: q) (a : α) :
    below p (withFile q a v) = below p v := by
  funext r
  rw [below, withFile, if_neg fun hr ↦ h ⟨r, hr⟩, below]

@[simp] theorem below_without_self : below p (without p v) = fun _ ↦ none := by
  funext r
  rw [below, without, if_pos (List.prefix_append p r)]

/-- What is removed elsewhere is not missed. -/
theorem below_without_of_not_prefix (hpq : ¬ p <+: q) (hqp : ¬ q <+: p) :
    below p (without q v) = below p v := by
  funext r
  have hnot : ¬ q <+: p ++ r := fun h ↦
    (List.prefix_or_prefix_of_prefix (List.prefix_append p r) h).elim hpq hqp
  rw [below, without, if_neg hnot, below]

end View

/-- A directory of a tree is there with everything above it. -/
theorem withDirs_lookup {t : FileTree α} {p : List String} (h : t.lookup p = some .dir) :
    View.withDirs p t.lookup = t.lookup := by
  funext q
  rw [View.withDirs]
  split
  · rename_i hq
    obtain ⟨r, rfl⟩ := hq
    by_cases hr : r = []
    · rw [hr, List.append_nil] at h
      exact h.symm
    · exact (lookup_of_append hr h).symm
  · rfl

theorem lookup_put_file {t : FileTree α} {p : List String} (h : t.Free p) (a : α) :
    (t.put p (.file a)).lookup = View.withFile p a t.lookup := by
  funext q
  exact lookup_put h _ q

theorem lookup_prune_eq {t : FileTree α} {p : List String} (hp : p ≠ []) :
    (t.prune p).lookup = View.without p t.lookup := by
  funext q
  exact lookup_prune hp q

/-! ## Paths -/

/-- Follow one piece of a path. -/
def follow (d : List String) (piece : String) : List String :=
  if piece = "" ∨ piece = "." then d
  else if piece = ".." then d.dropLast
  else d ++ [piece]

/-- Where a path leads from a location. -/
def resolveFrom (t : FileTree α) (d : List String) : List String → Option (List String)
  | [] => some d
  | piece :: rest =>
    if t.lookup d = some .dir then t.resolveFrom (follow d piece) rest else none

/-- Where a path leads. -/
def resolve (t : FileTree α) (path : List String) : Option (List String) := t.resolveFrom [] path

/-- A piece of a path that is the name of something. -/
def Ordinary (piece : String) : Prop := piece ≠ "" ∧ piece ≠ "." ∧ piece ≠ ".."

instance (piece : String) : Decidable (Ordinary piece) := inferInstanceAs (Decidable (_ ∧ _ ∧ _))

theorem follow_of_ordinary {piece : String} (h : Ordinary piece) (d : List String) :
    follow d piece = d ++ [piece] := by
  rw [follow, if_neg (by simp [h.1, h.2.1]), if_neg h.2.2]

theorem resolveFrom_of_ordinary {t : FileTree α} {d path : List String}
    (h : ∀ piece ∈ path, Ordinary piece) (hdir : ∀ q s, q ++ [s] <+: path →
      t.lookup (d ++ q) = some .dir) : t.resolveFrom d path = some (d ++ path) := by
  induction path generalizing d with
  | nil => rw [resolveFrom, List.append_nil]
  | cons piece path ih =>
    have hd : t.lookup d = some .dir := by
      simpa using hdir [] piece (by simp)
    rw [resolveFrom, if_pos hd, follow_of_ordinary (h piece (by simp)), ih, ← List.append_cons]
    · exact fun s hs ↦ h s (List.mem_cons_of_mem _ hs)
    · intro q s hq
      rw [← List.append_cons]
      exact hdir (piece :: q) s (by simpa using hq)

/-- A path of ordinary pieces leads to the location with these names, if it leads anywhere. -/
theorem resolve_of_ordinary {t : FileTree α} {path : List String}
    (h : ∀ piece ∈ path, Ordinary piece) (hdir : t.lookup path.dropLast = some .dir) :
    t.resolve path = some path := by
  refine (resolveFrom_of_ordinary h fun q s hq ↦ ?_).trans (by rw [List.nil_append])
  rw [List.nil_append]
  obtain ⟨rest, rfl⟩ := hq
  by_cases hrest : rest = []
  · rw [hrest, List.append_nil, List.dropLast_concat] at hdir
    exact hdir
  · rw [List.dropLast_append_of_ne_nil hrest, List.append_assoc] at hdir
    exact lookup_of_append (by simp) hdir

/-- A path of ordinary pieces leads nowhere else. -/
theorem eq_of_resolve {t : FileTree α} {path p : List String}
    (h : ∀ piece ∈ path, Ordinary piece) (hp : t.resolve path = some p) : p = path := by
  have hfrom : ∀ (d : List String), t.resolveFrom d path = some p → p = d ++ path := by
    clear hp
    induction path with
    | nil => intro d hd; rw [List.append_nil]; exact (Option.some.inj hd).symm
    | cons piece path ih =>
      intro d hd
      rw [resolveFrom] at hd
      split at hd
      · rw [follow_of_ordinary (h piece (by simp))] at hd
        rw [ih (fun s hs ↦ h s (List.mem_cons_of_mem _ hs)) _ hd, ← List.append_cons]
      · exact nomatch hd
  exact hfrom [] hp

theorem lookup_eq_none_of_dropLast {t : FileTree α} {path : List String}
    (hdir : t.lookup path.dropLast ≠ some .dir) :
    t.lookup path = none := by
  rw [Option.eq_none_iff_forall_ne_some]
  exact fun n hn ↦ hdir (lookup_dropLast hn)

/-! ## Operations -/

/-- What a path leads to. -/
def get (t : FileTree α) (path : List String) : Except Error (FileNode α) :=
  match (t.resolve path).bind t.lookup with
  | some n => .ok n
  | none => .error .notFound

/-- Make sure that there is a directory at a location. -/
def ensureDir (t : FileTree α) (p : List String) : Except Error (FileTree α) :=
  match t.lookup p with
  | some .dir => .ok t
  | some (.file _) => .error .alreadyExists
  | none => .ok (t.put p .dir)

/-- Make the directories of a path that starts at a location. -/
def createDirAllFrom (t : FileTree α) (d : List String) : List String →
    FileTree α × Except Error Unit
  | [] => (t, .ok ())
  | piece :: rest =>
    match t.ensureDir (follow d piece) with
    | .error e => (t, .error e)
    | .ok t => t.createDirAllFrom (follow d piece) rest

/-- Make a directory, and the directories it is in. -/
def createDirAll (t : FileTree α) (path : List String) : FileTree α × Except Error Unit :=
  t.createDirAllFrom [] path

/-- Remove a directory and everything in it. -/
def removeDirAll (t : FileTree α) (path : List String) : FileTree α × Except Error Unit :=
  match t.resolve path with
  | none => (t, .error .notFound)
  | some p =>
    match t.lookup p with
    | none => (t, .error .notFound)
    | some (.file _) => (t, .error .notADirectory)
    | some .dir => (t.prune p, .ok ())

/-- The names of what is in a directory. -/
def readDir (t : FileTree α) (path : List String) : Except Error (List String) :=
  match t.resolve path with
  | none => .error .notFound
  | some p =>
    match t.lookup p with
    | none => .error .notFound
    | some (.file _) => .error .notADirectory
    | some .dir => .ok (t.names p)

/-- Write a file, which need not be there before. -/
def write (t : FileTree α) (path : List String) (content : α) : FileTree α × Except Error Unit :=
  match t.resolve path with
  | none => (t, .error .notFound)
  | some p =>
    if t.lookup p = some .dir then (t, .error .isADirectory)
    else (t.put p (.file content), .ok ())

/-- Read a file. -/
def read (t : FileTree α) (path : List String) : Except Error α :=
  match t.get path with
  | .error e => .error e
  | .ok .dir => .error .isADirectory
  | .ok (.file content) => .ok content

section Ordinary

variable {t : FileTree α} {path : List String} (h : ∀ piece ∈ path, Ordinary piece)

include h

/-- **Paths of ordinary pieces are locations.** -/
theorem get_eq_lookup : t.get path = match t.lookup path with
    | some n => .ok n
    | none => .error .notFound := by
  have hbind : (t.resolve path).bind t.lookup = t.lookup path := by
    by_cases hdir : t.lookup path.dropLast = some .dir
    · rw [resolve_of_ordinary h hdir, Option.bind_some]
    · rw [lookup_eq_none_of_dropLast hdir, Option.bind_eq_none_iff]
      intro p hp
      rw [eq_of_resolve h hp]
      exact lookup_eq_none_of_dropLast hdir
  rw [get, hbind]

theorem removeDirAll_of_dir (hdir : t.lookup path = some .dir) :
    t.removeDirAll path = (t.prune path, .ok ()) := by
  rw [removeDirAll, resolve_of_ordinary h (lookup_dropLast hdir)]
  simp only [hdir]

theorem readDir_of_dir (hdir : t.lookup path = some .dir) :
    t.readDir path = .ok (t.names path) := by
  rw [readDir, resolve_of_ordinary h (lookup_dropLast hdir)]
  simp only [hdir]

theorem write_of_free (hfree : t.Free path) (content : α) :
    t.write path content = (t.put path (.file content), .ok ()) := by
  rw [write, resolve_of_ordinary h hfree.2.1]
  simp only [if_neg hfree.2.2]

theorem read_of_file {content : α} (hfile : t.lookup path = some (.file content)) :
    t.read path = .ok content := by
  rw [read, get_eq_lookup h, hfile]

end Ordinary

theorem createDirAllFrom_of_dir {t : FileTree α} {d path : List String}
    (h : ∀ piece ∈ path, Ordinary piece) (hdir : t.lookup (d ++ path) = some .dir) :
    t.createDirAllFrom d path = (t, .ok ()) := by
  induction path generalizing d with
  | nil => rfl
  | cons piece path ih =>
    rw [List.append_cons] at hdir
    have hd : t.lookup (d ++ [piece]) = some .dir := by
      by_cases hnil : path = []
      · rwa [hnil, List.append_nil] at hdir
      · exact lookup_of_append hnil hdir
    rw [createDirAllFrom, follow_of_ordinary (h piece (by simp)), ensureDir, hd]
    exact ih (fun s hs ↦ h s (List.mem_cons_of_mem _ hs)) hdir

/-- A directory that is there already. -/
theorem createDirAll_of_dir {t : FileTree α} {path : List String}
    (h : ∀ piece ∈ path, Ordinary piece) (hdir : t.lookup path = some .dir) :
    t.createDirAll path = (t, .ok ()) :=
  createDirAllFrom_of_dir (d := []) h hdir

theorem createDirAllFrom_spec {t : FileTree α} {d path : List String}
    (h : ∀ piece ∈ path, Ordinary piece) (hd : t.lookup d = some .dir)
    (hfile : ∀ q a, q <+: path → t.lookup (d ++ q) ≠ some (.file a)) :
    ∃ t', t.createDirAllFrom d path = (t', .ok ()) ∧
      (∀ q, q <+: path → t'.lookup (d ++ q) = some .dir) ∧
      ∀ r, (∀ q, q <+: path → r ≠ d ++ q) → t'.lookup r = t.lookup r := by
  induction path generalizing t d with
  | nil =>
    refine ⟨t, rfl, fun q hq ↦ ?_, fun r _ ↦ rfl⟩
    rw [List.prefix_nil.mp hq, List.append_nil]
    exact hd
  | cons piece path ih =>
    -- the tree with the directory of the first piece
    have hfirst : ∃ t₁, t.ensureDir (d ++ [piece]) = .ok t₁ ∧
        t₁.lookup (d ++ [piece]) = some .dir ∧
        ∀ r, r ≠ d ++ [piece] → t₁.lookup r = t.lookup r := by
      cases hl : t.lookup (d ++ [piece]) with
      | none =>
        have hfree : t.Free (d ++ [piece]) := ⟨by simp, by simpa using hd, by simp [hl]⟩
        refine ⟨t.put (d ++ [piece]) .dir, by simp only [ensureDir, hl], ?_, fun r hr ↦ ?_⟩
        · rw [lookup_put hfree, if_pos rfl]
        · rw [lookup_put hfree, if_neg hr]
      | some n =>
        cases n with
        | dir => exact ⟨t, by simp only [ensureDir, hl], hl, fun r _ ↦ rfl⟩
        | file a => exact absurd hl (hfile [piece] a (by simp))
    obtain ⟨t₁, hensure, hdir, hsame⟩ := hfirst
    have hne : ∀ q, d ++ [piece] ++ q = d ++ [piece] → q = [] := fun q hq ↦ by simpa using hq
    obtain ⟨t', hrun, hdirs, hrest⟩ := ih
      (fun s hs ↦ h s (List.mem_cons_of_mem _ hs)) hdir (fun q a hq ↦ by
        by_cases hnil : q = []
        · rw [hnil, List.append_nil, hdir]; simp
        · rw [hsame _ fun heq ↦ hnil (hne q heq), ← List.append_cons]
          exact hfile (piece :: q) a (by simpa using hq))
    refine ⟨t', ?_, fun q hq ↦ ?_, fun r hr ↦ ?_⟩
    · rw [createDirAllFrom, follow_of_ordinary (h piece (by simp)), hensure]
      exact hrun
    · rcases List.prefix_cons_iff.mp hq with rfl | ⟨q', rfl, hq'⟩
      · rw [List.append_nil]
        have hdir' : t'.lookup (d ++ [piece]) = some .dir := by
          simpa using hdirs [] List.nil_prefix
        exact lookup_of_append (by simp) hdir'
      · rw [List.append_cons]
        exact hdirs q' hq'
    · rw [hrest r fun q hq ↦ ?_, hsame r fun heq ↦ ?_]
      · exact hr [piece] (by simp) heq
      · rw [← List.append_cons]
        exact hr (piece :: q) (by simpa using hq)

/-- **Making a directory** makes all directories on the way, and nothing else. -/
theorem createDirAll_spec {t : FileTree α} {path : List String}
    (h : ∀ piece ∈ path, Ordinary piece)
    (hfile : ∀ q a, q <+: path → t.lookup q ≠ some (.file a)) :
    ∃ t', t.createDirAll path = (t', .ok ()) ∧ t'.lookup = View.withDirs path t.lookup := by
  obtain ⟨t', hrun, hdirs, hrest⟩ := createDirAllFrom_spec (d := []) h t.lookup_nil hfile
  refine ⟨t', hrun, funext fun r ↦ ?_⟩
  rw [View.withDirs]
  split
  · rename_i hr
    exact hdirs r hr
  · rename_i hr
    exact hrest r fun q hq heq ↦ hr (by rw [heq]; exact hq)

/-! ## Directories that stay -/

/-- Directories stay directories. -/
def KeepsDirs (t t' : FileTree α) : Prop :=
  ∀ p, t.lookup p = some .dir → t'.lookup p = some .dir

namespace KeepsDirs

variable {t t' t'' : FileTree α}

theorem refl (t : FileTree α) : t.KeepsDirs t := fun _ h ↦ h

theorem trans (h : t.KeepsDirs t') (h' : t'.KeepsDirs t'') : t.KeepsDirs t'' :=
  fun p hp ↦ h' p (h p hp)

/-- A path leads where it has led before. -/
theorem resolveFrom (h : t.KeepsDirs t') {d path p : List String}
    (hp : t.resolveFrom d path = some p) : t'.resolveFrom d path = some p := by
  induction path generalizing d with
  | nil => exact hp
  | cons piece path ih =>
    rw [FileTree.resolveFrom] at hp ⊢
    split at hp
    · rename_i hd
      rw [if_pos (h d hd)]
      exact ih hp
    · exact nomatch hp

theorem get_dir (h : t.KeepsDirs t') {path : List String} (hdir : t.get path = .ok .dir) :
    t'.get path = .ok .dir := by
  rw [get] at hdir ⊢
  cases hp : t.resolve path with
  | none =>
    rw [hp] at hdir
    exact nomatch hdir
  | some p =>
    have hp' : t'.resolve path = some p := h.resolveFrom hp
    rw [hp, Option.bind_some] at hdir
    rw [hp', Option.bind_some, h p]
    cases hl : t.lookup p with
    | none =>
      rw [hl] at hdir
      exact nomatch hdir
    | some n =>
      rw [hl] at hdir
      rw [Except.ok.inj hdir]

end KeepsDirs

theorem keepsDirs_put (t : FileTree α) (p : List String) (n : FileNode α) :
    t.KeepsDirs (t.put p n) := by
  intro q hq
  by_cases hp : t.Free p
  · rw [lookup_put hp, if_neg fun heq ↦ hp.2.2 (by rwa [← heq])]
    exact hq
  · rwa [put, dif_neg hp]

theorem keepsDirs_write (t : FileTree α) (path : List String) (content : α) :
    t.KeepsDirs (t.write path content).1 := by
  rw [write]
  split
  · exact .refl t
  · split
    · exact .refl t
    · exact t.keepsDirs_put _ _

theorem keepsDirs_createDirAllFrom (t : FileTree α) (d path : List String) :
    t.KeepsDirs (t.createDirAllFrom d path).1 := by
  induction path generalizing t d with
  | nil => exact .refl t
  | cons piece path ih =>
    rw [createDirAllFrom, ensureDir]
    split
    · exact .refl t
    · rename_i t₁ hensure
      split at hensure
      · rw [← Except.ok.inj hensure]
        exact ih t _
      · exact nomatch hensure
      · rw [← Except.ok.inj hensure]
        exact (t.keepsDirs_put _ _).trans (ih _ _)

theorem keepsDirs_createDirAll (t : FileTree α) (path : List String) :
    t.KeepsDirs (t.createDirAll path).1 := t.keepsDirs_createDirAllFrom [] path

/-- One step on the way from a directory leads to a directory or to a place in one. -/
theorem lookup_follow {t : FileTree α} {d : List String} (hd : t.lookup d = some .dir)
    (piece : String) :
    t.lookup (follow d piece) = some .dir ∨ follow d piece = d ++ [piece] := by
  rw [follow]
  split
  · exact Or.inl hd
  · split
    · exact Or.inl (lookup_dropLast hd)
    · exact Or.inr rfl

theorem resolveFrom_of_createDirAllFrom {t t' : FileTree α} {d path : List String}
    (hd : t.lookup d = some .dir) (h : t.createDirAllFrom d path = (t', .ok ())) :
    ∃ p, t'.resolveFrom d path = some p ∧ t'.lookup p = some .dir := by
  induction path generalizing t d with
  | nil =>
    obtain rfl : t = t' := (Prod.ext_iff.mp h).1
    exact ⟨d, rfl, hd⟩
  | cons piece path ih =>
    rw [createDirAllFrom] at h
    split at h
    · exact nomatch (Prod.ext_iff.mp h).2
    · rename_i t₁ hensure
      -- the directory of the first piece is there now, and the one it is in still is
      have hfirst : t₁.lookup (follow d piece) = some .dir ∧ t.KeepsDirs t₁ := by
        rw [ensureDir] at hensure
        split at hensure
        · rename_i hl
          rw [← Except.ok.inj hensure]
          exact ⟨hl, .refl t⟩
        · exact nomatch hensure
        · rename_i hl
          rw [← Except.ok.inj hensure]
          have hfollow : follow d piece = d ++ [piece] :=
            (lookup_follow hd piece).resolve_left (by simp [hl])
          have hfree : t.Free (follow d piece) := by
            refine ⟨by simp [hfollow], ?_, by simp [hl]⟩
            rw [hfollow, List.dropLast_concat]
            exact hd
          exact ⟨by rw [lookup_put hfree, if_pos rfl], t.keepsDirs_put _ _⟩
      obtain ⟨p, hp, hdir⟩ := ih hfirst.1 h
      have hkeeps : t₁.KeepsDirs t' := by
        have hall := t₁.keepsDirs_createDirAllFrom (follow d piece) path
        rwa [h] at hall
      refine ⟨p, ?_, hdir⟩
      rw [resolveFrom, if_pos (hkeeps d (hfirst.2 d hd))]
      exact hp

/-- **What has been made is there**, whatever path it was made by. -/
theorem get_of_createDirAll {t t' : FileTree α} {path : List String}
    (h : t.createDirAll path = (t', .ok ())) : t'.get path = .ok .dir := by
  obtain ⟨p, hp, hdir⟩ := resolveFrom_of_createDirAllFrom t.lookup_nil h
  rw [get, resolve, hp, Option.bind_some, hdir]

theorem resolveFrom_congr {t t' : FileTree α} (h : t.lookup = t'.lookup) (d path : List String) :
    t.resolveFrom d path = t'.resolveFrom d path := by
  induction path generalizing d with
  | nil => rfl
  | cons piece path ih => rw [resolveFrom, resolveFrom, h, ih]

/-- What a path leads to is in what the tree looks like. -/
theorem get_congr {t t' : FileTree α} (h : t.lookup = t'.lookup) (path : List String) :
    t.get path = t'.get path := by
  rw [get, get, resolve, resolve, resolveFrom_congr h, h]

end FileTree
