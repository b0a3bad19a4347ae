import Smoldb.Disk.Faults
import Smoldb.Lib.BufWriter

/-!
# Saving a config

`CollectionConfig::save` writes through a `BufWriter` that is dropped at once.  A call of
`Disk.answer` that writes a text stands for all the calls that takes, and `writeFaults` says what
becomes of it, for whatever may become of the single calls: a `WriteResult` for each write there is,
which may take all of it, a part of it or none.  The writer itself is `Lib/BufWriter.lean`, and
`writeText_spec` has what it leaves in the file and what it returns.

A config that fits the buffer is only written when the writer is dropped, where errors are ignored,
so `save` returns `Ok` although the file may be empty or have a part of the config.  A config that
does not fit is written by `write_all`, which returns the error.  `saved_iff` says exactly when a
config that has been saved is on disk and is read back at a restart.

A write may stop within a character.  Of that character nothing is kept in the model, where a file
is a text (`keptText`); so what cannot be read as a config is not read as another one either.
-/

set_option autoImplicit false

namespace Smoldb

open FileTree (View)

variable {V : Type} {X : Crates V} {J : ConfigJson} {listing : Path → IterOrder String} {d : Disk}

/-! ## Texts that are written in parts -/

/-- The bytes of a text. -/
def textBytes (text : String) : List UInt8 := text.toByteArray.data.toList

theorem length_textBytes (text : String) : (textBytes text).length = text.utf8ByteSize := by
  rw [textBytes, Array.length_toList]
  rfl

/-- How many characters are complete within some bytes. -/
def wholeChars : List Char → ℕ → ℕ
  | [], _ => 0
  | c :: cs, n => if c.utf8Size ≤ n then wholeChars cs (n - c.utf8Size) + 1 else 0

theorem wholeChars_lt {cs : List Char} {n : ℕ} (h : n < String.utf8Len cs) :
    wholeChars cs n < cs.length := by
  induction cs generalizing n with
  | nil => exact absurd h (Nat.not_lt_zero n)
  | cons c cs ih =>
    rw [String.utf8Len_cons] at h
    rw [wholeChars, List.length_cons]
    split
    · exact Nat.succ_lt_succ (ih (by omega))
    · omega

theorem wholeChars_of_le {cs : List Char} {n : ℕ} (h : String.utf8Len cs ≤ n) :
    wholeChars cs n = cs.length := by
  induction cs generalizing n with
  | nil => rfl
  | cons c cs ih =>
    rw [String.utf8Len_cons] at h
    rw [wholeChars, if_pos (by omega), ih (by omega), List.length_cons]

/-- What is kept of a text when some of its bytes are. -/
def keptText (text : String) (n : ℕ) : String :=
  String.ofList (text.toList.take (wholeChars text.toList n))

theorem utf8Len_toList (text : String) : String.utf8Len text.toList = text.utf8ByteSize := by
  rw [← String.utf8ByteSize_ofList, String.ofList_toList]

/-- A text is kept if all of its bytes are. -/
theorem keptText_eq_iff {text : String} {n : ℕ} (h : n ≤ text.utf8ByteSize) :
    keptText text n = text ↔ n = text.utf8ByteSize := by
  have hkept : keptText text n = text ↔ wholeChars text.toList n = text.toList.length := by
    constructor
    · intro heq
      by_contra hne
      have hlt : wholeChars text.toList n < text.toList.length :=
        wholeChars_lt (Nat.lt_of_not_le fun hle ↦ hne (wholeChars_of_le hle))
      have hlen := congrArg (fun s : String ↦ s.toList.length) heq
      simp only [keptText, String.toList_ofList, List.length_take] at hlen
      omega
    · intro heq
      rw [keptText, heq, List.take_length, String.ofList_toList]
  rw [hkept]
  constructor
  · intro heq
    by_contra hne
    have hlt : n < String.utf8Len text.toList := by
      rw [utf8Len_toList]
      omega
    exact (wholeChars_lt hlt).ne heq
  · rintro rfl
    exact wholeChars_of_le (utf8Len_toList text).le

/-- What becomes of the calls that write a text to a new file. -/
def writeText (coming : List WriteResult) (text : String) : Sink UInt8 × Except String Unit :=
  (⟨[], coming⟩ : Sink UInt8).writeAll (textBytes text)

theorem writeText_ok_iff (coming : List WriteResult) (text : String) :
    (writeText coming text).2 = .ok () ↔ WriteResult.Completes coming text.utf8ByteSize := by
  rw [writeText, Sink.writeAll_ok_iff, length_textBytes]

/-- So much of a text is written, which is all of it if nothing goes wrong. -/
theorem writeText_spec (coming : List WriteResult) (text : String) :
    ∃ k ≤ text.utf8ByteSize, (writeText coming text).1.content.length = k ∧
      ((writeText coming text).2 = .ok () ↔ k = text.utf8ByteSize) := by
  obtain ⟨k, hk, hcontent, hok⟩ := (⟨[], coming⟩ : Sink UInt8).writeAll_spec (textBytes text)
  rw [List.nil_append] at hcontent
  rw [length_textBytes] at hk hok
  refine ⟨k, hk, ?_, hok⟩
  rw [writeText, hcontent, List.length_take, length_textBytes, min_eq_left hk]

/-- A write fails if one of its calls does. -/
def writeFaults (coming : List WriteResult) : Faults
  | .writeFile _ text =>
    match writeText coming text with
    | (file, .error message) => some ⟨wholeChars text.toList file.content.length, message⟩
    | (_, .ok ()) => none
  | _ => none

/-- **What `save` does with the text** of a config is what a `BufWriter` does with its bytes: it
ends in the same way, and the same is written. -/
theorem through_textBytes (coming : List WriteResult) (text : String) :
    BufWriter.through bufferCapacity (textBytes text) ⟨[], coming⟩
      = if text.utf8ByteSize < bufferCapacity then ((writeText coming text).1, .ok ())
        else writeText coming text := by
  rw [BufWriter.through_eq, length_textBytes]
  rfl

/-! ## Saving -/

/-- A text is written as far as the calls that takes go. -/
theorem Disk.faulty_writeFile (coming : List WriteResult) {path : Path} (hord : path.IsOrdinary)
    (hfree : d.Free path) (text : String) :
    d.faulty (writeFaults coming) listing (.writeFile path text)
      = (d.put path (.file (.text (keptText text (writeText coming text).1.content.length))),
          (writeText coming text).2) := by
  obtain ⟨k, hk, hlen, hok⟩ := writeText_spec coming text
  rw [hlen, faulty, writeFaults]
  rcases hwrite : writeText coming text with ⟨file, e | _⟩
  · simp only
    rw [hwrite] at hlen
    rw [cut, FileTree.write_of_free hord hfree, ← hlen]
    rfl
  · have hkept : keptText text k = text := by
      rw [keptText_eq_iff hk]
      exact hok.mp (Prod.ext_iff.mp hwrite).2
    simp only
    rw [answer, FileTree.write_of_free hord hfree, hkept]
    rfl

/-- The config is written to a new file, with what becomes of the calls that takes. -/
theorem CollectionConfig.run_writeFile (J : ConfigJson) (config : CollectionConfig) {path : Path}
    (hord : path.IsOrdinary) (hdir : d.lookup path = some .dir)
    (hfree : d.lookup (path ++ ["config.json"]) ≠ some .dir) (coming : List WriteResult) :
    ∃ d₁ d₂, (Fs.createFile (path ++ ["config.json"])).run
        (Disk.faulty (writeFaults coming) listing) d = (d₁, .ok ()) ∧
      (Fs.writeFile (path ++ ["config.json"]) (J.encode config)).run
        (Disk.faulty (writeFaults coming) listing) d₁
          = (d₂, match (writeText coming (J.encode config)).2 with
            | .ok () => .ok ()
            | .error e => .error e) ∧
      d₂.lookup = View.withFile (path ++ ["config.json"]) (.text (keptText (J.encode config)
        (writeText coming (J.encode config)).1.content.length)) d.lookup := by
  have h₁ : Path.IsOrdinary (path ++ ["config.json"]) := hord.append (by decide)
  have hfree₁ : d.Free (path ++ ["config.json"]) := by
    refine ⟨by simp, ?_, hfree⟩
    rw [List.dropLast_concat]
    exact hdir
  have hview₁ := FileTree.lookup_put_file hfree₁ (Contents.text "")
  have hfree₂ : (d.put (path ++ ["config.json"]) (.file (.text ""))).Free
      (path ++ ["config.json"]) := by
    refine ⟨by simp, ?_, ?_⟩
    · rw [List.dropLast_concat, hview₁, View.withFile, if_neg (by simp)]
      exact hdir
    · rw [hview₁, View.withFile, if_pos rfl]
      simp
  refine ⟨d.put (path ++ ["config.json"]) (.file (.text "")), _, ?_, ?_,
    (FileTree.lookup_put_file hfree₂ _).trans (by rw [hview₁, View.withFile_withFile])⟩
  · have hfault : writeFaults coming (.createFile (path ++ ["config.json"])) = none := rfl
    rw [Fs.createFile, Program.run_call, Disk.faulty, hfault]
    simp only [Disk.answer, FileTree.write_of_free h₁ hfree₁]
    rfl
  rw [Fs.writeFile, Program.run_call, Disk.faulty_writeFile coming h₁ hfree₂]
  rcases (writeText coming (J.encode config)).2 with e | _ <;> rfl

/-- What `save` returns when the write comes to some result. -/
def CollectionConfig.saveResult : Except String Unit → Program.Outcome StorageError Unit
  | .ok () => .ok ()
  | .error e => .error (.serviceError s!"Failed to write collection config: {e}")

theorem CollectionConfig.saveResult_eq_ok_iff {result : Except String Unit} :
    CollectionConfig.saveResult result = .ok () ↔ result = .ok () := by
  rcases result with e | _ <;> simp [saveResult]

/-- **What `save` returns and leaves** is what a `BufWriter` does with the text of the config. -/
theorem CollectionConfig.run_save (J : ConfigJson) (config : CollectionConfig) {path : Path}
    (hord : path.IsOrdinary) (hdir : d.lookup path = some .dir)
    (hfree : d.lookup (path ++ ["config.json"]) ≠ some .dir) (listing : Path → IterOrder String)
    (coming : List WriteResult)
    {file : Sink UInt8} {result : Except String Unit}
    (hfile : BufWriter.through bufferCapacity (textBytes (J.encode config)) ⟨[], coming⟩
      = (file, result)) :
    ∃ d', (config.save J path).run (Disk.faulty (writeFaults coming) listing) d
        = (d', CollectionConfig.saveResult result) ∧
      d'.lookup = View.withFile (path ++ ["config.json"])
        (.text (keptText (J.encode config) file.content.length)) d.lookup := by
  obtain ⟨d₁, d₂, hcreate, hwrite, hview⟩ :=
    CollectionConfig.run_writeFile J config hord hdir hfree coming
  rw [through_textBytes] at hfile
  refine ⟨d₂, ?_, ?_⟩
  · rw [CollectionConfig.save, J.toVec_eq, Program.run_bind_of (Program.run_mapError_of
      (Program.run_ofExcept_ok _ d) _), Program.run_bind_of (Program.run_mapError_of hcreate _)]
    split at hfile
    · obtain ⟨-, rfl⟩ := Prod.ext_iff.mp hfile
      rw [if_pos ‹_›]
      rcases hresult : (writeText coming (J.encode config)).2 with e | _
      · rw [hresult] at hwrite
        exact Program.run_bind_of (Program.run_attempt_of_error hwrite) _
      · rw [hresult] at hwrite
        exact Program.run_bind_of (Program.run_attempt_of hwrite) _
    · rw [if_neg ‹_›]
      rw [hfile] at hwrite
      rcases result with e | _
      · exact Program.run_mapError_of_error hwrite _
      · exact Program.run_mapError_of hwrite _
  · have hcontent : file = (writeText coming (J.encode config)).1 := by
      split at hfile
      · exact (Prod.ext_iff.mp hfile).1.symm
      · rw [hfile]
    rw [hcontent, hview]

/-- What is in a new directory, when a config has been saved there. -/
theorem Collection.exec_load_saved {path : Path} (hord : path.IsOrdinary) {d' : Disk}
    {text : String} {config : CollectionConfig}
    (hempty : ∀ r, r ≠ [] → d.lookup (path ++ r) = none)
    (hview : d'.lookup = View.withFile (path ++ ["config.json"]) (.text text) d.lookup)
    (hparse : J.fromReader text = .ok config) (env : LoadEnv) (id : CollectionName) :
    ∃ (c : Collection X) (trees : Trees),
      Fs.exec env.listing (Collection.load J env id path) d' = (d', .ok (c, trees)) ∧
      c.config = config := by
  have hconfig : d'.lookup (path ++ ["config.json"]) = some (.file (.text text)) := by
    rw [hview, View.withFile, if_pos rfl]
  have hnames : (env.listing path).arrange (d'.names path) = ["config.json"] := by
    refine arrange_names_eq_singleton (fun name ↦ ?_) _
    rw [hview, View.withFile]
    split
    · rename_i heq
      simpa using heq
    · rename_i hne
      simpa [hempty [name] (by simp)] using hne
  have hround := Collection.exec_loadShard_file env hord id (by decide) hconfig (∅, fun _ _ ↦ ∅)
  have hrun : Fs.exec env.listing (((env.listing path).arrange (d'.names path)).foldlM
      (fun loaded entry ↦ Collection.loadShard env id path loaded (.ok entry))
      (∅, fun _ _ ↦ ∅)) d' = (d', .ok (∅, fun _ _ ↦ ∅)) := by
    rw [hnames, List.foldlM_cons, Fs.exec, Program.run_bind_of hround]
    rfl
  exact ⟨_, _, Collection.exec_load_of_config env hord id hconfig hparse hrun, rfl⟩

/-- **When a config that has been saved is on disk.**  Take a config and a new directory for it, and
let the calls that write to its file go wrong in any way.  That `save` returns `Ok` means that the
complete text is on disk and that it is read back, exactly if the text is too long for the buffer of
the writer or no call fails before all of it is written. -/
theorem saved_iff (X : Crates V) (J : ConfigJson) (config : CollectionConfig) {path : Path}
    (hord : path.IsOrdinary) {d : Disk} (hdir : d.lookup path = some .dir)
    (hempty : ∀ r, r ≠ [] → d.lookup (path ++ r) = none) (listing : Path → IterOrder String)
    (coming : List WriteResult) :
    (∀ d', (config.save J path).run (Disk.faulty (writeFaults coming) listing) d = (d', .ok ()) →
      d'.lookup (path ++ ["config.json"]) = some (.file (.text (J.encode config))) ∧
      ∀ env id, ∃ (c : Collection X) (trees : Trees),
        Fs.exec env.listing (Collection.load J env id path) d' = (d', .ok (c, trees)) ∧
        c.config = config) ↔
      bufferCapacity ≤ (J.encode config).utf8ByteSize ∨
        WriteResult.Completes coming (J.encode config).utf8ByteSize := by
  have hfree : d.lookup (path ++ ["config.json"]) ≠ some .dir := by
    rw [hempty _ (by simp)]
    simp
  obtain ⟨k, hk, hcontent, hok⟩ := writeText_spec coming (J.encode config)
  rw [← writeText_ok_iff]
  by_cases hfits : (J.encode config).utf8ByteSize < bufferCapacity
  · -- the writer keeps the text, and nobody is told how writing it goes
    have hthrough : BufWriter.through bufferCapacity (textBytes (J.encode config)) ⟨[], coming⟩
        = ((writeText coming (J.encode config)).1, .ok ()) :=
      (through_textBytes coming _).trans (if_pos hfits)
    obtain ⟨d₁, hrun, hview⟩ :=
      CollectionConfig.run_save J config hord hdir hfree listing coming hthrough
    rw [hcontent] at hview
    constructor
    · intro h
      have hlookup := (h d₁ hrun).1
      rw [hview, View.withFile, if_pos rfl] at hlookup
      have hkept : keptText (J.encode config) k = J.encode config := by simpa using hlookup
      exact .inr (hok.mpr ((keptText_eq_iff hk).mp hkept))
    · rintro (hlong | hall) d' hrun'
      · exact absurd hfits (Nat.not_lt.mpr hlong)
      · obtain rfl : d₁ = d' := (Prod.ext_iff.mp (hrun.symm.trans hrun')).1
        rw [(keptText_eq_iff hk).mpr (hok.mp hall)] at hview
        refine ⟨by rw [hview, View.withFile, if_pos rfl], fun env id ↦ ?_⟩
        exact Collection.exec_load_saved hord hempty hview (J.fromReader_encode config) env id
  · have hthrough : BufWriter.through bufferCapacity (textBytes (J.encode config)) ⟨[], coming⟩
        = ((writeText coming (J.encode config)).1, (writeText coming (J.encode config)).2) :=
      (through_textBytes coming _).trans (if_neg hfits)
    obtain ⟨d₁, hrun, hview⟩ :=
      CollectionConfig.run_save J config hord hdir hfree listing coming hthrough
    rw [hcontent] at hview
    refine iff_of_true (fun d' hrun' ↦ ?_) (.inl (Nat.le_of_not_lt hfits))
    have heq := hrun.symm.trans hrun'
    obtain rfl : d₁ = d' := (Prod.ext_iff.mp heq).1
    have hall : (writeText coming (J.encode config)).2 = .ok () :=
      CollectionConfig.saveResult_eq_ok_iff.mp (Prod.ext_iff.mp heq).2
    rw [(keptText_eq_iff hk).mpr (hok.mp hall)] at hview
    refine ⟨by rw [hview, View.withFile, if_pos rfl], fun env id ↦ ?_⟩
    exact Collection.exec_load_saved hord hempty hview (J.fromReader_encode config) env id

/-- A disk with a new directory for a collection. -/
def newDirectory : Disk := ((FileTree.empty : Disk).createDirAll (collectionDir "c")).1

theorem newDirectory_lookup (r : Path) (hr : r ≠ []) :
    newDirectory.lookup (collectionDir "c" ++ r) = none := by
  have hord : Path.IsOrdinary (collectionDir "c") := by decide
  obtain ⟨d, hmake, hview⟩ := FileTree.createDirAll_spec (t := (FileTree.empty : Disk)) hord
    fun q a _ ha ↦ by
      by_cases hq : q = []
      · rw [hq, FileTree.lookup_nil] at ha
        exact nomatch ha
      · rw [FileTree.lookup_empty_of_ne hq] at ha
        exact nomatch ha
  rw [newDirectory, hmake, hview, View.withDirs, if_neg (FileTree.not_append_prefix hr)]
  exact FileTree.lookup_empty_of_ne (by simp [hr])

/-- What becomes of a short config that is written in parts. -/
def savedInParts : Disk × Program.Outcome StorageError Unit :=
  (CollectionConfig.save .plain ⟨"a"⟩ (collectionDir "c")).run
    (Disk.faulty (writeFaults [.wrote 4, .interrupted, .wrote 100]) fun _ ↦ .insertion) newDirectory

theorem saved_iff_parts :
    savedInParts.1.lookup (collectionDir "c" ++ ["config.json"])
      = some (.file (.text (ConfigJson.plain.encode ⟨"a"⟩))) ∧
    ∀ env id, ∃ (c : Collection Crates.bool) (trees : Trees),
      Fs.exec env.listing (Collection.load .plain env id (collectionDir "c")) savedInParts.1
        = (savedInParts.1, .ok (c, trees)) ∧ c.config = ⟨"a"⟩ := by
  have hok : savedInParts.2 = .ok () := by decide +kernel
  refine (saved_iff Crates.bool .plain ⟨"a"⟩ (by decide) (by decide +kernel) newDirectory_lookup
    (fun _ ↦ .insertion) _).mpr (.inr ?_) savedInParts.1 (Prod.ext rfl hok)
  rw [WriteResult.completes_cons, WriteResult.completes_cons, WriteResult.completes_cons]
  exact ⟨(nomatch ·), False.elim, (nomatch ·), WriteResult.completes_nil _⟩

/-- **`save` may return `Ok` for a config that is lost.** -/
theorem not_saved_of_full : ¬ ∀ (config : CollectionConfig) (coming : List WriteResult) (d' : Disk),
    (config.save .plain (collectionDir "c")).run
      (Disk.faulty (writeFaults coming) fun _ ↦ .insertion) newDirectory = (d', .ok ()) →
    d'.lookup (collectionDir "c" ++ ["config.json"])
      = some (.file (.text (ConfigJson.plain.encode config))) ∧
    ∀ env id, ∃ (c : Collection Crates.bool) (trees : Trees),
      Fs.exec env.listing (Collection.load .plain env id (collectionDir "c")) d'
        = (d', .ok (c, trees)) ∧
      c.config = config := by
  intro hall
  have hthrough : BufWriter.through bufferCapacity (textBytes (ConfigJson.plain.encode ⟨"a"⟩))
      ⟨[], [.failed "No space left on device"]⟩ = (⟨[], []⟩, .ok ()) :=
    (through_textBytes _ _).trans (if_pos (by decide))
  have hfree : newDirectory.lookup (collectionDir "c" ++ ["config.json"]) ≠ some .dir := by
    rw [newDirectory_lookup _ (by simp)]
    simp
  obtain ⟨d', hrun, hview⟩ := CollectionConfig.run_save .plain ⟨"a"⟩ (by decide) (by decide +kernel)
    hfree (fun _ ↦ .insertion) _ hthrough
  have hsaved := (hall ⟨"a"⟩ _ d' hrun).1
  rw [hview, View.withFile, if_pos rfl] at hsaved
  have hkept : keptText (ConfigJson.plain.encode ⟨"a"⟩) 0 = ConfigJson.plain.encode ⟨"a"⟩ := by
    simpa using hsaved
  exact absurd ((keptText_eq_iff (Nat.zero_le _)).mp hkept) (by decide)

end Smoldb
