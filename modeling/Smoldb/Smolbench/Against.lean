import Smoldb.Smolbench.Session

/-!
# The benchmark against a node

A node depicts a database (`Node.Depicts`), so the benchmark is a program that changes a database,
and the contracts of its parts say how.

`Session.At` is the state of a session as far as contracts are about it: which database the node
depicts, and how many ids have been drawn.  Every part of `main` has a contract
(`Lib/Contract.lean`) of the form: from a session at one database the part ends in one of these
ways, at one of these databases.  They follow the program.

* `meets_sendBatch` and `meets_upsertPoints`: a batch is written, and all of them are; the invariant
  of the loop is `Filled` for the ids of the batches that are done.
* `meets_prepare`: the collection is there, made anew or found.
* `meets_fill`, `meets_query`: the second and the third part, each with the table of latencies,
  which is printed last and in which a number of nines may be too long (`Shows`).
* `meets_main` puts them together; it is about any node that depicts a database.

`benchmark_completes_iff` and `benchmark_leaves` are about a node that has been asked anything
before, with names of collections that are names of files.  The first says exactly when the
benchmark ends well, in terms of its arguments, of what is in the database and of the ids it draws.
The second says what it leaves, however it ends.  Both are for batches that a node takes, which is
`UpsertArgs.Sendable`: what goes wrong with others is in `Smolbench/Upsert.lean`.
-/

set_option autoImplicit false

namespace Smoldb

open LastWrite
open Program (Meets)

variable {V : Type} {X : Crates V}

/-! ## The contracts -/

section Contracts

variable [X.PointsRoundTrip] {web : Web V} {J : ConfigJson} {peer : PeerId}
  {around : Surroundings}

/-- The node depicts a database, and so many ids have been drawn. -/
def Session.At (J : ConfigJson) (peer : PeerId) (db : Database X) (drawn : ℕ)
    (self : Session X) : Prop := self.node.Depicts J peer db ∧ self.drawn = drawn

variable {db : Database X} {d : ℕ} {url : String} {name : CollectionName}

/-- **A request is answered by the database.** -/
theorem Session.At.request (web : Web V) (around : Surroundings) {s : Session X}
    (h : s.At J peer db d) {request : Http.Request V} (hproper : request.Proper) :
    ∃ s' r, s.request web J peer around (some request)
        = (s', web.receive (around.time s.calls) (some (Http.time X r))) ∧
      db.Answers request r ∧ s'.At J peer (db.next request) d := by
  obtain ⟨node, r, hhandle, hanswer, hnode⟩ := h.1.handle (around.env s.calls) hproper
  refine ⟨{ s.tick with node := node }, r, ?_, hanswer, hnode, h.2⟩
  rw [Session.request, Http.serve, hhandle]
  rfl

/-- The collection is found, if there is a table. -/
theorem Smolbench.meets_getCollection (hleads : web.Leads url name) :
    Meets (Session.answer (X := X) web J peer around) (·.At J peer db d)
      (getCollection url name)
      ⟨fun _ s ↦ db name ≠ none ∧ s.At J peer db d, fun _ s ↦ db name = none ∧ s.At J peer db d,
        fun _ _ ↦ False⟩ := by
  intro s hs
  obtain ⟨s', r, hrun, hanswer, hs'⟩ :=
    hs.request web around
    (show Http.Request.Proper (.getCollection name) from trivial)
  have hcall : s.answer web J peer around (.get s!"{url}/collections/{name}")
      = (s', web.receive (around.time s.calls) (some (Http.time X r))) := by
    rw [Session.answer, hleads.collection, ← hrun]
    rfl
  rw [getCollection, Program.run_bind_of (Program.run_perform _ s), hcall]
  rw [Database.Answers] at hanswer
  cases hdb : db name with
  | none =>
    rw [hdb] at hanswer
    subst hanswer
    exact ⟨rfl, hs'⟩
  | some t =>
    rw [hdb] at hanswer
    subst hanswer
    exact ⟨Option.some_ne_none t, hs'⟩

/-- The collection is created, if there is no table. -/
theorem Smolbench.meets_createCollection (hleads : web.Leads url name)
    (hname : Path.IsFileName name) :
    Meets (Session.answer (X := X) web J peer around) (·.At J peer db d)
      (createCollection url name)
      ⟨fun _ s ↦ db name = none ∧
          s.At J peer (Function.update db name (some (.empty X "..."))) d,
        fun _ s ↦ db name ≠ none ∧ s.At J peer db d, fun _ _ ↦ False⟩ := by
  intro s hs
  obtain ⟨s', r, hrun, hanswer, hs'⟩ := hs.request web around
    (show Http.Request.Proper (.createCollection name "...") from hname)
  have hcall : s.answer web J peer around (.put s!"{url}/collections/{name}" "...")
      = (s', web.receive (around.time s.calls) (some (Http.time X r))) := by
    rw [Session.answer, hleads.collection, ← hrun]
    rfl
  rw [createCollection, Program.run_bind_of (Program.run_perform _ s), hcall]
  rw [Database.Answers] at hanswer
  rw [Database.next] at hs'
  cases hdb : db name with
  | none =>
    rw [hdb] at hanswer hs'
    subst hanswer
    have htrue : web.json (.created true) = "true" := web.json_created true
    simp only [Http.time, Web.receive, Program.run_bind_of (Program.run_ofExcept_ok _ _),
      HttpAnswer.bool, htrue, true_or, if_true]
    exact ⟨trivial, hs'⟩
  | some t =>
    rw [hdb] at hanswer hs'
    subst hanswer
    exact ⟨Option.some_ne_none t, hs'⟩

/-- The collection is deleted, if there is a table. -/
theorem Smolbench.meets_deleteCollection (hleads : web.Leads url name) :
    Meets (Session.answer (X := X) web J peer around) (·.At J peer db d)
      (deleteCollection url name)
      ⟨fun _ s ↦ db name ≠ none ∧ s.At J peer (Function.update db name none) d,
        fun _ s ↦ db name = none ∧ s.At J peer db d, fun _ _ ↦ False⟩ := by
  intro s hs
  obtain ⟨s', r, hrun, hanswer, hs'⟩ := hs.request web around
    (show Http.Request.Proper (.deleteCollection name) from trivial)
  have hcall : s.answer web J peer around (.delete s!"{url}/collections/{name}")
      = (s', web.receive (around.time s.calls) (some (Http.time X r))) := by
    rw [Session.answer, hleads.collection, ← hrun]
    rfl
  rw [deleteCollection, Program.run_bind_of (Program.run_perform _ s), hcall]
  rw [Database.Answers] at hanswer
  rw [Database.next] at hs'
  cases hdb : db name with
  | none =>
    rw [← hdb, Function.update_eq_self] at hs'
    rw [hdb] at hanswer
    subst hanswer
    exact ⟨rfl, hs'⟩
  | some t =>
    rw [hdb] at hanswer
    subst hanswer
    exact ⟨Option.some_ne_none t, hs'⟩

/-- A point is found, if it is in the table. -/
theorem Smolbench.meets_retrieveOne (hleads : web.Leads url name) (results) (id : UInt64) :
    Meets (Session.answer (X := X) web J peer around) (·.At J peer db d)
      (retrieveOne url name results id)
      ⟨fun results' s ↦ (db.Finds name id ∧ s.At J peer db d) ∧
          results'.length = results.length + 1,
        fun _ s ↦ ¬ db.Finds name id ∧ s.At J peer db d, fun _ _ ↦ False⟩ := by
  intro s hs
  obtain ⟨s', r, hrun, hanswer, hs'⟩ := hs.request web around
    (show Http.Request.Proper (.getPoint name (PointId.id id).intoString) from trivial)
  have hcall : s.answer web J peer around (.get s!"{url}/collections/{name}/points/{id.toNat}")
      = (s', web.receive (around.time s.calls) (some (Http.time X r))) := by
    rw [Session.answer, hleads.point, ← hrun]
    rfl
  rw [retrieveOne, Program.run_bind_of (Program.run_perform _ s), hcall]
  rw [Database.Answers] at hanswer
  cases hdb : db name with
  | none =>
    rw [hdb] at hanswer
    subst hanswer
    refine ⟨?_, hs'⟩
    rintro ⟨t, p, ht, -⟩
    exact absurd (hdb.symm.trans ht) (by simp)
  | some t =>
    simp only [hdb, PointId.ofPath_intoString_id] at hanswer
    cases hget : t.get (.id id) with
    | none =>
      rw [hget] at hanswer
      subst hanswer
      refine ⟨?_, hs'⟩
      rintro ⟨t', p, ht', hp⟩
      obtain rfl := Option.some.inj (hdb.symm.trans ht')
      exact absurd (hget.symm.trans hp) (by simp)
    | some p =>
      rw [hget] at hanswer
      subst hanswer
      exact ⟨⟨⟨t, p, hdb, hget⟩, hs'⟩, List.length_append⟩

/-- The calls of `upsert_points` in a session. -/
def Session.answerUpsert (web : Web V) (J : ConfigJson) (peer : PeerId) (around : Surroundings)
    (self : Session X) (op : BenchOp) : Session X × op.Reply :=
  self.answer web J peer around (.upsert op)

variable {M : Machine} {args : UpsertArgs}

/-- **A batch is written**, if there is a table. -/
theorem meets_sendBatch {ids : List ℕ} {start stop : ℕ}
    (hleads : web.Leads args.url args.collectionName)
    (haccepts : ∀ points : List BenchPoint, points.length = stop - start → web.accepts points)
    (hpoints : (stop - start) * M.pointSize ≤ M.isizeMax)
    (hids : ∀ i ∈ ids ++ List.range' start (stop - start), i < UInt64.size) (results) :
    Meets (Session.answerUpsert (X := X) web J peer around)
      (fun s ↦ ∃ db', db.Filled web args.collectionName ids db' ∧ s.At J peer db' d)
      (sendBatch M args results start stop)
      ⟨fun results' s ↦ (db args.collectionName ≠ none ∧
          ∃ db', db.Filled web args.collectionName (ids ++ List.range' start (stop - start)) db' ∧
            s.At J peer db' d) ∧ results'.length = results.length + 1,
        fun _ s ↦ db args.collectionName = none ∧ s.At J peer db d, fun _ _ ↦ False⟩ := by
  rintro s ⟨db', hdb', hs⟩
  have htick : s.tick.At J peer db' d := hs
  obtain ⟨s', r, hrun, hanswer, hs'⟩ := htick.request web around
    (show Http.Request.Proper (.upsertPoints args.collectionName
      (((List.range' start (stop - start)).map (benchPoint (around.now s.calls))).map
        (BenchPoint.toPoint web))) from trivial)
  have hcall : s.tick.answerUpsert web J peer around
      (.put s!"{args.url}/collections/{args.collectionName}/points"
        ((List.range' start (stop - start)).map (benchPoint (around.now s.calls))))
      = (s', HttpAnswer.toUpsert
        (web.receive (around.time s.tick.calls) (some (Http.time X r)))) := by
    rw [Session.answerUpsert, Session.answer, hleads.points]
    simp only [hrun]
    exact if_pos (haccepts _ (by rw [List.length_map, List.length_range']))
  rw [sendBatch, Program.run_bind_of (Program.run_perform BenchOp.now s),
    Machine.withCapacity_of_le hpoints, Program.run_bind_of rfl]
  simp only
  rw [Program.run_bind_of (Program.run_perform _ _),
    show Session.answerUpsert web J peer around s .now = (s.tick, around.now s.calls) from rfl]
  simp only
  rw [hcall]
  rw [Database.Answers] at hanswer
  cases htable : db' args.collectionName with
  | none =>
    have hnone := hdb'.eq_none_iff.mp htable
    rw [htable] at hanswer
    subst hanswer
    rw [Database.next, htable, Option.map_none, ← htable, Function.update_eq_self,
      hdb'.eq_of_none hnone] at hs'
    exact ⟨hnone, hs'⟩
  | some t =>
    have hsome : db args.collectionName ≠ none := fun hnone ↦
      absurd (htable.symm.trans (hdb'.eq_none_iff.mpr hnone)) (by simp)
    rw [htable] at hanswer
    subst hanswer
    have hend := hdb'.write (around.now s.calls) hids
    cases args.delay with
    | none => exact ⟨⟨hsome, _, hend, hs'⟩, List.length_append⟩
    | some milliseconds => exact ⟨⟨hsome, _, hend, hs'⟩, List.length_append⟩

/-- What the batches have to be like, for a node to take them. -/
structure UpsertArgs.Sendable (M : Machine) (web : Web V) (args : UpsertArgs) : Prop where
  fit : args.Fit M
  numPoints : args.numPoints ≤ M.usizeMax
  bits : M.bits ≤ 64
  leads : web.Leads args.url args.collectionName
  accepts : ∀ points : List BenchPoint, points.length ≤ args.batchSize → web.accepts points

theorem UpsertArgs.Sendable.numPoints_lt (h : args.Sendable M web) :
    args.numPoints < UInt64.size := by
  have hle := h.numPoints
  have hpow : 2 ^ M.bits ≤ 2 ^ 64 := Nat.pow_le_pow_right (by decide) h.bits
  have hpos : 0 < 2 ^ M.bits := Nat.two_pow_pos M.bits
  rw [Machine.usizeMax] at hle
  rw [UInt64.size]
  omega

theorem meets_upsertBatch (h : args.Sendable M web) {batch : ℕ}
    (hbatch : batch < divCeil args.numPoints args.batchSize) (done : List ℕ) (results) :
    Meets (Session.answerUpsert (X := X) web J peer around)
      (fun s ↦ ∃ db', db.Filled web args.collectionName
        (done.flatMap (chunk args.numPoints args.batchSize)) db' ∧ s.At J peer db' d)
      (upsertBatch M args results batch)
      ⟨fun results' s ↦ (db args.collectionName ≠ none ∧
          ∃ db', db.Filled web args.collectionName
              ((done ++ [batch]).flatMap (chunk args.numPoints args.batchSize)) db' ∧
            s.At J peer db' d) ∧ results'.length = results.length + 1,
        fun _ s ↦ db args.collectionName = none ∧ s.At J peer db d, fun _ _ ↦ False⟩ := by
  have hends := (Nat.mul_le_mul_right args.batchSize (Nat.succ_le_of_lt hbatch)).trans h.fit.ends
  rw [Nat.succ_mul] at hends
  have hlen := length_chunk_le args.numPoints args.batchSize batch
  rw [length_chunk] at hlen
  rw [upsertBatch, Machine.usize_of_le (by omega), Program.ok_bind, Machine.usize_of_le hends,
    Program.ok_bind, List.flatMap_append, List.flatMap_singleton]
  refine meets_sendBatch h.leads (fun points hp ↦ h.accepts points (by omega))
    ((Nat.mul_le_mul_right _ hlen).trans h.fit.points) (fun i hi ↦ lt_trans ?_ h.numPoints_lt)
    results
  have hchunk : ∀ b, ∀ i ∈ chunk args.numPoints args.batchSize b, i < args.numPoints := by
    intro b i hi
    rw [chunk, List.mem_range'_1] at hi
    omega
  obtain hi | hi := List.mem_append.mp hi
  · obtain ⟨b, -, hi⟩ := List.mem_flatMap.mp hi
    exact hchunk b i hi
  · exact hchunk batch i hi

/-- **The points are written**, if there is a table. -/
theorem meets_upsertPoints (h : args.Sendable M web) :
    Meets (Session.answerUpsert (X := X) web J peer around) (·.At J peer db d)
      (upsertPoints M args)
      ⟨fun results s ↦ (args.numPoints = 0 ↔ results = []) ∧
          (args.numPoints ≠ 0 → db args.collectionName ≠ none) ∧
          ∃ db', db.Filled web args.collectionName (List.range args.numPoints) db' ∧
            s.At J peer db' d,
        fun _ s ↦ (args.numPoints ≠ 0 ∧ db args.collectionName = none) ∧ s.At J peer db d,
        fun _ _ ↦ False⟩ := by
  have hbatch := h.fit.batchSize
  have hzero : args.numPoints = 0 ↔ divCeil args.numPoints args.batchSize = 0 := by
    refine ⟨fun hzero ↦ ?_, fun hzero ↦ ?_⟩
    · rw [hzero, divCeil, if_neg (by simp), Nat.zero_div]
    · by_contra hpos
      exact absurd (divCeil_pos hbatch (Nat.pos_of_ne_zero hpos)) (by omega)
  rw [upsertPoints, Machine.usizeDivCeil, if_neg hbatch, Program.ok_bind,
    Machine.withCapacity_of_le h.fit.responses, Program.ok_bind]
  have hround : ∀ done batch, batch ∈ List.range (divCeil args.numPoints args.batchSize) →
      ∀ results, Meets (Session.answerUpsert (X := X) web J peer around)
        (fun s ↦ (results.length = done.length ∧ (done ≠ [] → db args.collectionName ≠ none)) ∧
          ∃ db', db.Filled web args.collectionName
            (done.flatMap (chunk args.numPoints args.batchSize)) db' ∧ s.At J peer db' d)
        (upsertBatch M args results batch)
        ⟨fun results' s ↦ (results'.length = (done ++ [batch]).length ∧
            (done ++ [batch] ≠ [] → db args.collectionName ≠ none)) ∧
          ∃ db', db.Filled web args.collectionName
            ((done ++ [batch]).flatMap (chunk args.numPoints args.batchSize)) db' ∧
            s.At J peer db' d,
          fun _ s ↦ (args.numPoints ≠ 0 ∧ db args.collectionName = none) ∧ s.At J peer db d,
          fun _ _ ↦ False⟩ := by
    intro done batch hmem results
    refine .of_fact fun hfact ↦
      (meets_upsertBatch h (List.mem_range.mp hmem) done results).weaken ?_ ?_ fun _ _ hp ↦ hp
    · rintro results' s ⟨⟨htable, hs⟩, hlen⟩
      refine ⟨⟨?_, fun _ ↦ htable⟩, hs⟩
      rw [hlen, hfact.1, List.length_append, List.length_singleton]
    · rintro e s ⟨hnone, hs⟩
      have hlt := mul_lt_of_lt_divCeil (List.mem_range.mp hmem)
      exact ⟨⟨by omega, hnone⟩, hs⟩
  refine ((Meets.foldlM hround []).strengthen fun s hs ↦ ⟨⟨rfl, by simp⟩, db, .refl web _ db, hs⟩)
    |>.weaken ?_ (fun _ _ he ↦ he) fun _ _ hp ↦ hp
  rintro results s ⟨⟨hlen, htable⟩, db', hdb', hs⟩
  rw [List.length_range] at hlen
  rw [List.flatMap_def, flatten_chunks, min_eq_right (le_divCeil_mul _ hbatch)] at hdb'
  refine ⟨?_, fun hne ↦ htable ?_, db', hdb', hs⟩
  · rw [hzero, ← hlen, List.length_eq_zero_iff]
  · rw [Ne, List.range_eq_nil, ← hzero]
    exact hne

namespace Smolbench

/-- The nines that are shown fit a string. -/
def Shows (M : Machine) (p9 : ℕ) : Prop := p9 < 2 ∨ p9 ≤ M.isizeMax

theorem shows_iff (M : Machine) (p9 : ℕ) :
    Shows M p9 ↔ ∀ digits ∈ List.range' 2 (p9 - 1), digits ≤ M.isizeMax := by
  simp only [Shows, List.mem_range'_1]
  refine ⟨fun h digits hdigits ↦ by omega, fun h ↦ ?_⟩
  by_cases hp9 : p9 < 2
  · exact Or.inl hp9
  · exact Or.inr (h p9 (by omega))

omit [X.PointsRoundTrip] in
theorem meets_nines {P : Session X → Prop} (M : Machine) (digits : ℕ) :
    Meets (Session.answer web J peer around) P (nines M digits)
      ⟨fun _ s ↦ digits ≤ M.isizeMax ∧ P s, fun _ _ ↦ False,
        fun _ s ↦ ¬ digits ≤ M.isizeMax ∧ P s⟩ := by
  rw [nines, Machine.withCapacity, mul_one]
  split
  next hfits => exact .ok fun s hs ↦ ⟨hfits, hs⟩
  next hlarge => exact .panicked fun s hs ↦ ⟨hlarge, hs⟩

omit [X.PointsRoundTrip] in
/-- Something must have been measured, and the nines must fit. -/
theorem meets_logLatencies {P : Session X → Prop} (M : Machine) (p9 : ℕ)
    (responses : List ApiSuccessResponse) :
    Meets (Session.answer web J peer around) P (logLatencies M p9 responses)
      ⟨fun _ s ↦ (responses ≠ [] ∧ Shows M p9) ∧ P s, fun _ _ ↦ False,
        fun _ s ↦ ¬ (responses ≠ [] ∧ Shows M p9) ∧ P s⟩ := by
  cases responses with
  | nil => exact .panicked fun s hs ↦ ⟨fun h ↦ h.1 rfl, hs⟩
  | cons r rs =>
    have hround : ∀ done digits, digits ∈ List.range' 2 (p9 - 1) → ∀ _ : Unit,
        Meets (Session.answer (X := X) web J peer around)
          (fun s ↦ (∀ digits ∈ done, digits ≤ M.isizeMax) ∧ P s) (nines M digits)
          ⟨fun _ s ↦ (∀ digits' ∈ done ++ [digits], digits' ≤ M.isizeMax) ∧ P s,
            fun _ _ ↦ False, fun _ s ↦ ¬ Shows M p9 ∧ P s⟩ := by
      intro done digits hdigits _
      refine .of_fact fun hdone ↦ (meets_nines M digits).weaken ?_ (fun _ _ he ↦ he) ?_
      · rintro _ s ⟨hfits, hs⟩
        refine ⟨fun digits' hdigits' ↦ ?_, hs⟩
        obtain hdigits' | hdigits' := List.mem_append.mp hdigits'
        · exact hdone digits' hdigits'
        · exact List.mem_singleton.mp hdigits' ▸ hfits
      · exact fun _ s hs ↦ ⟨fun hshows ↦ hs.1 ((shows_iff M p9).mp hshows digits hdigits), hs.2⟩
    refine ((Meets.foldlM hround ()).strengthen fun s hs ↦ ⟨by simp, hs⟩).weaken ?_
      (fun _ _ he ↦ he) ?_
    · exact fun _ s hs ↦ ⟨⟨by simp, (shows_iff M p9).mpr hs.1⟩, hs.2⟩
    · exact fun _ s hs ↦ ⟨fun h ↦ hs.1 h.2, hs.2⟩

/-- All points are found, if they are in the table. -/
theorem meets_retrievePoint (hleads : web.Leads url name) (ids : List UInt64) :
    Meets (Session.answer (X := X) web J peer around) (·.At J peer db d)
      (retrievePoint url name ids)
      ⟨fun results s ↦ (results.length = ids.length ∧ ∀ id ∈ ids, db.Finds name id) ∧
          s.At J peer db d,
        fun _ s ↦ (∃ id ∈ ids, ¬ db.Finds name id) ∧ s.At J peer db d, fun _ _ ↦ False⟩ := by
  have hround : ∀ done id, id ∈ ids → ∀ results,
      Meets (Session.answer (X := X) web J peer around)
        (fun s ↦ (results.length = done.length ∧ ∀ id ∈ done, db.Finds name id) ∧
          s.At J peer db d)
        (retrieveOne url name results id)
        ⟨fun results' s ↦ (results'.length = (done ++ [id]).length ∧
            ∀ id' ∈ done ++ [id], db.Finds name id') ∧ s.At J peer db d,
          fun _ s ↦ (∃ id ∈ ids, ¬ db.Finds name id) ∧ s.At J peer db d, fun _ _ ↦ False⟩ := by
    intro done id hmem results
    refine .of_fact fun hfact ↦
      (meets_retrieveOne hleads results id).weaken ?_ ?_ fun _ _ hp ↦ hp
    · rintro results' s ⟨⟨hfinds, hs⟩, hlen⟩
      refine ⟨⟨by rw [hlen, hfact.1, List.length_append, List.length_singleton], ?_⟩, hs⟩
      simp only [List.mem_append, List.mem_singleton]
      rintro id' (hid' | rfl)
      · exact hfact.2 id' hid'
      · exact hfinds
    · rintro e s ⟨hfinds, hs⟩
      exact ⟨⟨id, hmem, hfinds⟩, hs⟩
  exact (Meets.foldlM hround []).strengthen fun s hs ↦ ⟨⟨rfl, by simp⟩, hs⟩

variable {args : BenchArgs}

/-- The database after the first part of `main`. -/
def prepared (X : Crates V) (args : BenchArgs) (db : Database X) : Database X :=
  if db args.collectionName ≠ none ∧ args.skipIfExists then db
  else Function.update db args.collectionName (some (.empty X "..."))

theorem meets_createOrFail (hleads : web.Leads args.uri args.collectionName)
    (hname : Path.IsFileName args.collectionName) (hdb : db args.collectionName = none) :
    Meets (Session.answer (X := X) web J peer around) (·.At J peer db d) (createOrFail args)
      ⟨fun _ s ↦ s.At J peer
          (Function.update db args.collectionName (some (.empty X "..."))) d,
        fun _ _ ↦ False, fun _ _ ↦ False⟩ := by
  refine ((meets_createCollection hleads hname).attempt
    (R := ⟨fun r s ↦ (∃ body, r = .ok body) ∧ s.At J peer
      (Function.update db args.collectionName (some (.empty X "..."))) d, fun _ _ ↦ False,
      fun _ _ ↦ False⟩) ?_ ?_ fun _ _ hp ↦ hp).bind ?_ (fun _ _ he ↦ he) fun _ _ hp ↦ hp
  · exact fun body s hs ↦ ⟨⟨body, rfl⟩, hs.2⟩
  · exact fun e s hs ↦ absurd hdb hs.1
  · rintro (e | body)
    · refine .of_fact ?_
      rintro ⟨body, hbody⟩
      exact absurd hbody (by simp)
    · exact .ok fun s hs ↦ hs.2

/-- **The collection is there** after the first part. -/
theorem meets_prepare (hleads : web.Leads args.uri args.collectionName)
    (hname : Path.IsFileName args.collectionName) :
    Meets (Session.answer (X := X) web J peer around) (·.At J peer db d) (prepare args)
      ⟨fun _ s ↦ s.At J peer (prepared X args db) d, fun _ _ ↦ False, fun _ _ ↦ False⟩ := by
  refine ((meets_getCollection hleads).attempt
    (R := ⟨fun r s ↦ ((∃ body, r = .ok body) ↔ db args.collectionName ≠ none) ∧ s.At J peer db d,
      fun _ _ ↦ False, fun _ _ ↦ False⟩) ?_ ?_ fun _ _ hp ↦ hp).bind ?_ (fun _ _ he ↦ he)
    fun _ _ hp ↦ hp
  · exact fun body s hs ↦ ⟨by simp [hs.1], hs.2⟩
  · exact fun e s hs ↦ ⟨by simp [hs.1], hs.2⟩
  · rintro (e | body)
    · refine .of_fact fun hfact ↦ ?_
      have hnone : db args.collectionName = none := by simpa using hfact
      have hprepared : prepared X args db
          = Function.update db args.collectionName (some (.empty X "...")) := by
        rw [prepared, if_neg (by simp [hnone])]
      rw [hprepared]
      exact meets_createOrFail hleads hname hnone
    · refine .of_fact fun hfact ↦ ?_
      have hsome : db args.collectionName ≠ none := by simpa using hfact
      simp only
      split
      next hskip =>
        refine .ok fun s hs ↦ ?_
        rw [prepared, if_pos ⟨hsome, hskip⟩]
        exact hs
      next hskip =>
        have hprepared : prepared X args db
            = Function.update (Function.update db args.collectionName none) args.collectionName
              (some (.empty X "...")) := by
          rw [prepared, if_neg fun h ↦ hskip h.2, Function.update_idem]
        rw [hprepared]
        refine (meets_deleteCollection hleads).bind (fun _ ↦ .of_fact fun _ ↦ ?_)
          (fun e s hs ↦ absurd hs.1 hsome) fun _ _ hp ↦ hp
        exact meets_createOrFail hleads hname (Function.update_self _ _ _)

/-- There are points to write, and there is a table. -/
def Fills (args : BenchArgs) (db : Database X) : Prop :=
  args.numPoints ≠ 0 ∧ db args.collectionName ≠ none

/-- **The second part** ends well exactly if there are points and a table, and the nines fit. -/
theorem meets_fill (h : args.upsert.Sendable M web) :
    Meets (Session.answer (X := X) web J peer around) (·.At J peer db d) (fill M args)
      ⟨fun _ s ↦ (Fills args db ∧ Shows M args.p9) ∧ ∃ db', db.Filled web args.collectionName
          (List.range args.numPoints) db' ∧ s.At J peer db' d,
        fun _ s ↦ ¬ (Fills args db ∧ Shows M args.p9) ∧ ∃ db', db.Filled web
          args.collectionName (List.range args.numPoints) db' ∧ s.At J peer db' d,
        fun _ s ↦ ¬ (Fills args db ∧ Shows M args.p9) ∧ ∃ db', db.Filled web
          args.collectionName (List.range args.numPoints) db' ∧ s.At J peer db' d⟩ := by
  refine (Meets.within (Q := ⟨fun results s ↦ (args.numPoints = 0 ↔ results = []) ∧
      (args.numPoints ≠ 0 → db args.collectionName ≠ none) ∧
      ∃ db', db.Filled web args.collectionName (List.range args.numPoints) db' ∧
        s.At J peer db' d, fun _ s ↦ (args.numPoints ≠ 0 ∧ db args.collectionName = none) ∧
      s.At J peer db d, fun _ _ ↦ False⟩) (meets_upsertPoints h)).bind (fun results ↦ ?_) ?_
    fun _ _ hp ↦ hp.elim
  · refine (meets_logLatencies M args.p9 results).weaken ?_ (fun _ _ he ↦ he.elim) ?_
    · rintro - s ⟨⟨hne, hshows⟩, hzero, htable, hs⟩
      have hpos : args.numPoints ≠ 0 := fun h0 ↦ hne (hzero.mp h0)
      exact ⟨⟨⟨hpos, htable hpos⟩, hshows⟩, hs⟩
    · rintro - s ⟨hlog, hzero, htable, hs⟩
      exact ⟨fun hfills ↦ hlog ⟨fun hnil ↦ hfills.1.1 (hzero.mpr hnil), hfills.2⟩, hs⟩
  · rintro e s ⟨⟨-, hnone⟩, hs⟩
    exact ⟨fun hfills ↦ hfills.1.2 hnone, db, .of_none web hnone, hs⟩

/-- The ids that are asked for. -/
def queried (args : BenchArgs) (around : Surroundings) : List UInt64 :=
  (List.range (min args.numPoints 1000)).map fun i ↦
    around.random i % UInt64.ofNat args.numPoints

/-- There are ids to ask for, and each of them has a point. -/
def Queries (args : BenchArgs) (around : Surroundings) (db : Database X) : Prop :=
  args.numPoints ≠ 0 ∧ ∀ id ∈ queried args around, db.Finds args.collectionName id

omit [X.PointsRoundTrip] in
theorem meets_draw :
    Meets (Session.answer (X := X) web J peer around) (·.At J peer db 0)
      ((List.range (min args.numPoints 1000)).foldlM (drawId args) [])
      ⟨fun ids s ↦ ids = queried args around ∧ ∃ d, s.At J peer db d, fun _ _ ↦ False,
        fun _ _ ↦ False⟩ := by
  have hround : ∀ done i, i ∈ List.range (min args.numPoints 1000) → ∀ ids,
      Meets (Session.answer (X := X) web J peer around)
        (fun s ↦ ids = (List.range done.length).map (fun i ↦
            around.random i % UInt64.ofNat args.numPoints) ∧ s.At J peer db done.length)
        (drawId args ids i)
        ⟨fun ids' s ↦ ids' = (List.range (done ++ [i]).length).map (fun i ↦
            around.random i % UInt64.ofNat args.numPoints) ∧ s.At J peer db (done ++ [i]).length,
          fun _ _ ↦ False, fun _ _ ↦ False⟩ := by
    rintro done i - ids s ⟨rfl, hnode, hdrawn⟩
    rw [drawId, Program.run_bind_of (Program.run_perform _ s), Session.answer]
    refine ⟨?_, hnode, ?_⟩
    · rw [List.length_append, List.length_singleton, List.range_succ, List.map_append, hdrawn]
      rfl
    · rw [List.length_append, List.length_singleton, ← hdrawn]
      rfl
  refine ((Meets.foldlM hround []).strengthen fun s hs ↦ ⟨rfl, hs⟩).weaken ?_
    (fun _ _ he ↦ he) fun _ _ hp ↦ hp
  rintro ids s ⟨rfl, hs⟩
  rw [List.length_range]
  exact ⟨rfl, _, hs⟩

/-- **The third part** ends well exactly if there are ids and points for them, and the nines fit. -/
theorem meets_query (M : Machine) (hleads : web.Leads args.uri args.collectionName) :
    Meets (Session.answer (X := X) web J peer around) (·.At J peer db 0) (query M args)
      ⟨fun _ s ↦ (Queries args around db ∧ Shows M args.p9) ∧ s.node.Depicts J peer db,
        fun _ s ↦ ¬ (Queries args around db ∧ Shows M args.p9) ∧ s.node.Depicts J peer db,
        fun _ s ↦ ¬ (Queries args around db ∧ Shows M args.p9) ∧ s.node.Depicts J peer db⟩ := by
  refine meets_draw.bind (fun ids ↦ .of_fact ?_) (fun _ _ he ↦ he.elim) fun _ _ hp ↦ hp.elim
  rintro rfl s ⟨d, hs⟩
  refine ((meets_retrievePoint (d := d) hleads (queried args around)).bind (fun results ↦ ?_) ?_
    fun _ _ hp ↦ hp.elim) s hs
  · refine .of_fact ?_
    rintro ⟨hlen, hfinds⟩
    rw [queried, List.length_map, List.length_range] at hlen
    refine (meets_logLatencies M args.p9 results).weaken ?_ (fun _ _ he ↦ he.elim) ?_
    · rintro - s ⟨⟨hne, hshows⟩, hs⟩
      refine ⟨⟨⟨fun h0 ↦ hne ?_, hfinds⟩, hshows⟩, hs.1⟩
      rwa [h0, Nat.zero_min, List.length_eq_zero_iff] at hlen
    · rintro - s ⟨hlog, hs⟩
      refine ⟨fun hqueries ↦ hlog ⟨fun hnil ↦ hqueries.1.1 ?_, hqueries.2⟩, hs.1⟩
      rw [hnil, List.length_nil] at hlen
      omega
  · rintro e s ⟨⟨id, hid, hfinds⟩, hs⟩
    exact ⟨fun hqueries ↦ hfinds (hqueries.1.2 id hid), hs.1⟩

omit [X.PointsRoundTrip] in
/-- Every id below the number of points is found, once the points are written. -/
theorem queries_of_filled (h : args.upsert.Sendable M web) {db' : Database X}
    (hfills : Fills args db)
    (hdb' : db.Filled web args.collectionName (List.range args.numPoints) db') :
    Queries args around db' := by
  refine ⟨hfills.1, fun id hid ↦ ?_⟩
  obtain ⟨i, -, rfl⟩ := List.mem_map.mp hid
  obtain ⟨hnone, -⟩ | ⟨t, t', -, ht', htable⟩ := hdb'.cases
  · exact absurd hnone hfills.2
  · have hlt : (around.random i % UInt64.ofNat args.numPoints).toNat < args.numPoints := by
      have hsize : args.numPoints < UInt64.size := h.numPoints_lt
      rw [UInt64.toNat_mod, UInt64.toNat_ofNat_of_lt' hsize]
      exact Nat.mod_lt _ (Nat.pos_of_ne_zero hfills.1)
    obtain ⟨timestamp, hget⟩ := htable.found _ (List.mem_range.mpr hlt)
    rw [UInt64.ofNat_toNat] at hget
    exact ⟨t', _, ht', hget⟩

/-! ## The whole benchmark -/

/-- The database when the points are to be written. -/
def started (X : Crates V) (args : BenchArgs) (db : Database X) : Database X :=
  if args.skipCreate then db else prepared X args db

/-- What the benchmark leaves: its points have been written, unless that was to be skipped. -/
def Leaves (web : Web V) (args : BenchArgs) (db db' : Database X) : Prop :=
  if args.skipUpsert then db' = started X args db
  else (started X args db).Filled web args.collectionName (List.range args.numPoints) db'

/-- When the benchmark ends well: it does nothing but create, or there are points and a table, and
a point for every id it asks for if it has not written them.  The nines must fit whenever there is
something to show. -/
def Completes (M : Machine) (args : BenchArgs) (around : Surroundings) (db : Database X) : Prop :=
  (args.skipUpsert ∧ args.skipQuery) ∨
    (args.skipUpsert = false ∧ Fills args (started X args db) ∧ Shows M args.p9) ∨
    (args.skipUpsert ∧ args.skipQuery = false ∧ Queries args around (started X args db) ∧
      Shows M args.p9)

theorem meets_main (h : args.upsert.Sendable M web) (hname : Path.IsFileName args.collectionName) :
    Meets (Session.answer (X := X) web J peer around) (·.At J peer db 0) (main M args)
      ⟨fun _ s ↦ Completes M args around db ∧ ∃ db', Leaves web args db db' ∧
          s.node.Depicts J peer db',
        fun _ s ↦ ¬ Completes M args around db ∧ ∃ db', Leaves web args db db' ∧
          s.node.Depicts J peer db',
        fun _ s ↦ ¬ Completes M args around db ∧ ∃ db', Leaves web args db db' ∧
          s.node.Depicts J peer db'⟩ := by
  have hstart : Meets (Session.answer (X := X) web J peer around) (·.At J peer db 0)
      (unlessSkipped args.skipCreate (prepare args))
      ⟨fun _ s ↦ s.At J peer (started X args db) 0, fun _ _ ↦ False, fun _ _ ↦ False⟩ := by
    rw [started, unlessSkipped]
    split
    · exact .ok fun s hs ↦ hs
    · exact meets_prepare h.leads hname
  rw [main]
  refine hstart.bind (fun _ ↦ ?_) (fun _ _ he ↦ he.elim) fun _ _ hp ↦ hp.elim
  simp only [Completes, Leaves]
  generalize started X args db = db₁
  cases hupsert : args.skipUpsert with
  | true =>
    cases hquery : args.skipQuery with
    | true => exact .ok fun s hs ↦ ⟨by simp, db₁, rfl, hs.1⟩
    | false =>
      refine (meets_query M h.leads).weaken ?_ ?_ ?_
      · exact fun _ s hs ↦ ⟨by simp [hs.1], db₁, rfl, hs.2⟩
      · exact fun e s hs ↦ ⟨by simp [hs.1], db₁, rfl, hs.2⟩
      · exact fun message s hs ↦ ⟨by simp [hs.1], db₁, rfl, hs.2⟩
  | false =>
    refine (meets_fill h).bind (fun _ ↦ .of_fact fun hfills ↦ ?_) ?_ ?_
    · rintro s ⟨db', hdb', hs⟩
      have hqueries : Queries args around db' := queries_of_filled h hfills.1 hdb'
      cases hquery : args.skipQuery with
      | true => exact ⟨by simp [hfills], db', hdb', hs.1⟩
      | false =>
        refine ((meets_query M h.leads).weaken (R := ⟨_, _, _⟩) ?_ ?_ ?_) s hs
        · exact fun _ s hs ↦ ⟨by simp [hfills], db', hdb', hs.2⟩
        · exact fun e s hs ↦ absurd ⟨hqueries, hfills.2⟩ hs.1
        · exact fun message s hs ↦ absurd ⟨hqueries, hfills.2⟩ hs.1
    · rintro e s ⟨hfills, db', hdb', hs⟩
      exact ⟨by simp [hfills], db', hdb', hs.1⟩
    · rintro message s ⟨hfills, db', hdb', hs⟩
      exact ⟨by simp [hfills], db', hdb', hs.1⟩

end Smolbench

end Contracts

/-! ## After anything a node has been asked -/

namespace Smolbench

open Http (requests)

/-- The database that a node has the collections of, after some events. -/
def databaseOf (X : Crates V) (events : List (Http.Event V)) : Database X :=
  (requests events).foldl Database.next fun _ ↦ none

variable (X : Crates V) [X.PointsRoundTrip] (web : Web V) (J : ConfigJson) (peer : PeerId)
  (around : Surroundings) (env : LoadEnv) {events : List (Http.Event V)}
  (hproper : ∀ r ∈ requests events, r.Proper) {M : Machine} {args : BenchArgs} (h : args.upsert.Sendable M web)
  (hname : Path.IsFileName args.collectionName)

include hproper h hname

/-- **When the benchmark ends well** against a node, whatever the node has been asked before: if it
only creates the collection; if it writes, and there are points to write and a collection; and if it
only reads, and there are points to read and a point for every id that it draws.  Whenever it writes
or reads, the nines that it shows must fit a string.  In particular it always ends well if there are
points, as few nines as are ever asked for, and nothing is skipped. -/
theorem benchmark_completes_iff : ∃ (node : Node X) (responses : _) (s : Session X) (outcome : _),
    Http.run J peer (.restart env :: events) .down = (node, responses) ∧
    (main M args).run (Session.answer web J peer around) ⟨node, 0, 0⟩ = (s, outcome) ∧
    (outcome = .ok () ↔ Completes M args around (databaseOf X events)) := by
  obtain ⟨node, responses, hrun, -, hnode⟩ := Http.run_start X J peer env hproper
  refine ⟨node, responses, _, _, hrun, rfl, ?_⟩
  have hmain : Meets (Session.answer web J peer around) (·.At J peer (databaseOf X events) 0)
      (main M args) _ := meets_main h hname
  have hend := hmain ⟨node, 0, 0⟩ ⟨hnode, rfl⟩
  generalize ((main M args).run (Session.answer web J peer around) ⟨node, 0, 0⟩).2 = outcome
    at hend ⊢
  cases outcome with
  | ok _ => exact ⟨fun _ ↦ hend.1, fun _ ↦ rfl⟩
  | error e => exact ⟨fun heq ↦ absurd heq (by simp), fun hcompletes ↦ absurd hcompletes hend.1⟩
  | panicked message =>
    exact ⟨fun heq ↦ absurd heq (by simp), fun hcompletes ↦ absurd hcompletes hend.1⟩

/-- **What the benchmark leaves**, however it ends.  From then on the node answers like a database
in which the collection has been made, if it was to be, and has a point of the benchmark for every
id below the number of points, if there is a collection and they were to be written; all else in it
is as it was before. -/
theorem benchmark_leaves : ∃ (node : Node X) (responses : _) (s : Session X) (outcome : _)
    (db' : Database X),
    Http.run J peer (.restart env :: events) .down = (node, responses) ∧
    (main M args).run (Session.answer web J peer around) ⟨node, 0, 0⟩ = (s, outcome) ∧
    Leaves web args (databaseOf X events) db' ∧
    ∀ after : List (Http.Event V), (∀ r ∈ requests after, r.Proper) →
      ∃ (node' : Node X) (responses' : _), Http.run J peer after s.node = (node', responses') ∧
        db'.Runs X (requests after) responses' := by
  obtain ⟨node, responses, hrun, -, hnode⟩ := Http.run_start X J peer env hproper
  have hmain : Meets (Session.answer web J peer around) (·.At J peer (databaseOf X events) 0)
      (main M args) _ := meets_main h hname
  have hend := hmain ⟨node, 0, 0⟩ ⟨hnode, rfl⟩
  obtain ⟨db', hleaves, hdb'⟩ : ∃ db', Leaves web args (databaseOf X events) db' ∧
      ((main M args).run (Session.answer web J peer around) ⟨node, 0, 0⟩).1.node.Depicts
        J peer db' := by
    generalize ((main M args).run (Session.answer web J peer around) ⟨node, 0, 0⟩).2 = outcome
      at hend
    cases outcome <;> exact hend.2
  refine ⟨node, responses, _, _, db', hrun, rfl, hleaves, fun after hafter ↦ ?_⟩
  obtain ⟨node', responses', hrun', hruns', -⟩ := hdb'.run hafter
  exact ⟨node', responses', hrun', hruns'⟩

end Smolbench

/-! ## A benchmark on the local machine -/

/-- The URL of the collection of the benchmark. -/
def benchmarkUrl : String := "http://localhost:9001//collections/benchmark"

/-- The URLs of the benchmark on the local machine, and payloads that say nothing. -/
def Web.localhost : Web Bool where
  locate url :=
    if url = benchmarkUrl then some (.collection "benchmark")
    else if url = benchmarkUrl ++ "/points" then some (.points "benchmark")
    else if (benchmarkUrl ++ "/points/").toList <+: url.toList then
      some (.point "benchmark"
        (String.ofList (url.toList.drop (benchmarkUrl ++ "/points/").toList.length)))
    else none
  json
    | .created result => toString result
    | _ => "null"
  json_created _ := rfl
  payload _ _ := true
  accepts points := points.length ≤ 1000

theorem Web.localhost_leads : Web.localhost.Leads "http://localhost:9001/" "benchmark" where
  collection := rfl
  points := rfl
  point id := by
    have hlen : (benchmarkUrl ++ "/points/").toList.length
        < (benchmarkUrl ++ "/points/" ++ (PointId.id id).intoString).toList.length := by
      have hpos : 0 < (PointId.id id).intoString.toList.length := by
        rw [String.length_toList]
        exact Nat.length_repr_pos
      rw [String.toList_append (t := (PointId.id id).intoString), List.length_append]
      omega
    change Web.localhost.locate (benchmarkUrl ++ "/points/" ++ (PointId.id id).intoString) = _
    rw [Web.localhost]
    simp only
    rw [if_neg, if_neg, if_pos, String.toList_append (t := (PointId.id id).intoString),
      List.drop_left, String.ofList_toList]
    · rw [String.toList_append (t := (PointId.id id).intoString)]
      exact List.prefix_append _ _
    · intro heq
      rw [heq] at hlen
      exact absurd hlen (by decide)
    · intro heq
      rw [heq] at hlen
      exact absurd hlen (by decide)

/-- Seven points in batches of three. -/
def BenchArgs.seven : BenchArgs where
  uri := "http://localhost:9001/"
  collectionName := "benchmark"
  numPoints := 7
  batchSize := 3
  skipCreate := false
  skipIfExists := false
  skipUpsert := false
  skipQuery := false
  p9 := 2
  delay := none

theorem BenchArgs.seven_sendable : BenchArgs.seven.upsert.Sendable .release Web.localhost where
  fit := ⟨by decide, by decide, by decide, by decide⟩
  numPoints := by decide
  bits := le_refl _
  leads := Web.localhost_leads
  accepts points hlen := decide_eq_true (hlen.trans (by decide))

/-- A clock that stands still, and no luck in drawing. -/
def Surroundings.still : Surroundings where
  env _ := .insertion
  now _ := "2025-01-01T00:00:00+00:00"
  time _ := "0.001"
  random i := UInt64.ofNat i

namespace Smolbench

theorem requests_nil : ∀ r ∈ Http.requests ([] : List (Http.Event Bool)), r.Proper :=
  fun r hr ↦ absurd hr (by simp [Http.requests])

theorem fills_seven : Fills .seven (started Crates.bool .seven fun _ ↦ none) :=
  ⟨by decide, by simp [started, prepared, BenchArgs.seven]⟩

theorem benchmark_completes_iff_seven : ∃ (s : Session Crates.bool) (outcome : _),
    (main .release .seven).run (Session.answer .localhost .plain 101 .still)
      ⟨(Http.run .plain 101 [.restart .insertion] .down).1, 0, 0⟩ = (s, outcome) ∧
      outcome = .ok () := by
  obtain ⟨node, responses, s, outcome, hnode, hrun, hiff⟩ := benchmark_completes_iff Crates.bool
    .localhost .plain 101 .still .insertion requests_nil BenchArgs.seven_sendable (by decide)
  rw [hnode]
  exact ⟨s, outcome, hrun, hiff.mpr (Or.inr (Or.inl ⟨rfl, fills_seven, Or.inr (by decide)⟩))⟩

theorem benchmark_leaves_seven : ∃ (s : Session Crates.bool) (outcome : _)
    (db' : Database Crates.bool),
    (main .release .seven).run (Session.answer .localhost .plain 101 .still)
      ⟨(Http.run .plain 101 [.restart .insertion] .down).1, 0, 0⟩ = (s, outcome) ∧
      Leaves .localhost .seven (fun _ ↦ none) db' := by
  obtain ⟨node, responses, s, outcome, db', hnode, hrun, hleaves, -⟩ := benchmark_leaves Crates.bool
    .localhost .plain 101 .still .insertion requests_nil BenchArgs.seven_sendable (by decide)
  rw [hnode]
  exact ⟨s, outcome, db', hrun, hleaves⟩

end Smolbench

end Smoldb
