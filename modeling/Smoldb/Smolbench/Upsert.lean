import Smoldb.Lib.Program
import Smoldb.Lib.Chunks
import Smoldb.Smolbench.Args

/-!
# The batches of the benchmark

`upsert_points` of the benchmark cuts the ids below the number of points up into batches and sends
one request for each.  `batches_tile_iff` says for which arguments the batches make up all of the
ids.

The end of the last batch is computed before it is cut down to the number of points, and that may
overflow.  A vector does not have more than `isize::MAX` bytes, and asking for more is a panic; so
is a division by a batch size of zero.  With overflow checks an overflow is a panic as well, and
without them the value wraps around, so `Machine` says which it is, how long a `usize` is, and how
large the elements of the two vectors are.

`Tiles` is what the batches should be: the requests that were sent have the ids from zero on, in
order, each once, and no request has more than a batch of them.  The loop over the batches has the
invariant `Sent`: what has been sent are the batches that are done.  `UpsertArgs.Fit` is the
condition, and says that none of the computations on the way is out of range.
-/

set_option autoImplicit false

namespace Smoldb

/-! ## The machine -/

/-- What the benchmark is compiled for and how. -/
structure Machine where
  /-- The width of `usize`. -/
  bits : ℕ
  /-- Whether an overflow is a panic.  It wraps around otherwise. -/
  overflowChecks : Bool
  /-- The size of an `ApiSuccessResponse<Value>`. -/
  responseSize : ℕ
  /-- The size of a `Point`. -/
  pointSize : ℕ

/-- `SmolBenchError`. -/
inductive SmolBenchError where
  | createCollectionError (error : String)
  | requestError (error : String)
  | jsonError (error : String)

/-- `ApiSuccessResponse<Value>`, with its fields as they are in the answer. -/
structure ApiSuccessResponse where
  result : String
  time : String

/-- `ApiResponse<Value>`. -/
inductive ApiResponse where
  | success (response : ApiSuccessResponse)
  | error (error : String)

/-- The `Point` of the benchmark, with the fields of its payload. -/
structure BenchPoint where
  id : ℕ
  text : String
  timestamp : String

/-- The calls of the benchmark. -/
inductive BenchOp where
  /-- `chrono::Utc::now`. -/
  | now
  /-- A request for points to be written, with the parsing of what is answered. -/
  | put (url : String) (points : List BenchPoint)
  /-- `tokio::time::sleep`. -/
  | sleep (milliseconds : ℕ)

/-- What comes back from a call. -/
abbrev BenchOp.Reply : BenchOp → Type
  | now => String
  | put _ _ => Except SmolBenchError ApiResponse
  | sleep _ => Unit

/-- Programs that call a server. -/
abbrev Bench (α : Type) := Program BenchOp BenchOp.Reply SmolBenchError α

namespace Machine

/-- `usize::MAX`. -/
def usizeMax (self : Machine) : ℕ := 2 ^ self.bits - 1

/-- `isize::MAX`. -/
def isizeMax (self : Machine) : ℕ := 2 ^ (self.bits - 1) - 1

/-- What becomes of the exact result of an operation on `usize`. -/
def usize (self : Machine) (operation : String) (exact : ℕ) : Bench ℕ :=
  if exact ≤ self.usizeMax then .ok exact
  else if self.overflowChecks then .panicked s!"attempt to {operation} with overflow"
  else .ok (exact % 2 ^ self.bits)

/-- `usize::div_ceil`. -/
def usizeDivCeil (n b : ℕ) : Bench ℕ :=
  if b = 0 then .panicked "attempt to divide by zero" else .ok (divCeil n b)

/-- `Vec::with_capacity`, for elements of some size. -/
def withCapacity (self : Machine) (size capacity : ℕ) : Bench Unit :=
  if capacity * size ≤ self.isizeMax then .ok () else .panicked "capacity overflow"

end Machine

/-! ## The batches -/

/-- What `upsert_points` is called with. -/
structure UpsertArgs where
  url : String
  collectionName : String
  numPoints : ℕ
  batchSize : ℕ
  delay : Option ℕ

/-- A point of the benchmark. -/
def benchPoint (timestamp : String) (i : ℕ) : BenchPoint := ⟨i, s!"Point {i}", timestamp⟩

/-- A round of the loop of `upsert_points`, from where the ids of the batch are known.  There are
none if the range ends before it starts. -/
def sendBatch (M : Machine) (args : UpsertArgs) (results : List ApiSuccessResponse)
    (start stop : ℕ) : Bench (List ApiSuccessResponse) := do
  let timestamp ← Program.perform .now
  M.withCapacity M.pointSize (stop - start)
  let points := (List.range' start (stop - start)).map (benchPoint timestamp)
  let answer ← Program.perform
    (.put s!"{args.url}/collections/{args.collectionName}/points" points)
  match ← Program.ofExcept answer with
  | .success body =>
    match args.delay with
    | some milliseconds => Program.perform (BenchOp.sleep milliseconds)
    | none => pure ()
    pure (results ++ [body])
  | .error error => Program.error (.createCollectionError error)

/-- One round of the loop of `upsert_points`. -/
def upsertBatch (M : Machine) (args : UpsertArgs) (results : List ApiSuccessResponse) (batch : ℕ) :
    Bench (List ApiSuccessResponse) := do
  let start ← M.usize "multiply" (batch * args.batchSize)
  let stop ← M.usize "add" (start + args.batchSize)
  sendBatch M args results start (min stop args.numPoints)

/-- `upsert_points`. -/
def upsertPoints (M : Machine) (args : UpsertArgs) : Bench (List ApiSuccessResponse) := do
  let numBatches ← Machine.usizeDivCeil args.numPoints args.batchSize
  M.withCapacity M.responseSize numBatches
  (List.range numBatches).foldlM (upsertBatch M args) []

/-! ## A server that answers -/

/-- A server where every request succeeds. -/
structure BenchServer where
  timestamp : List (List BenchPoint) → String
  response : List (List BenchPoint) → ApiSuccessResponse

/-- The server answers, and the batches it has been sent are kept. -/
def BenchServer.answer (server : BenchServer) (sent : List (List BenchPoint)) :
    (op : BenchOp) → List (List BenchPoint) × op.Reply
  | .now => (sent, server.timestamp sent)
  | .put _ points => (sent ++ [points], .ok (.success (server.response (sent ++ [points]))))
  | .sleep _ => (sent, ())

/-- The batches make up the ids below the number of points: each id once and in order, no batch
empty or too long, and there is a result for every batch. -/
structure Tiles (args : UpsertArgs) (sent : List (List BenchPoint))
    (results : List ApiSuccessResponse) : Prop where
  ids : (sent.map (·.map (·.id))).flatten = List.range args.numPoints
  nonempty : ∀ batch ∈ sent, batch ≠ []
  short : ∀ batch ∈ sent, batch.length ≤ args.batchSize
  results : results.length = sent.length

/-! ## Running the batches -/

section Run

variable {M : Machine} {args : UpsertArgs} {server : BenchServer}

theorem Machine.usize_of_le {exact : ℕ} (h : exact ≤ M.usizeMax) (operation : String) :
    M.usize operation exact = .ok exact := if_pos h

theorem Machine.withCapacity_of_le {size capacity : ℕ} (h : capacity * size ≤ M.isizeMax) :
    M.withCapacity size capacity = .ok () := if_pos h

/-- **A batch is sent**, if its points fit a vector. -/
theorem run_sendBatch (args : UpsertArgs) (server : BenchServer) {start stop : ℕ}
    (hpoints : (stop - start) * M.pointSize ≤ M.isizeMax) (results : List ApiSuccessResponse)
    (sent : List (List BenchPoint)) :
    ∃ points body, (sendBatch M args results start stop).run server.answer sent
        = (sent ++ [points], .ok (results ++ [body])) ∧
      points.map (·.id) = List.range' start (stop - start) := by
  refine ⟨(List.range' start (stop - start)).map (benchPoint (server.timestamp sent)),
    server.response (sent ++
      [(List.range' start (stop - start)).map (benchPoint (server.timestamp sent))]), ?_, ?_⟩
  · rw [sendBatch, Program.run_bind_of (Program.run_perform BenchOp.now sent),
      Machine.withCapacity_of_le hpoints]
    cases args.delay <;> rfl
  · rw [List.map_map]
    exact List.map_id _

theorem run_sendBatch_panicked {start stop : ℕ}
    (hpoints : ¬ (stop - start) * M.pointSize ≤ M.isizeMax) (results : List ApiSuccessResponse)
    (sent : List (List BenchPoint)) :
    ∃ message, (sendBatch M args results start stop).run server.answer sent
      = (sent, .panicked message) := by
  refine ⟨"capacity overflow", ?_⟩
  rw [sendBatch, Program.run_bind_of (Program.run_perform BenchOp.now sent), Machine.withCapacity,
    if_neg hpoints]
  rfl

/-- A batch is sent, if its end can be computed too. -/
theorem run_upsertBatch {batch : ℕ} (hend : batch * args.batchSize + args.batchSize ≤ M.usizeMax)
    (hpoints : (chunk args.numPoints args.batchSize batch).length * M.pointSize ≤ M.isizeMax)
    (results : List ApiSuccessResponse) (sent : List (List BenchPoint)) :
    ∃ points body, (upsertBatch M args results batch).run server.answer sent
        = (sent ++ [points], .ok (results ++ [body])) ∧
      points.map (·.id) = chunk args.numPoints args.batchSize batch := by
  have hstart : batch * args.batchSize ≤ M.usizeMax := by omega
  rw [length_chunk] at hpoints
  obtain ⟨points, body, hrun, hids⟩ := run_sendBatch args server hpoints results sent
  refine ⟨points, body, ?_, hids⟩
  rw [upsertBatch, Machine.usize_of_le hstart, Program.run_bind_of rfl, Machine.usize_of_le hend,
    Program.run_bind_of rfl, hrun]

/-- These batches have been sent, and there is a result for each. -/
def Sent (args : UpsertArgs) (done : List ℕ) (results : List ApiSuccessResponse)
    (sent : List (List BenchPoint)) : Prop :=
  sent.map (·.map (·.id)) = done.map (chunk args.numPoints args.batchSize) ∧
    results.length = done.length

/-- **Some batches are sent**, if their ends can be computed. -/
theorem run_batches (args : UpsertArgs) (server : BenchServer) {k : ℕ}
    (hends : k * args.batchSize ≤ M.usizeMax)
    (hpoints : min args.batchSize args.numPoints * M.pointSize ≤ M.isizeMax) :
    ∃ results sent, ((List.range k).foldlM (upsertBatch M args) []).run server.answer []
        = (sent, .ok results) ∧ Sent args (List.range k) results sent := by
  have hround : ∀ done batch, batch ∈ List.range k → ∀ results sent, Sent args done results sent →
      ∃ results' sent', (upsertBatch M args results batch).run server.answer sent
        = (sent', .ok results') ∧ Sent args (done ++ [batch]) results' sent' := by
    rintro done batch hbatch results sent ⟨hsent, hresults⟩
    have hend := Nat.mul_le_mul_right args.batchSize (Nat.succ_le_of_lt (List.mem_range.mp hbatch))
    rw [Nat.succ_mul] at hend
    have hlen := Nat.mul_le_mul_right M.pointSize
      (length_chunk_le args.numPoints args.batchSize batch)
    obtain ⟨points, body, hrun, hids⟩ :=
      run_upsertBatch (hend.trans hends) (hlen.trans hpoints) results sent
    refine ⟨_, _, hrun, ?_, ?_⟩
    · rw [List.map_append, List.map_append, hsent, List.map_singleton, List.map_singleton, hids]
    · rw [List.length_append, List.length_append, hresults]
      rfl
  have hnone : Sent args [] [] [] := ⟨rfl, rfl⟩
  exact Program.run_foldlM hround hnone

theorem Sent.tiles {results : List ApiSuccessResponse} {sent : List (List BenchPoint)}
    (h : Sent args (List.range (divCeil args.numPoints args.batchSize)) results sent)
    (hbatch : args.batchSize ≠ 0) : Tiles args sent results := by
  obtain ⟨hsent, hresults⟩ := h
  have hchunk : ∀ batch ∈ sent, ∃ i, i * args.batchSize < args.numPoints ∧
      batch.map (·.id) = chunk args.numPoints args.batchSize i := fun batch hbatch ↦ by
    have hmem := List.mem_map_of_mem (f := fun batch : List BenchPoint ↦ batch.map (·.id)) hbatch
    rw [hsent, List.mem_map] at hmem
    obtain ⟨i, hi, heq⟩ := hmem
    exact ⟨i, mul_lt_of_lt_divCeil (List.mem_range.mp hi), heq.symm⟩
  constructor
  · rw [hsent, flatten_chunks, min_eq_right (le_divCeil_mul _ hbatch)]
  · rintro batch hmem rfl
    obtain ⟨i, hi, heq⟩ := hchunk [] hmem
    exact chunk_ne_nil hbatch hi heq.symm
  · intro batch hmem
    obtain ⟨i, -, heq⟩ := hchunk batch hmem
    have hlen := congrArg List.length heq
    rw [List.length_map] at hlen
    have hle := length_chunk_le args.numPoints args.batchSize i
    omega
  · rw [hresults, ← List.length_map (f := fun batch : List BenchPoint ↦ batch.map (·.id)), hsent,
      List.length_map]

/-- What the batches have to fit, so that they make up the ids. -/
structure UpsertArgs.Fit (M : Machine) (args : UpsertArgs) : Prop where
  batchSize : args.batchSize ≠ 0
  ends : divCeil args.numPoints args.batchSize * args.batchSize ≤ M.usizeMax
  responses : divCeil args.numPoints args.batchSize * M.responseSize ≤ M.isizeMax
  points : min args.batchSize args.numPoints * M.pointSize ≤ M.isizeMax

/-- **The batches make up the ids**, if they fit. -/
theorem UpsertArgs.Fit.run (h : args.Fit M) (server : BenchServer) :
    ∃ results sent, (upsertPoints M args).run server.answer [] = (sent, .ok results) ∧
      Tiles args sent results := by
  obtain ⟨results, sent, hrun, hsent⟩ := run_batches args server h.ends h.points
  refine ⟨results, sent, ?_, hsent.tiles h.batchSize⟩
  rw [upsertPoints, Machine.usizeDivCeil, if_neg h.batchSize, Program.run_bind_of rfl,
    Machine.withCapacity_of_le h.responses, Program.run_bind_of rfl, hrun]

/-- If the end of a batch cannot be computed, the batch is empty or is not sent at all. -/
theorem run_upsertBatch_overflow (server : BenchServer) {batch : ℕ}
    (hstart : batch * args.batchSize ≤ M.usizeMax)
    (hsize : args.batchSize ≤ M.usizeMax)
    (hend : ¬ batch * args.batchSize + args.batchSize ≤ M.usizeMax)
    (results : List ApiSuccessResponse) (sent : List (List BenchPoint)) :
    (∃ message, (upsertBatch M args results batch).run server.answer sent
        = (sent, .panicked message)) ∨
      ∃ body, (upsertBatch M args results batch).run server.answer sent
        = (sent ++ [[]], .ok (results ++ [body])) := by
  rw [upsertBatch, Machine.usize_of_le hstart, Program.run_bind_of rfl, Machine.usize, if_neg hend]
  by_cases hchecks : M.overflowChecks = true
  · rw [if_pos hchecks]
    exact Or.inl ⟨_, rfl⟩
  · right
    rw [if_neg hchecks, Program.run_bind_of rfl]
    -- the end has wrapped around to before the start
    have hwrap : min ((batch * args.batchSize + args.batchSize) % 2 ^ M.bits) args.numPoints
        - batch * args.batchSize = 0 := by
      rw [Machine.usizeMax] at hstart hsize hend
      have hpos : 0 < 2 ^ M.bits := Nat.two_pow_pos M.bits
      have hmod : (batch * args.batchSize + args.batchSize) % 2 ^ M.bits
          = batch * args.batchSize + args.batchSize - 2 ^ M.bits := by
        rw [Nat.mod_eq_sub_mod (by omega), Nat.mod_eq_of_lt (by omega)]
      omega
    obtain ⟨points, body, hrun, hids⟩ := run_sendBatch (M := M) args server
      (by rw [hwrap, Nat.zero_mul]; exact Nat.zero_le _) results sent
    rw [hwrap, List.range'_zero, List.map_eq_nil_iff] at hids
    rw [hids] at hrun
    exact ⟨body, hrun⟩

/-- **If the batches make up the ids, they fit.** -/
theorem fit_of_tiles (hnum : args.numPoints ≤ M.usizeMax) (hsize : args.batchSize ≤ M.usizeMax)
    {sent : List (List BenchPoint)} {results : List ApiSuccessResponse}
    (hrun : (upsertPoints M args).run server.answer [] = (sent, .ok results))
    (htiles : Tiles args sent results) : args.Fit M := by
  have hbatch : args.batchSize ≠ 0 := fun hzero ↦ by
    rw [upsertPoints, Machine.usizeDivCeil, if_pos hzero] at hrun
    exact nomatch hrun
  rw [upsertPoints, Machine.usizeDivCeil, if_neg hbatch, Program.run_bind_of rfl] at hrun
  have hresponses : divCeil args.numPoints args.batchSize * M.responseSize ≤ M.isizeMax := by
    by_contra hlarge
    rw [Machine.withCapacity, if_neg hlarge] at hrun
    exact nomatch hrun
  rw [Machine.withCapacity_of_le hresponses, Program.run_bind_of rfl] at hrun
  have hpoints : min args.batchSize args.numPoints * M.pointSize ≤ M.isizeMax := by
    -- otherwise it is the first batch that does not fit
    by_contra hlarge
    have hpos : 0 < divCeil args.numPoints args.batchSize :=
      divCeil_pos hbatch (Nat.pos_of_ne_zero fun h ↦ hlarge (by simp [h]))
    obtain ⟨k, hk⟩ := Nat.exists_eq_succ_of_ne_zero hpos.ne'
    have hend : 0 * args.batchSize + args.batchSize ≤ M.usizeMax := by omega
    have hstart : 0 * args.batchSize ≤ M.usizeMax := by omega
    have hfirst : ∃ message, (upsertBatch M args [] 0).run server.answer []
        = ([], .panicked message) := by
      rw [upsertBatch, Machine.usize_of_le hstart, Program.run_bind_of rfl,
        Machine.usize_of_le hend, Program.run_bind_of rfl]
      refine run_sendBatch_panicked ?_ [] []
      rwa [← length_chunk, chunk_zero]
    obtain ⟨message, hfirst⟩ := hfirst
    rw [hk, List.range_succ_eq_map, List.foldlM_cons, Program.run_bind_of_panicked hfirst] at hrun
    exact nomatch hrun
  refine ⟨hbatch, ?_, hresponses, hpoints⟩
  by_contra hends
  -- otherwise it is the last batch whose end overflows
  obtain ⟨k, hk⟩ : ∃ k, divCeil args.numPoints args.batchSize = k + 1 :=
    Nat.exists_eq_succ_of_ne_zero fun h ↦ hends (by simp [h])
  have hlast : k * args.batchSize < args.numPoints := mul_lt_of_lt_divCeil (by omega)
  rw [hk, Nat.succ_mul] at hends
  obtain ⟨before, sent₁, hbefore, -⟩ :=
    run_batches args server (hlast.le.trans hnum) hpoints
  rw [hk, List.range_succ, Program.run_foldlM_append _ hbefore, List.foldlM_cons] at hrun
  obtain ⟨message, hlast'⟩ | ⟨body, hlast'⟩ := run_upsertBatch_overflow server
    (hlast.le.trans hnum) hsize hends before sent₁
  · rw [Program.run_bind_of_panicked hlast'] at hrun
    exact nomatch hrun
  · rw [Program.run_bind_of hlast'] at hrun
    obtain rfl : sent₁ ++ [[]] = sent := (Prod.ext_iff.mp hrun).1
    exact htiles.nonempty [] (by simp) rfl

end Run

/-- **When the batches make up the ids.**  Let every request succeed.  That `upsert_points` sends
batches that make up the ids below the number of points, and that nothing overflows on the way, is
the case exactly if the batch size is not zero, all of the batches together end below `usize::MAX`,
and the results and the points of a batch fit a vector.  If it is not, the batches do not make up
the ids, whether overflows are checked or not. -/
theorem batches_tile_iff (M : Machine) (args : UpsertArgs) (server : BenchServer)
    (numPoints batchSize : String)
    (hnum : parseNumber M.usizeMax numPoints = some (.ok args.numPoints))
    (hsize : parseNumber M.usizeMax batchSize = some (.ok args.batchSize)) :
    (((∃ sent results, (upsertPoints M args).run server.answer [] = (sent, .ok results) ∧
          Tiles args sent results) ∧
        ∀ sent message, (upsertPoints { M with overflowChecks := true } args).run server.answer []
          ≠ (sent, .panicked message)) ↔ args.Fit M) ∧
    ((∃ sent results, (upsertPoints M args).run server.answer [] = (sent, .ok results) ∧
      Tiles args sent results) → args.Fit M) := by
  have hfit : (∃ sent results, (upsertPoints M args).run server.answer [] = (sent, .ok results) ∧
      Tiles args sent results) → args.Fit M := fun ⟨_, _, hrun, htiles⟩ ↦
    fit_of_tiles (le_of_parseNumber hnum) (le_of_parseNumber hsize) hrun htiles
  refine ⟨⟨fun h ↦ hfit h.1, fun h ↦ ⟨?_, fun sent message hpanic ↦ ?_⟩⟩, hfit⟩
  · obtain ⟨results, sent, hrun, htiles⟩ := h.run server
    exact ⟨sent, results, hrun, htiles⟩
  · have hchecked : args.Fit { M with overflowChecks := true } :=
      ⟨h.batchSize, h.ends, h.responses, h.points⟩
    obtain ⟨results, sent', hrun, -⟩ := hchecked.run server
    exact nomatch (Prod.ext_iff.mp (hrun.symm.trans hpanic)).2

/-- A machine of 64 bits where overflows wrap around. -/
def Machine.release : Machine := ⟨64, false, 40, 56⟩

/-- A server that answers `true`. -/
def BenchServer.plain : BenchServer where
  timestamp _ := "2025-01-01T00:00:00+00:00"
  response _ := ⟨"true", "0.001"⟩

/-- The batches of the integration test. -/
theorem batches_tile_iff_test : ∃ sent results,
    (upsertPoints .release ⟨"http://localhost:9001", "benchmark", 100000, 100, none⟩).run
      BenchServer.plain.answer [] = (sent, .ok results) ∧
    Tiles ⟨"http://localhost:9001", "benchmark", 100000, 100, none⟩ sent results :=
  ((batches_tile_iff .release ⟨"http://localhost:9001", "benchmark", 100000, 100, none⟩ .plain
    "100k" "100" (by decide) (by decide)).1.mpr ⟨by decide, by decide, by decide, by decide⟩).1

/-- **The batches do not always make up the ids**: there is a division by zero, and the end of a
batch may overflow. -/
theorem not_batches_tile :
    (¬ ∀ (args : UpsertArgs) (numPoints batchSize : String),
      parseNumber Machine.release.usizeMax numPoints = some (.ok args.numPoints) →
      parseNumber Machine.release.usizeMax batchSize = some (.ok args.batchSize) →
      ∃ sent results, (upsertPoints .release args).run BenchServer.plain.answer []
        = (sent, .ok results) ∧ Tiles args sent results) ∧
    ¬ ∃ sent results, (upsertPoints .release ⟨"http://localhost:9001", "benchmark",
        18446744073709551615, 1099511627776, none⟩).run BenchServer.plain.answer []
          = (sent, .ok results) ∧
      Tiles ⟨"http://localhost:9001", "benchmark", 18446744073709551615, 1099511627776, none⟩
        sent results := by
  constructor
  · intro h
    obtain ⟨sent, results, hrun, -⟩ :=
      h ⟨"http://localhost:9001", "benchmark", 100000, 0, none⟩ "100k" "0" (by decide) (by decide)
    exact nomatch hrun
  · rintro ⟨sent, results, hrun, htiles⟩
    have hfit := fit_of_tiles (by decide) (by decide) hrun htiles
    exact absurd hfit.ends (by decide)

end Smoldb
