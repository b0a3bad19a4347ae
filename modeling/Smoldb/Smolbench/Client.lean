import Smoldb.Lib.Contract
import Smoldb.Smolbench.Upsert

/-!
# The benchmark

What the benchmark does with its arguments: `main`, and the requests it makes of a server.  It
creates the collection, unless it is to be left alone, writes its points, and reads some of them.

A request is a call of the program, which is answered with a status and a body, or not at all; the
draw of an id is a call as well.  The points are written by `upsert_points`, which is a part of
`main` with calls of its own, and its errors become errors of the benchmark (`BenchError.ofUpsert`).

What is printed is left out, but not the panics of printing it, which are what is left of
`log_latencies`.  It looks for the least and the greatest latency, which there are none of if
nothing has been answered.  Then it makes a string of nines for each percentile, with one more each
time, and a string cannot be longer than `isize::MAX` bytes (`nines`).
-/

set_option autoImplicit false

namespace Smoldb

/-- `Args` of the benchmark. -/
structure BenchArgs where
  uri : String
  collectionName : String
  numPoints : ℕ
  batchSize : ℕ
  skipCreate : Bool
  skipIfExists : Bool
  skipUpsert : Bool
  skipQuery : Bool
  p9 : ℕ
  delay : Option ℕ

/-- The arguments that are passed on to `upsert_points`. -/
def BenchArgs.upsert (self : BenchArgs) : UpsertArgs :=
  ⟨self.uri, self.collectionName, self.numPoints, self.batchSize, self.delay⟩

/-- `SmolBenchError`, with all of its cases. -/
inductive BenchError where
  | createCollectionError (error : String)
  | deleteCollectionError (error : String)
  | retrievePointsError (error : String)
  | requestError (error : String)
  | jsonError (error : String)

namespace BenchError

instance : ToString BenchError where
  toString
    | createCollectionError e => s!"Failed to create collection: {e}"
    | deleteCollectionError e => s!"Failed to delete collection: {e}"
    | retrievePointsError e => s!"Failed to create collection: {e}"
    | requestError e => s!"Request error: {e}"
    | jsonError e => s!"JSON parsing error: {e}"

/-- The errors of `upsert_points`. -/
def ofUpsert : SmolBenchError → BenchError
  | .createCollectionError e => createCollectionError e
  | .requestError e => requestError e
  | .jsonError e => jsonError e

/-- A body that is not what is asked for. -/
def decode : BenchError := requestError "error decoding response body"

end BenchError

/-! ## Requests -/

/-- An answer to a request.  There is no body if it is neither that of a success nor of an error. -/
structure HttpAnswer where
  status : ℕ
  body : Option ApiResponse

/-- The calls of the benchmark. -/
inductive ClientOp where
  /-- A call of `upsert_points`. -/
  | upsert (op : BenchOp)
  | get (url : String)
  /-- A request with `params`. -/
  | put (url params : String)
  | delete (url : String)
  /-- `rand::Rng::random`. -/
  | random

/-- What comes back from a call. -/
abbrev ClientOp.Reply : ClientOp → Type
  | upsert op => op.Reply
  | get _ => Except BenchError HttpAnswer
  | put _ _ => Except BenchError HttpAnswer
  | delete _ => Except BenchError HttpAnswer
  | random => UInt64

/-- Programs of the benchmark. -/
abbrev Client (α : Type) := Program ClientOp ClientOp.Reply BenchError α

namespace HttpAnswer

/-- The body as an `ApiResponse<Value>`. -/
def value (self : HttpAnswer) : Except BenchError ApiResponse :=
  match self.body with
  | some response => .ok response
  | none => .error .decode

/-- The body as an `ApiResponse<bool>`. -/
def bool (self : HttpAnswer) : Except BenchError ApiResponse :=
  match self.body with
  | some (.success body) =>
    if body.result = "true" ∨ body.result = "false" then .ok (.success body) else .error .decode
  | some (.error error) => .ok (.error error)
  | none => .error .decode

end HttpAnswer

namespace Smolbench

/-- `create_collection`. -/
def createCollection (url collectionName : String) : Client ApiSuccessResponse := do
  let answer ← Program.perform (.put s!"{url}/collections/{collectionName}" "...")
  let res ← Program.ofExcept answer
  match ← Program.ofExcept res.bool with
  | .success body => pure body
  | .error error => Program.error (.createCollectionError error)

/-- `get_collection`. -/
def getCollection (url collectionName : String) : Client ApiSuccessResponse := do
  let answer ← Program.perform (.get s!"{url}/collections/{collectionName}")
  let res ← Program.ofExcept answer
  match ← Program.ofExcept res.value with
  | .success body => pure body
  | .error error => Program.error (.retrievePointsError error)

/-- `delete_collection`. -/
def deleteCollection (url collectionName : String) : Client Unit := do
  let answer ← Program.perform (.delete s!"{url}/collections/{collectionName}")
  let res ← Program.ofExcept answer
  if 200 ≤ res.status ∧ res.status < 300 then pure ()
  else
    match ← Program.ofExcept res.value with
    | .success _ => pure ()
    | .error error => Program.error (.deleteCollectionError error)

/-- A round of the loop of `retrieve_point`. -/
def retrieveOne (url collectionName : String) (results : List ApiSuccessResponse) (id : UInt64) :
    Client (List ApiSuccessResponse) := do
  let answer ← Program.perform (.get s!"{url}/collections/{collectionName}/points/{id.toNat}")
  let res ← Program.ofExcept answer
  match ← Program.ofExcept res.value with
  | .success body => pure (results ++ [body])
  | .error error => Program.error (.retrievePointsError error)

/-- `retrieve_point`. -/
def retrievePoint (url collectionName : String) (ids : List UInt64) :
    Client (List ApiSuccessResponse) := ids.foldlM (retrieveOne url collectionName) []

/-- `"9".repeat(digits)`, in a round of the loop of `log_latencies`. -/
def nines (M : Machine) (digits : ℕ) : Client Unit :=
  (M.withCapacity 1 digits).within ClientOp.upsert (fun _ r ↦ r) .ofUpsert

/-- `log_latencies`, of which only the panics are left: there are no least and greatest latency of
no responses, and a string of nines may not fit. -/
def logLatencies (M : Machine) (p9 : ℕ) : List ApiSuccessResponse → Client Unit
  | [] => .panicked "called `Option::unwrap()` on a `None` value"
  | _ :: _ => (List.range' 2 (p9 - 1)).foldlM (fun _ digits ↦ nines M digits) ()

/-- `create_collection`, with its error in another one. -/
def createOrFail (args : BenchArgs) : Client Unit := do
  match ← (createCollection args.uri args.collectionName).attempt with
  | .ok _ => pure ()
  | .error e => Program.error (.createCollectionError (toString e))

/-- The first part of `main`. -/
def prepare (args : BenchArgs) : Client Unit := do
  let collection ← (getCollection args.uri args.collectionName).attempt
  match collection with
  | .ok _ =>
    if args.skipIfExists then pure ()
    else do
      deleteCollection args.uri args.collectionName
      createOrFail args
  | .error _ => createOrFail args

/-- The second part. -/
def fill (M : Machine) (args : BenchArgs) : Client Unit := do
  let batchResponses ← (upsertPoints M args.upsert).within ClientOp.upsert (fun _ r ↦ r) .ofUpsert
  logLatencies M args.p9 batchResponses

/-- One of the ids that are asked for. -/
def drawId (args : BenchArgs) (ids : List UInt64) (_ : ℕ) : Client (List UInt64) := do
  let n ← Program.perform ClientOp.random
  pure (ids ++ [n % UInt64.ofNat args.numPoints])

/-- The third part. -/
def query (M : Machine) (args : BenchArgs) : Client Unit := do
  let numQueries := min args.numPoints 1000
  let ids ← (List.range numQueries).foldlM (drawId args) []
  let responses ← retrievePoint args.uri args.collectionName ids
  logLatencies M args.p9 responses

/-- A part that there is a flag against. -/
def unlessSkipped (skip : Bool) (part : Client Unit) : Client Unit :=
  if skip then pure () else part

/-- `main` of the benchmark. -/
def main (M : Machine) (args : BenchArgs) : Client Unit := do
  unlessSkipped args.skipCreate (prepare args)
  unlessSkipped args.skipUpsert (fill M args)
  unlessSkipped args.skipQuery (query M args)

end Smolbench

end Smoldb
