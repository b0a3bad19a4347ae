import Smoldb.Api

/-!
# What the API is for

A database has tables with names, and a table has points in slots.  The slot of a point is the shard
and the text of its id, so there are ids that share one, and the last point that was written to a
slot is the one in it.

`Database.next` says what a request does to a database, and `Database.Answers` what may be answered.
There is nothing in it about shards that are opened, about files or about the order in which a hash
map is iterated; where an answer has no order of its own, any will do.

* A collection is created if there is none of the name, and deleted if there is one.
* Points that are put are written to their slots, in the order of the list.
* A point is found under the text in the URL if the slot of the id that it is read as has one, and
  it comes back as it is in the slot.
* A list has every point of the table once, in the order of the ids.
* What is said of a collection are its params and the number of points in each of its two shards.

`Database.Runs` puts requests one after the other.  `Alike` are answers between which a database
does not choose: they differ in the order of what has none.

The rest are facts about databases that are worth having for the nodes that do what one does: there
is always an answer, a run can be looked at from one table (`Runs.about`), and requests that were
turned down may as well not have been made (`Runs.accepted`).
-/

set_option autoImplicit false

namespace Smoldb

open LastWrite

variable {V : Type} {X : Crates V}

/-! ## Tables -/

/-- Where a point is kept: a shard, and a text. -/
abbrev Slot := ShardId × String

/-- The slot of an id. -/
def slotOf (X : Crates V) (id : PointId) : Slot := (homeShard X id, id.intoString)

/-- A table.  Every point is in its own slot. -/
structure Table {V : Type} (X : Crates V) where
  params : String
  row : Slot → Option (Point V)
  own : ∀ {slot p}, row slot = some p → slotOf X p.id = slot

namespace Table

/-- A table without points. -/
def empty (X : Crates V) (params : String) : Table X :=
  ⟨params, fun _ ↦ none, fun {_ _} h ↦ absurd h (by simp)⟩

/-- The point that is found under an id. -/
def get (t : Table X) (id : PointId) : Option (Point V) := t.row (slotOf X id)

/-- The table has a point. -/
def Has (t : Table X) (p : Point V) : Prop := t.get p.id = some p

/-- Points are written, one after the other. -/
def write (t : Table X) (points : List (Point V)) : Table X where
  params := t.params
  row slot := (last (fun p ↦ slotOf X p.id) points slot).or (t.row slot)
  own {slot p} h := by
    rcases Option.or_eq_some_iff.mp h with h | ⟨-, h⟩
    · exact @key_of_last _ _ _ (fun p : Point V ↦ slotOf X p.id) _ _ _ h
    · exact t.own h

/-- How many points of a shard there are. -/
noncomputable def count (t : Table X) (s : ShardId) : ℕ :=
  {p | t.Has p ∧ homeShard X p.id = s}.ncard

/-- The points of the table, in the order of their ids. -/
def IsList (t : Table X) (ps : List (Point V)) : Prop := IdSorted ps ∧ ∀ p, p ∈ ps ↔ t.Has p

@[ext] theorem ext {t t' : Table X} (hparams : t.params = t'.params)
    (hrow : ∀ slot, t.row slot = t'.row slot) : t = t' := by
  obtain ⟨params, row, own⟩ := t
  obtain ⟨params', row', own'⟩ := t'
  obtain rfl : params = params' := hparams
  obtain rfl : row = row' := funext hrow
  rfl

theorem row_eq_some_iff {t : Table X} {slot : Slot} {p : Point V} :
    t.row slot = some p ↔ slotOf X p.id = slot ∧ t.Has p := by
  constructor
  · intro h
    refine ⟨t.own h, ?_⟩
    rwa [Has, get, t.own h]
  · rintro ⟨rfl, h⟩
    exact h

/-- A table has one list. -/
theorem IsList.unique {t : Table X} {ps ps' : List (Point V)} (h : t.IsList ps)
    (h' : t.IsList ps') : ps = ps' :=
  h.1.eq_of_mem_iff h'.1 fun p ↦ by rw [h.2, h'.2]

theorem count_eq_length {t : Table X} {s : ShardId} {ps : List (Point V)} (hnodup : ps.Nodup)
    (h : ∀ p, p ∈ ps ↔ t.Has p ∧ homeShard X p.id = s) : t.count s = ps.length := by
  classical
  have hset : {p | t.Has p ∧ homeShard X p.id = s} = (ps.toFinset : Set (Point V)) := by
    ext p
    rw [Set.mem_ofPred_eq, ← h, Finset.mem_coe, List.mem_toFinset]
  rw [count, hset, Set.ncard_coe_finset, List.toFinset_card_of_nodup hnodup]

end Table

/-! ## Databases -/

/-- The tables, by name. -/
abbrev Database {V : Type} (X : Crates V) := CollectionName → Option (Table X)

namespace Database

open Http

/-- What a request does. -/
def next (db : Database X) : Http.Request V → Database X
  | .createCollection name params =>
    match db name with
    | some _ => db
    | none => Function.update db name (some (.empty X params))
  | .deleteCollection name => Function.update db name none
  | .upsertPoints name points => Function.update db name ((db name).map (·.write points))
  | _ => db

/-- There is no table of this name to write to or to read from. -/
def missing (name : CollectionName) : StorageError :=
  .badInput s!"Collection '{name}' does not exist"

/-- What may be answered to a request. -/
def Answers (db : Database X) (request : Http.Request V)
    (r : CollectionResult (Http.Result V)) : Prop :=
  match request with
  | .getCollections =>
    ∃ names, r = .ok (.collections names) ∧ names.Nodup ∧ ∀ name, name ∈ names ↔ db name ≠ none
  | .getCollection name =>
    match db name with
    | some t => r = .ok (.collection ⟨name, ⟨t.params⟩, 2, 2⟩)
    | none => r = .error (.serviceError s!"Collection: {name} doesn't exist")
  | .getCollectionClusterInfo name =>
    match db name with
    | some t => ∃ localShards, r = .ok (.clusterInfo ⟨0, 2, localShards, []⟩) ∧
        localShards.Perm [⟨0, t.count 0, "Active"⟩, ⟨1, t.count 1, "Active"⟩]
    | none => r = .error (.serviceError s!"Collection: {name} doesn't exist")
  | .deleteCollection name =>
    match db name with
    | some _ => r = .ok (.deleted s!"Collection '{name}' deleted successfully.")
    | none => r = .error (.storageError (.badInput
        s!"Collection with name '{name}' does not exist"))
  | .createCollection name _ =>
    match db name with
    | some _ => r = .error (.storageError (.badInput
        s!"Collection path already exists: {(collectionDir name).display}"))
    | none => r = .ok (.created true)
  | .upsertPoints name points =>
    match db name with
    | some _ => r = .ok (.upserted ⟨points.length⟩)
    | none => r = .error (.storageError (missing name))
  | .getPoint name id =>
    match db name with
    | some t =>
      match t.get (.ofPath id) with
      | some p => r = .ok (.point p)
      | none => r = .error (.serviceError
          s!"Point with id '{id}' not found in collection '{name}'")
    | none => r = .error (.serviceError
        s!"Error retrieving point with id '{id}' in collection '{name}': {missing name}")
  | .listPoints name =>
    match db name with
    | some t => ∃ ps, t.IsList ps ∧
        r = if ps = [] then .error (.serviceError s!"No points found in collection '{name}'")
          else .ok (.points ps)
    | none => r = .error (.serviceError
        s!"Error listing points in collection '{name}': {missing name}")

/-- One request after the other, with the responses to them. -/
def Runs (X : Crates V) :
    Database X → List (Http.Request V) → List (Option (Response (Http.Result V))) → Prop
  | _, [], responses => responses = []
  | db, request :: requests, responses => ∃ r rest, responses = some (time X r) :: rest ∧
      db.Answers request r ∧ Runs X (db.next request) requests rest

end Database

/-! ## Answers that are alike -/

namespace Http

/-- Results are the same up to the order of what has none. -/
inductive Result.Alike : Result V → Result V → Prop
  | refl (r : Result V) : Alike r r
  | collections {names names' : List CollectionName} (h : names.Perm names') :
    Alike (.collections names) (.collections names')
  | clusterInfo {peerId : PeerId} {n : ℕ} {ls ls' : List CollectionClusterLocalShard}
    {rs : List CollectionClusterRemoteShard} (h : ls.Perm ls') :
    Alike (.clusterInfo ⟨peerId, n, ls, rs⟩) (.clusterInfo ⟨peerId, n, ls', rs⟩)

/-- Responses are the same up to the order of what has none. -/
inductive Response.Alike : Response (Result V) → Response (Result V) → Prop
  | success (status : ℕ) {r r' : Result V} (h : r.Alike r') :
    Alike ⟨status, .success r⟩ ⟨status, .success r'⟩
  | error (status : ℕ) (e : String) : Alike ⟨status, .error e⟩ ⟨status, .error e⟩

theorem Response.Alike.time {r r' : Result V} (h : r.Alike r') :
    Response.Alike (Http.time X (.ok r)) (Http.time X (.ok r')) := .success 200 h

theorem Response.Alike.refl : (a : Response (Result V)) → a.Alike a
  | ⟨status, .success r⟩ => .success status (.refl r)
  | ⟨status, .error e⟩ => .error status e

end Http

namespace Database

open Http

variable {db db' : Database X} {request : Http.Request V} {r r' : CollectionResult (Http.Result V)}
  {name : CollectionName}

/-- **A database answers in one way**, up to order. -/
theorem Answers.alike (h : db.Answers request r) (h' : db.Answers request r') :
    Response.Alike (time X r) (time X r') := by
  cases request with
  | getCollections =>
    obtain ⟨names, rfl, hnodup, hmem⟩ := h
    obtain ⟨names', rfl, hnodup', hmem'⟩ := h'
    exact .time (.collections ((List.perm_ext_iff_of_nodup hnodup hnodup').mpr fun name ↦ by
      rw [hmem, hmem']))
  | getCollectionClusterInfo name =>
    rw [Answers] at h h'
    cases hname : db name with
    | none =>
      rw [hname] at h h'
      rw [h, h']
      exact .refl _
    | some t =>
      rw [hname] at h h'
      obtain ⟨ls, rfl, hperm⟩ := h
      obtain ⟨ls', rfl, hperm'⟩ := h'
      exact .time (.clusterInfo (hperm.trans hperm'.symm))
  | listPoints name =>
    rw [Answers] at h h'
    cases hname : db name with
    | none =>
      rw [hname] at h h'
      rw [h, h']
      exact .refl _
    | some t =>
      rw [hname] at h h'
      obtain ⟨ps, hlist, rfl⟩ := h
      obtain ⟨ps', hlist', rfl⟩ := h'
      rw [hlist.unique hlist']
      exact .refl _
  | getPoint name id =>
    rw [Answers] at h h'
    cases hname : db name with
    | none => rw [hname] at h h'; rw [h, h']; exact .refl _
    | some t =>
      simp only [hname] at h h'
      cases hid : t.get (.ofPath id) with
      | none => rw [hid] at h h'; rw [h, h']; exact .refl _
      | some p => rw [hid] at h h'; rw [h, h']; exact .refl _
  | _ name =>
    rw [Answers] at h h'
    cases hname : db name with
    | none => rw [hname] at h h'; rw [h, h']; exact .refl _
    | some t => rw [hname] at h h'; rw [h, h']; exact .refl _

/-- A request is answered from the table it is about. -/
theorem Answers.of_eq (hrequest : request.name = some name) (hname : db name = db' name)
    (h : db.Answers request r) : db'.Answers request r := by
  cases request with
  | getCollections => cases hrequest
  | _ =>
    obtain rfl := Option.some.inj hrequest
    rw [Answers] at h ⊢
    rwa [← hname]

/-- A request changes the table it is about, depending on nothing else. -/
theorem next_congr (hrequest : request.name = some name) (hname : db name = db' name) :
    db.next request name = db'.next request name := by
  cases request with
  | getCollections => cases hrequest
  | createCollection n params =>
    obtain rfl := Option.some.inj hrequest
    rw [next, next, ← hname]
    cases hn : db n with
    | none => simp only [Function.update_self]
    | some t => exact hname
  | deleteCollection n =>
    obtain rfl := Option.some.inj hrequest
    rw [next, next, Function.update_self, Function.update_self]
  | upsertPoints n points =>
    obtain rfl := Option.some.inj hrequest
    rw [next, next, Function.update_self, Function.update_self, hname]
  | _ => exact hname

/-- The other tables stay. -/
theorem next_of_ne (hrequest : request.name ≠ some name) : db.next request name = db name := by
  cases request with
  | createCollection n params =>
    have hne : name ≠ n := fun heq ↦ hrequest (congrArg some heq.symm)
    rw [next]
    cases db n with
    | none => exact Function.update_of_ne hne _ _
    | some t => rfl
  | deleteCollection n =>
    exact Function.update_of_ne (fun heq ↦ hrequest (congrArg some heq.symm)) _ _
  | upsertPoints n points =>
    exact Function.update_of_ne (fun heq ↦ hrequest (congrArg some heq.symm)) _ _
  | _ => rfl

/-- What is turned down has no effect. -/
theorem next_of_error {e : CollectionError} (h : db.Answers request (.error e)) :
    db.next request = db := by
  cases request with
  | createCollection name params =>
    rw [Answers] at h
    rw [next]
    cases hname : db name with
    | none => rw [hname] at h; cases h
    | some t => rfl
  | deleteCollection name =>
    rw [Answers] at h
    cases hname : db name with
    | none => rw [next, ← hname, Function.update_eq_self]
    | some t => rw [hname] at h; cases h
  | upsertPoints name points =>
    rw [Answers] at h
    cases hname : db name with
    | none => rw [next, hname, Option.map_none, ← hname, Function.update_eq_self]
    | some t => rw [hname] at h; cases h
  | _ => rfl

/-! ## Runs -/

/-- The responses to the requests that are about a table, among those to all requests. -/
def about (name : CollectionName) (requests : List (Http.Request V)) {α : Type}
    (responses : List α) : List α :=
  ((requests.zip responses).filter fun e ↦ e.1.name = some name).map Prod.snd

/-- **A run, seen from one table.**  The other requests need not have been made. -/
theorem Runs.about {requests : List (Http.Request V)}
    {responses : List (Option (Response (Http.Result V)))} (h : db.Runs X requests responses)
    (hname : db name = db' name) :
    db'.Runs X (requests.filter fun r ↦ r.name = some name) (about name requests responses) := by
  induction requests generalizing db db' responses with
  | nil =>
    rw [show responses = [] from h]
    rfl
  | cons request requests ih =>
    obtain ⟨r, rest, rfl, hanswer, hrest⟩ := h
    by_cases hrequest : request.name = some name
    · rw [List.filter_cons_of_pos (by simpa using hrequest), Database.about, List.zip_cons_cons,
        List.filter_cons_of_pos (by simpa using hrequest), List.map_cons]
      exact ⟨r, _, rfl, hanswer.of_eq hrequest hname, ih hrest (next_congr hrequest hname)⟩
    · rw [List.filter_cons_of_neg (by simpa using hrequest), Database.about, List.zip_cons_cons,
        List.filter_cons_of_neg (by simpa using hrequest)]
      exact ih hrest (by rw [next_of_ne hrequest, hname])

/-- The requests that are answered with a `200`, with the responses to them. -/
def accepted (requests : List (Http.Request V))
    (responses : List (Option (Response (Http.Result V)))) :
    List (Http.Request V × Option (Response (Http.Result V))) :=
  (requests.zip responses).filter fun e ↦ e.2.any (·.status = 200)

/-- **A run without what is turned down** comes to the same. -/
theorem Runs.accepted {requests : List (Http.Request V)}
    {responses : List (Option (Response (Http.Result V)))} (h : db.Runs X requests responses) :
    db.Runs X ((accepted requests responses).map Prod.fst)
        ((accepted requests responses).map Prod.snd) ∧
      ((accepted requests responses).map Prod.fst).foldl next db = requests.foldl next db := by
  induction requests generalizing db responses with
  | nil => exact ⟨rfl, rfl⟩
  | cons request requests ih =>
    obtain ⟨r, rest, rfl, hanswer, hrest⟩ := h
    obtain ⟨hruns, hfoldl⟩ := ih hrest
    rw [Database.accepted, List.zip_cons_cons]
    cases r with
    | ok r =>
      rw [List.filter_cons_of_pos (by simp [time]), List.map_cons, List.map_cons]
      exact ⟨⟨.ok r, _, rfl, hanswer, hruns⟩, hfoldl⟩
    | error e =>
      rw [next_of_error hanswer] at hruns hfoldl
      rw [List.filter_cons_of_neg (by simp [time]), List.foldl_cons, next_of_error hanswer]
      exact ⟨hruns, hfoldl⟩

/-- **There is one run**, up to order. -/
theorem Runs.alike {requests : List (Http.Request V)}
    {responses responses' : List (Option (Response (Http.Result V)))}
    (h : db.Runs X requests responses) (h' : db.Runs X requests responses') :
    List.Forall₂ (Option.Rel Response.Alike) responses responses' := by
  induction requests generalizing db responses responses' with
  | nil =>
    rw [show responses = [] from h, show responses' = [] from h']
    exact .nil
  | cons request requests ih =>
    obtain ⟨r, rest, rfl, hanswer, hrest⟩ := h
    obtain ⟨r', rest', rfl, hanswer', hrest'⟩ := h'
    exact .cons (.some (hanswer.alike hanswer')) (ih hrest hrest')

end Database

end Smoldb
