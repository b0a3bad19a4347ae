import Smoldb.Live.Collection

/-!
# Runs of a collection at work

Three things are carried through every run of a `LiveCollection`.

* `Tracks` follows one request: what it has called since a given time has brought it to where it is,
  and as long as it is not done nothing has stopped the node.  Once it is done, it calls nothing any
  more.
* `history_run` says who can still call something: the requests that were not done, and those that
  have come in since, which is what `Open` is about.
* `Kept` is about all of them: the trees are what the history makes of them, the stops in it have
  left what they could leave, everything that has been inserted was sent with an upsert, in the
  shard of its id and under its key, and a get has been answered from the history before it.

`Kept` is the invariant of the machine.  Its fields `calls` and `sent` hang together: a request
inserts only what its program can still insert, and the program comes from the points that were
sent, so what has been inserted is among them, for as long as the request is remembered.  The field
`trees` turns a question about what is stored into one about the history, and that is how all of
`Live/Durability.lean` goes: an upsert that was acknowledged has a stretch of the history of which
`Tracks` says what is in it, and what comes behind the stretch can only be the work of requests that
`history_run` allows for.

`step_cases`, in `Live/Collection.lean`, says once what a step can do, and each of the three is kept
by a case split along it.
-/

set_option autoImplicit false

namespace Smoldb

open Program (Ran)

variable {V : Type} {X : Crates V}

/-! ## Records -/

namespace Happened

/-- The calls of one request. -/
def callsOf (i : ℕ) (history : List (Happened V)) : PointHistory V :=
  history.filterMap fun
    | called j op reply _ => if j = i then some ⟨op, reply⟩ else none
    | stopped _ => none

/-- Has the node stopped? -/
def IsStop : Happened V → Prop
  | called .. => False
  | stopped _ => True

/-- What has happened to the tree of a shard. -/
def treeEvents (s : ShardId) (history : List (Happened V)) :
    List (WriteBehind.Event String String) := history.filterMap (treeEvent s)

/-- The tree of a shard after all this. -/
def tree (s : ShardId) (history : List (Happened V)) : WriteBehind String String :=
  WriteBehind.run (treeEvents s history) .empty

theorem callsOf_append (i : ℕ) (A B : List (Happened V)) :
    callsOf i (A ++ B) = callsOf i A ++ callsOf i B := List.filterMap_append

theorem treeEvents_append (s : ShardId) (A B : List (Happened V)) :
    treeEvents s (A ++ B) = treeEvents s A ++ treeEvents s B := List.filterMap_append

theorem callsOf_called_self (i : ℕ) (op : PointCall V) (reply : op.Reply) (applied : Bool) :
    callsOf i [called i op reply applied] = [⟨op, reply⟩] := by
  simp [callsOf]

theorem callsOf_called_of_ne {i j : ℕ} (h : j ≠ i) (op : PointCall V) (reply : op.Reply)
    (applied : Bool) : callsOf i [called j op reply applied] = [] := by
  simp [callsOf, h]

/-- A call of a request in the record. -/
theorem callsOf_eq_append_cons {i : ℕ} {history : List (Happened V)} {P Q : PointHistory V}
    {op : PointCall V} {reply : op.Reply} (h : callsOf i history = P ++ ⟨op, reply⟩ :: Q) :
    ∃ A B applied, history = A ++ called i op reply applied :: B ∧ callsOf i A = P ∧
      callsOf i B = Q := by
  obtain ⟨A, D, rfl, hA, hD⟩ := List.filterMap_eq_append_iff.mp h
  obtain ⟨D₁, e, B, rfl, hD₁, he, hB⟩ := List.filterMap_eq_cons_iff.mp hD
  rcases e with ⟨j, op', reply', applied⟩ | recovered
  · simp only [Option.ite_none_right_eq_some, Option.some.injEq] at he
    obtain ⟨rfl, heq⟩ := he
    obtain ⟨rfl, heq⟩ := Sigma.mk.inj heq
    obtain rfl := eq_of_heq heq
    refine ⟨A ++ D₁, B, applied, by simp, ?_, hB⟩
    rw [callsOf_append, callsOf, hA, callsOf, List.filterMap_eq_nil_iff.mpr hD₁, List.append_nil]
  · exact absurd he (by simp)

theorem mem_callsOf {i : ℕ} {history : List (Happened V)} {op : PointCall V} {reply : op.Reply}
    {applied : Bool} (h : called i op reply applied ∈ history) :
    (⟨op, reply⟩ : Σ op : PointCall V, op.Reply) ∈ callsOf i history :=
  List.mem_filterMap.mpr ⟨_, h, if_pos rfl⟩

theorem tree_concat (s : ShardId) (history : List (Happened V)) (e : Happened V) :
    tree s (history ++ [e])
      = (e.treeEvent s).elim (tree s history) (tree s history).apply := by
  rw [tree, treeEvents_append, WriteBehind.run_append, tree, treeEvents, treeEvents]
  cases h : e.treeEvent s <;> simp [h, WriteBehind.run]

theorem allPossible_concat {s : ShardId} {history : List (Happened V)} {e : Happened V}
    (h : WriteBehind.AllPossible (treeEvents s history) .empty)
    (he : ∀ event, e.treeEvent s = some event → (tree s history).Possible event) :
    WriteBehind.AllPossible (treeEvents s (history ++ [e])) .empty := by
  rw [treeEvents_append, WriteBehind.allPossible_append]
  refine ⟨h, ?_⟩
  rw [treeEvents, List.filterMap_cons]
  cases hevent : e.treeEvent s with
  | none => exact trivial
  | some event => exact ⟨he event hevent, trivial⟩

/-- What is written into a tree has been inserted. -/
theorem write_mem_treeEvents {s : ShardId} {key value : String} {history : List (Happened V)}
    (h : .write key value ∈ treeEvents s history) :
    ∃ j i reply applied, called j (.insert s i key value) reply applied ∈ history := by
  obtain ⟨e, he, hevent⟩ := List.mem_filterMap.mp h
  rcases e with ⟨j, op, reply, applied⟩ | recovered
  · rcases op with ⟨s', i, key', value'⟩ | s' | ⟨s', i, key'⟩ | ⟨s', shard, points⟩
    · rcases reply with e | u
      · simp only [treeEvent, Option.ite_none_right_eq_some, Option.some.injEq,
          WriteBehind.Event.write.injEq] at hevent
        obtain ⟨⟨rfl, -⟩, rfl, rfl⟩ := hevent
        exact ⟨j, i, _, _, he⟩
      · simp only [treeEvent, Option.ite_none_right_eq_some, Option.some.injEq,
          WriteBehind.Event.write.injEq] at hevent
        obtain ⟨rfl, rfl, rfl⟩ := hevent
        exact ⟨j, i, _, _, he⟩
    · rcases reply with e | u
      · simp [treeEvent] at hevent
      · simp [treeEvent] at hevent
    · simp [treeEvent] at hevent
    · simp [treeEvent] at hevent
  · simp [treeEvent] at hevent

/-- A tree crashes when the node stops. -/
theorem not_isCrash_of_treeEvent {s : ShardId} {e : Happened V} (h : ¬ e.IsStop)
    {event : WriteBehind.Event String String} (hevent : e.treeEvent s = some event) :
    ¬ event.IsCrash := by
  cases event with
  | write k v => exact fun hc ↦ hc
  | flush => exact fun hc ↦ hc
  | crash recovered =>
    rcases e with ⟨j, op, reply, applied⟩ | recovered
    · rcases op with ⟨s', i, key', value'⟩ | s' | ⟨s', i, key'⟩ | ⟨s', shard, points⟩
      · rcases reply with e | u <;> simp [treeEvent] at hevent
      · rcases reply with e | u <;> simp [treeEvent] at hevent
      · simp [treeEvent] at hevent
      · simp [treeEvent] at hevent
    · exact (h trivial).elim

theorem not_isCrash_of_mem {s : ShardId} {history : List (Happened V)}
    (h : ∀ e ∈ history, ¬ e.IsStop) : ∀ e ∈ treeEvents s history, ¬ e.IsCrash := by
  intro event hevent
  obtain ⟨e, he, heq⟩ := List.mem_filterMap.mp hevent
  exact not_isCrash_of_treeEvent (h e he) heq

end Happened

namespace LiveCollection

open Happened (callsOf treeEvents tree)

variable {l l' : LiveCollection X} {i j : ℕ} {asked : Asked V}

/-! ## Following a request -/

@[simp] theorem history_record (l : LiveCollection X) (e : Happened V) :
    (l.record e).history = l.history ++ [e] := rfl

/-- What has become of a request since a given time. -/
def Tracks (i : ℕ) (asked : Asked V) (q : PointProgram V CollectionError (Returned V))
    (l l' : LiveCollection X) : Prop :=
  ∃ rest, l'.requests[i]? = some ⟨asked, rest⟩ ∧ ∀ q', rest = some q' → ∃ stretch behind,
    l'.history = l.history ++ (stretch ++ behind) ∧ (∀ e ∈ stretch, ¬ e.IsStop) ∧
    q.Ran (callsOf i stretch) q' ∧ callsOf i behind = [] ∧
    ((∃ op next, q' = .call op next) → behind = [])

theorem Tracks.refl {q : PointProgram V CollectionError (Returned V)}
    (hi : l.requests[i]? = some ⟨asked, some q⟩) : Tracks i asked q l l := by
  refine ⟨some q, hi, fun q' hq ↦ ⟨[], [], by simp, by simp, ?_, rfl, fun _ ↦ rfl⟩⟩
  rw [← Option.some.inj hq]
  exact .refl q

theorem Tracks.step {q : PointProgram V CollectionError (Returned V)}
    (h : Tracks i asked q l l') (e : LiveEvent X) : Tracks i asked q l (l'.step e) := by
  obtain ⟨rest, hi, hrest⟩ := h
  obtain ⟨r, hstep, -⟩ | ⟨c, hstep, -⟩ | ⟨j, asked', op, next, reply, applied, hj, -, hstep⟩ |
    ⟨recovered, -, hstep⟩ := l'.step_cases e
  · refine ⟨rest, ?_, by rw [hstep]; exact hrest⟩
    rw [hstep, List.getElem?_append_left (List.getElem?_eq_some_iff.mp hi).1]
    exact hi
  · refine ⟨rest, ?_, by rw [hstep]; exact hrest⟩
    rw [hstep]
    exact hi
  · by_cases hij : j = i
    · subst hij
      obtain ⟨rfl, rfl⟩ := LiveRequest.mk.inj (Option.some.inj (hi.symm.trans hj))
      obtain ⟨stretch, behind, hhist, hstretch, hran, -, hbehind⟩ := hrest _ rfl
      obtain rfl := hbehind ⟨op, next, rfl⟩
      refine ⟨some (next reply), ?_, fun q' hq ↦ ?_⟩
      · rw [hstep]
        simp [(List.getElem?_eq_some_iff.mp hi).1]
      · refine ⟨stretch ++ [.called j op reply applied], [], ?_, ?_, ?_, rfl, fun _ ↦ rfl⟩
        · rw [hstep, history_record, hhist]
          simp
        · intro e he
          obtain he | he := List.mem_append.mp he
          · exact hstretch e he
          · rw [List.mem_singleton.mp he]
            exact fun hs ↦ hs
        · rw [Happened.callsOf_append, Happened.callsOf_called_self, ← Option.some.inj hq]
          exact hran.snoc reply
    · refine ⟨rest, ?_, fun q' hq ↦ ?_⟩
      · rw [hstep, List.getElem?_set_ne hij]
        exact hi
      · obtain ⟨stretch, behind, hhist, hstretch, hran, hnone, hbehind⟩ := hrest q' hq
        have hcalls : callsOf i [.called j op reply applied] = [] :=
          Happened.callsOf_called_of_ne hij op reply applied
        by_cases hcall : ∃ op next, q' = .call op next
        · obtain rfl := hbehind hcall
          refine ⟨stretch ++ [.called j op reply applied], [], ?_, ?_, ?_, rfl, fun _ ↦ rfl⟩
          · rw [hstep, history_record, hhist]
            simp
          · intro e he
            obtain he | he := List.mem_append.mp he
            · exact hstretch e he
            · rw [List.mem_singleton.mp he]
              exact fun hs ↦ hs
          · rwa [Happened.callsOf_append, hcalls, List.append_nil]
        · refine ⟨stretch, behind ++ [.called j op reply applied], ?_, hstretch, hran, ?_,
            fun hc ↦ absurd hc hcall⟩
          · rw [hstep, history_record, hhist]
            simp
          · rw [Happened.callsOf_append, hnone, hcalls, List.append_nil]
  · by_cases hcall : ∃ op next, rest = some (.call op next)
    · obtain ⟨op, next, rfl⟩ := hcall
      refine ⟨none, ?_, fun q' hq ↦ absurd hq (by simp)⟩
      rw [hstep, List.getElem?_map, hi]
      rfl
    · have hstop : LiveRequest.stop ⟨asked, rest⟩ = ⟨asked, rest⟩ := by
        rw [LiveRequest.stop]
        split
        · rename_i op next heq
          exact absurd ⟨op, next, heq⟩ hcall
        · rfl
      refine ⟨rest, ?_, fun q' hq ↦ ?_⟩
      · rw [hstep, List.getElem?_map, hi, Option.map_some, hstop]
      · obtain ⟨stretch, behind, hhist, hstretch, hran, hnone, -⟩ := hrest q' hq
        refine ⟨stretch, behind ++ [.stopped recovered], ?_, hstretch, hran, ?_, ?_⟩
        · rw [hstep, history_record, hhist]
          simp
        · rw [Happened.callsOf_append, hnone]
          rfl
        · rintro ⟨op, next, rfl⟩
          exact absurd ⟨op, next, hq⟩ hcall

/-- **A request can be followed** through every run. -/
theorem tracks_run {q : PointProgram V CollectionError (Returned V)}
    (hi : l.requests[i]? = some ⟨asked, some q⟩) (events : List (LiveEvent X)) :
    Tracks i asked q l (l.run events) := by
  induction events using List.reverseRecOn with
  | nil => exact .refl hi
  | append_singleton events e ih =>
    rw [run_append]
    exact ih.step e

/-! ## Who can still call something -/

/-- A request is not done: it is under way, or has yet to come in. -/
def Open (l : LiveCollection X) (i : ℕ) : Prop :=
  ∀ r, l.requests[i]? = some r → r.UnderWay

/-- A request that is done stays done. -/
theorem open_of_step {e : LiveEvent X} (h : (l.step e).Open i) : l.Open i := by
  intro r hr
  have hlt := (List.getElem?_eq_some_iff.mp hr).1
  obtain ⟨r', hstep, -⟩ | ⟨c, hstep, -⟩ | ⟨j, asked', op, next, reply, applied, hj, -, hstep⟩ |
    ⟨recovered, -, hstep⟩ := l.step_cases e
  · refine h r ?_
    rw [hstep, List.getElem?_append_left hlt]
    exact hr
  · refine h r ?_
    rw [hstep]
    exact hr
  · by_cases hij : j = i
    · subst hij
      obtain rfl := Option.some.inj (hr.symm.trans hj)
      exact ⟨op, next, rfl⟩
    · refine h r ?_
      rw [hstep, List.getElem?_set_ne hij]
      exact hr
  · obtain ⟨op, next, hrest⟩ := h r.stop (by rw [hstep, List.getElem?_map, hr]; rfl)
    rw [LiveRequest.stop] at hrest
    split at hrest
    · exact absurd hrest (by simp)
    · exact ⟨op, next, hrest⟩

theorem open_of_run {events : List (LiveEvent X)} (h : (l.run events).Open i) : l.Open i := by
  induction events generalizing l with
  | nil => exact h
  | cons e events ih => exact open_of_step (ih h)

/-- **Nothing is called by requests that are done.** -/
theorem history_run (l : LiveCollection X) (events : List (LiveEvent X)) :
    ∃ behind, (l.run events).history = l.history ++ behind ∧
      ∀ i op reply applied, .called i op reply applied ∈ behind → l.Open i := by
  induction events generalizing l with
  | nil => exact ⟨[], (List.append_nil _).symm, by simp⟩
  | cons e events ih =>
    obtain ⟨behind, hhist, hbehind⟩ := ih (l.step e)
    rw [run_cons, hhist]
    obtain ⟨r, hstep, -⟩ | ⟨c, hstep, -⟩ | ⟨j, asked', op', next, reply', applied', hj, -, hstep⟩ |
      ⟨recovered, -, hstep⟩ := l.step_cases e
    · refine ⟨behind, by rw [hstep], fun i op reply applied he ↦ ?_⟩
      exact open_of_step (hbehind i op reply applied he)
    · refine ⟨behind, by rw [hstep], fun i op reply applied he ↦ ?_⟩
      exact open_of_step (hbehind i op reply applied he)
    · refine ⟨.called j op' reply' applied' :: behind, ?_, fun i op reply applied he ↦ ?_⟩
      · rw [hstep, history_record, List.append_assoc]
        rfl
      · obtain he | he := List.mem_cons.mp he
        · obtain ⟨rfl, -⟩ := Happened.called.inj he
          intro r hr
          obtain rfl := Option.some.inj (hr.symm.trans hj)
          exact ⟨op', next, rfl⟩
        · exact open_of_step (hbehind i op reply applied he)
    · refine ⟨.stopped recovered :: behind, ?_, fun i op reply applied he ↦ ?_⟩
      · rw [hstep, history_record, List.append_assoc]
        rfl
      · obtain he | he := List.mem_cons.mp he
        · exact absurd he (by simp)
        · exact open_of_step (hbehind i op reply applied he)

/-- What a request asks for does not change. -/
theorem asked_step {r : LiveRequest V} (hr : l.requests[i]? = some r) (e : LiveEvent X) :
    ∃ r', (l.step e).requests[i]? = some r' ∧ r'.asked = r.asked := by
  have hlt := (List.getElem?_eq_some_iff.mp hr).1
  obtain ⟨r', hstep, -⟩ | ⟨c, hstep, -⟩ | ⟨j, asked', op, next, reply, applied, hj, -, hstep⟩ |
    ⟨recovered, -, hstep⟩ := l.step_cases e
  · exact ⟨r, by rw [hstep, List.getElem?_append_left hlt]; exact hr, rfl⟩
  · exact ⟨r, by rw [hstep]; exact hr, rfl⟩
  · by_cases hij : j = i
    · subst hij
      obtain rfl := Option.some.inj (hr.symm.trans hj)
      exact ⟨⟨asked', some (next reply)⟩, by rw [hstep]; simp [hlt], rfl⟩
    · exact ⟨r, by rw [hstep, List.getElem?_set_ne hij]; exact hr, rfl⟩
  · refine ⟨r.stop, by rw [hstep, List.getElem?_map, hr]; rfl, ?_⟩
    rw [LiveRequest.stop]
    split <;> rfl

/-- One state of a collection can become another. -/
def Follows (l l' : LiveCollection X) : Prop := ∃ events, AllProper events l ∧ l.run events = l'

theorem Follows.refl (l : LiveCollection X) : l.Follows l := ⟨[], trivial, rfl⟩

theorem Follows.trans {l'' : LiveCollection X} (h : l.Follows l') (h' : l'.Follows l'') :
    l.Follows l'' := by
  obtain ⟨events, hproper, rfl⟩ := h
  obtain ⟨events', hproper', rfl⟩ := h'
  exact ⟨events ++ events', allProper_append.mpr ⟨hproper, hproper'⟩, run_append events events'⟩

theorem Follows.step {e : LiveEvent X} (he : l.Proper e) : l.Follows (l.step e) :=
  ⟨[e], ⟨he, trivial⟩, rfl⟩

/-- A request that is done stays done. -/
theorem Follows.open (h : l.Follows l') (hj : l'.Open j) : l.Open j := by
  obtain ⟨events, -, rfl⟩ := h
  exact open_of_run hj

theorem Follows.exists_asked (h : l.Follows l') {r : LiveRequest V}
    (hr : l.requests[j]? = some r) : ∃ r', l'.requests[j]? = some r' ∧ r'.asked = r.asked := by
  obtain ⟨events, -, rfl⟩ := h
  induction events using List.reverseRecOn with
  | nil => exact ⟨r, hr, rfl⟩
  | append_singleton events e ih =>
    obtain ⟨r', hr', hasked⟩ := ih
    obtain ⟨r'', hr'', hasked'⟩ := asked_step hr' e
    exact ⟨r'', by rw [run_append]; exact hr'', hasked'.trans hasked⟩

/-- An upsert that has been acknowledged stays acknowledged. -/
theorem Follows.done (h : l.Follows l') {a : Returned V}
    (hr : l.requests[j]? = some ⟨asked, some (.ok a)⟩) :
    l'.requests[j]? = some ⟨asked, some (.ok a)⟩ := by
  obtain ⟨events, -, rfl⟩ := h
  induction events generalizing l with
  | nil => exact hr
  | cons e events ih =>
    refine ih ?_
    obtain ⟨r', hstep, -⟩ | ⟨c, hstep, -⟩ | ⟨i, asked', op, next, reply, applied, hi, -, hstep⟩ |
      ⟨recovered, -, hstep⟩ := l.step_cases e
    · rw [hstep, List.getElem?_append_left (List.getElem?_eq_some_iff.mp hr).1]
      exact hr
    · rw [hstep]
      exact hr
    · have hij : i ≠ j := by
        rintro rfl
        exact absurd (Option.some.inj (hi.symm.trans hr)) (by simp)
      rw [hstep, List.getElem?_set_ne hij]
      exact hr
    · rw [hstep, List.getElem?_map, hr]
      rfl

/-- A request has come in at some time. -/
theorem came_in {events : List (LiveEvent X)} {r : LiveRequest V}
    (hr : (l.run events).requests[i]? = some r) (hi : l.requests.length ≤ i) :
    ∃ before e after, events = before ++ e :: after ∧ (l.run before).requests.length = i ∧
      ((∃ order points localOnly, e = .upsert order points localOnly ∧ r.asked = .upsert points) ∨
        ∃ order ids, e = .read order ids ∧ r.asked = .read ids) := by
  induction events using List.reverseRecOn generalizing r with
  | nil => exact absurd (List.getElem?_eq_some_iff.mp hr).1 (Nat.not_lt.mpr hi)
  | append_singleton events e ih =>
    rw [run_append] at hr
    by_cases hlt : i < (l.run events).requests.length
    · obtain ⟨r', hr', hasked⟩ := asked_step (List.getElem?_eq_getElem hlt) e
      obtain rfl := Option.some.inj (hr.symm.trans hr')
      obtain ⟨before, e', after, rfl, hlength, hcase⟩ := ih (List.getElem?_eq_getElem hlt)
      refine ⟨before, e', after ++ [e], by simp, hlength, ?_⟩
      rwa [hasked]
    · have hnew : ∀ r' : LiveRequest V, ((l.run events).requests ++ [r'])[i]? = some r →
          (l.run events).requests.length = i ∧ r' = r := by
        intro r' hr'
        have hlen := (List.getElem?_eq_some_iff.mp hr').1
        rw [List.length_append, List.length_singleton] at hlen
        obtain rfl : (l.run events).requests.length = i := by omega
        rw [List.getElem?_append_right le_rfl, Nat.sub_self] at hr'
        exact ⟨rfl, Option.some.inj hr'⟩
      have hold : ∀ requests : List (LiveRequest V),
          requests.length = (l.run events).requests.length → requests[i]? = some r → False := by
        intro requests hlen hr'
        exact hlt (hlen ▸ (List.getElem?_eq_some_iff.mp hr').1)
      cases e with
      | upsert order points localOnly =>
        obtain ⟨hlen, rfl⟩ := hnew _ hr
        exact ⟨events, _, [], rfl, hlen, Or.inl ⟨order, points, localOnly, rfl, rfl⟩⟩
      | read order ids =>
        obtain ⟨hlen, rfl⟩ := hnew _ hr
        exact ⟨events, _, [], rfl, hlen, Or.inr ⟨order, ids, rfl, rfl⟩⟩
      | become collection => exact (hold _ rfl hr).elim
      | stop recovered => exact (hold _ (List.length_map _) hr).elim
      | advance j outcome =>
        rw [show (l.run events).run [.advance j outcome] = (l.run events).step (.advance j outcome)
          from rfl, step] at hr
        split at hr
        · exact (hold _ List.length_set hr).elim
        · exact (hold _ rfl hr).elim

/-! ## What is kept -/

/-- What holds of a collection at work, in every state. -/
structure Kept (f : PointId → ShardId) (l : LiveCollection X) : Prop where
  shards : l.collection.shardOf = f
  trees : ∀ s, l.trees s = tree s l.history
  possible : ∀ s, WriteBehind.AllPossible (treeEvents s l.history) .empty
  calls : ∀ r ∈ l.requests, ∀ q, r.rest = some q → q.Calls (PointCall.Inserts X f r.asked.points)
  sent : ∀ j op reply applied, .called j op reply applied ∈ l.history →
    ∃ r, l.requests[j]? = some r ∧ op.Inserts X f r.asked.points
  gets : ∀ A B j s i key o applied,
    l.history = A ++ .called j (.get s i key) (.ok o) applied :: B → o = (tree s A).content key

theorem Kept.new (c : Collection X) : Kept c.shardOf (new c) where
  shards := rfl
  trees _ := rfl
  possible _ := trivial
  calls r hr := absurd hr (by simp [LiveCollection.new])
  sent j op reply applied h := absurd h (by simp [LiveCollection.new])
  gets A B j s i key o applied h := absurd h (by simp [LiveCollection.new])

/-- A get is answered from the tree. -/
theorem content_of_answer {outcome : CallOutcome} {s : ShardId} {key : String} {o : Option String}
    {applied : Bool} (h : l.answer outcome (.get s i key) = (.ok o, applied)) :
    o = (l.trees s).content key := by
  rw [answer] at h
  cases hfailure : outcome.failure with
  | none =>
    rw [hfailure] at h
    exact (Except.ok.inj (Prod.mk.inj h).1).symm
  | some failure =>
    rw [hfailure] at h
    exact absurd (Prod.mk.inj h).1 (by simp)

/-- More has happened, and a get has been answered from the tree. -/
theorem Kept.gets_concat {f : PointId → ShardId} (h : Kept f l) {e : Happened V}
    (he : ∀ j s i key o applied, e = .called j (.get s i key) (.ok o) applied →
      o = (l.trees s).content key) :
    ∀ A B j s i key o applied,
      l.history ++ [e] = A ++ .called j (.get s i key) (.ok o) applied :: B →
        o = (tree s A).content key := by
  intro A B j s i key o applied heq
  rcases List.eq_nil_or_concat B with rfl | ⟨B, b, rfl⟩
  · obtain ⟨rfl, hget⟩ := List.append_inj' heq rfl
    rw [← h.trees]
    exact he j s i key o applied (List.cons.inj hget).1
  · rw [List.concat_eq_append, ← List.cons_append, ← List.append_assoc] at heq
    exact h.gets A B j s i key o applied (List.append_inj' heq rfl).1

theorem Kept.step {f : PointId → ShardId} (h : Kept f l) {e : LiveEvent X} (he : l.Proper e) :
    Kept f (l.step e) := by
  have hsent : ∀ (r : LiveRequest V) (j : ℕ), l.requests[j]? = some r → ∀ op : PointCall V,
      op.Inserts X f r.asked.points →
        ∃ r' : LiveRequest V, (l.step e).requests[j]? = some r' ∧
          op.Inserts X f r'.asked.points := by
    intro r j hr op hop
    obtain ⟨r', hr', hasked⟩ := asked_step hr e
    exact ⟨r', hr', by rwa [hasked]⟩
  obtain ⟨r, hstep, hr⟩ | ⟨c, hstep, hc⟩ | ⟨j, asked, op, next, reply, applied, hj, hout, hstep⟩ |
    ⟨recovered, rfl, hstep⟩ := l.step_cases e
  · have hcalls : ∀ q, r.rest = some q → q.Calls (PointCall.Inserts X f r.asked.points) := by
      rw [← h.shards]
      rcases hr with ⟨order, points, localOnly, rfl⟩ | ⟨order, ids, rfl⟩
      · intro q hq
        rw [← Option.some.inj hq]
        exact (Collection.calls_upsertSteps order points localOnly).handle (fun _ ↦ trivial)
          fun _ ↦ trivial
      · intro q hq
        rw [← Option.some.inj hq]
        exact ((Collection.calls_getSteps order ids).mono fun _ hop ↦ hop.inserts _).handle
          (fun _ ↦ trivial) fun _ ↦ trivial
    rw [hstep] at hsent ⊢
    refine ⟨h.shards, h.trees, h.possible, fun r' hr' ↦ ?_, fun j op reply applied hmem ↦ ?_,
      h.gets⟩
    · obtain hr' | hr' := List.mem_append.mp hr'
      · exact h.calls r' hr'
      · rw [List.mem_singleton.mp hr']
        exact hcalls
    · obtain ⟨r', hr', hop⟩ := h.sent j op reply applied hmem
      exact hsent r' j hr' op hop
  · rw [hstep]
    refine ⟨?_, h.trees, h.possible, h.calls, h.sent, h.gets⟩
    rcases hc with rfl | rfl
    · exact h.shards
    · rw [← h.shards]
      exact ReplicaHolder.shardOf_congr he
  · have hmem : (⟨asked, some (.call op next)⟩ : LiveRequest V) ∈ l.requests :=
      List.mem_of_getElem? hj
    have hop := h.calls _ hmem _ rfl
    rw [hstep] at hsent ⊢
    refine ⟨h.shards, fun s ↦ ?_, fun s ↦ ?_, fun r' hr' ↦ ?_,
      fun j' op' reply' applied' hmem' ↦ ?_,
      h.gets_concat fun j' s i key o applied' heq ↦ ?_⟩
    · rw [history_record, Happened.tree_concat, ← h.trees]
      rfl
    · refine Happened.allPossible_concat (h.possible s) fun event hevent ↦ ?_
      exact WriteBehind.possible_of_not_isCrash
        (Happened.not_isCrash_of_treeEvent
          (show ¬ Happened.IsStop (.called j op reply applied) from fun hs ↦ hs) hevent)
    · obtain hr' | rfl := List.mem_or_eq_of_mem_set hr'
      · exact h.calls r' hr'
      · intro q hq
        rw [← Option.some.inj hq]
        exact hop.2 reply
    · obtain hmem' | hmem' := List.mem_append.mp hmem'
      · obtain ⟨r', hr', hop'⟩ := h.sent j' op' reply' applied' hmem'
        exact hsent r' j' hr' op' hop'
      · obtain ⟨rfl, rfl, -⟩ := Happened.called.inj (List.mem_singleton.mp hmem')
        exact hsent _ _ hj _ hop.1
    · cases heq
      obtain ⟨outcome, hout⟩ := hout
      exact content_of_answer hout.symm
  · rw [hstep] at hsent ⊢
    refine ⟨h.shards, fun s ↦ ?_, fun s ↦ ?_, fun r' hr' ↦ ?_,
      fun j' op' reply' applied' hmem' ↦ ?_,
      h.gets_concat fun j' s i key o applied' heq ↦ ?_⟩
    · rw [history_record, Happened.tree_concat, ← h.trees]
      rfl
    · refine Happened.allPossible_concat (h.possible s) fun event hevent ↦ ?_
      rw [← Option.some.inj hevent, ← h.trees]
      exact he s
    · obtain ⟨r, hr, rfl⟩ := List.mem_map.mp hr'
      rw [LiveRequest.stop]
      split
      · exact fun q hq ↦ absurd hq (by simp)
      · exact h.calls r hr
    · obtain hmem' | hmem' := List.mem_append.mp hmem'
      · obtain ⟨r', hr', hop'⟩ := h.sent j' op' reply' applied' hmem'
        exact hsent r' j' hr' op' hop'
      · exact absurd (List.mem_singleton.mp hmem') (by simp)
    · exact absurd heq (by simp)

theorem Kept.run {f : PointId → ShardId} (h : Kept f l) {events : List (LiveEvent X)}
    (he : AllProper events l) : Kept f (l.run events) := by
  induction events generalizing l with
  | nil => exact h
  | cons e events ih => exact ih (h.step he.1) he.2

end LiveCollection

end Smoldb
