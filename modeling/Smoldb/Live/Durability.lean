import Smoldb.Live.Runs
import Smoldb.Json

/-!
# What is acknowledged is kept

An upsert is acknowledged when it has flushed the trees of its shards.  From then on each of its
points is there, until a point with the same text for an id is written over it by another request,
one that was not done when the upsert came in.  The node may stop and be started again as often as
it likes, and any call may fail.

* `acknowledged_survives` says so of what is stored, and `acknowledged_read` of what is read.
* `only_what_was_sent`: nothing else is ever stored than what has been sent, and nothing else is
  ever read than what is read from the text of it.
* `reads_do_not_go_back`: of two reads, one after the other, the second does not return what was
  there before the first.  It holds as long as the node does not stop in between, since a read also
  returns what is not flushed yet.

## How it goes

`Supersedes` is the relation that all of it is stated with.  It cannot be that a point stays until
another upsert *comes in*: one that came in before may still be at work and write over it, as
upserts do not wait for each other.  So the requests that can supersede are those that were not done
at the start.

For the first of these, the history is split at the flush of the shard (`history_of_acknowledged`).
Before it, and after the insert of the point, the tree has the point or what another request has
inserted since, and nothing stops the node.  At the flush this becomes what a stop leaves
(`WriteBehind`).  From there on the tree can only go from one write under the key to a later one,
and `history_run` says whose it is.  For the reads, `answers_of_read` has what the gets of the read
were answered, and `Kept.gets` that this is what was in the tree at that time.

A read returns what is read from the stored text, which need not be what was sent, so the theorems
about reads have `X.ReadsAs`.
-/

set_option autoImplicit false

namespace Smoldb

open LastWrite
open Program (Ran)

variable {V : Type} {X : Crates V}

namespace LiveCollection

open Happened (callsOf treeEvents tree)

/-- The point `q` is found where `p` was stored by the request `i`, which came in at `l₀`: it is
`p`, or it was sent by another request that was not done then. -/
def Supersedes (f : PointId → ShardId) (l₀ l : LiveCollection X) (i : ℕ) (p q : Point V) : Prop :=
  Segment.keyOf q = Segment.keyOf p ∧ f q.id = f p.id ∧
    (q = p ∨ ∃ j r, j ≠ i ∧ l₀.Open j ∧ l.requests[j]? = some r ∧ q ∈ r.asked.points)

section Acknowledged

variable {l₀ : LiveCollection X} {f : PointId → ShardId}
  {order : IterOrder (ShardId × List PointId)} {points : List (Point V)} {localOnly : Bool}
  {between after : List (LiveEvent X)} {p : Point V}

/-- An upsert that is acknowledged has made its calls since it came in, and the node has not stopped
between them. -/
theorem ran_of_acknowledged
    (hack : ((l₀.step (.upsert order points localOnly)).run between).requests[
      l₀.requests.length]? = some ⟨.upsert points, some (.ok .upserted)⟩) :
    ∃ stretch behind, ((l₀.step (.upsert order points localOnly)).run between).history
        = l₀.history ++ (stretch ++ behind) ∧ (∀ e ∈ stretch, ¬ e.IsStop) ∧
      (l₀.collection.upsertSteps order points localOnly).Ran
        (callsOf l₀.requests.length stretch) (.ok ()) ∧
      callsOf l₀.requests.length behind = [] := by
  have hfirst : (l₀.step (.upsert order points localOnly)).requests[l₀.requests.length]?
      = some (.upsert l₀.collection order points localOnly) := by
    simp [step]
  obtain ⟨rest, hrest, hstretch⟩ := tracks_run hfirst between
  obtain rfl := (LiveRequest.mk.inj (Option.some.inj (hrest.symm.trans hack))).2
  obtain ⟨stretch, behind, hhist, hstop, hran, hbehind, -⟩ := hstretch _ rfl
  refine ⟨stretch, behind, hhist, hstop, ?_, hbehind⟩
  obtain ⟨h₁, h₂, heq, ⟨u, hu, hret⟩ | ⟨e, -, he⟩⟩ := hran.handle_ok
  · rw [heq, hret.of_ok.1, List.append_nil]
    exact hu
  · exact absurd he.of_error.2 (by simp)

/-- An upsert that is acknowledged leaves a write and a flush in the history, and no stop between
them, and later it has not written under the key again. -/
theorem history_of_acknowledged (hf : l₀.collection.shardOf = f)
    (hack : ((l₀.step (.upsert order points localOnly)).run between).requests[
      l₀.requests.length]? = some ⟨.upsert points, some (.ok .upserted)⟩)
    (hp : last (fun q ↦ (f q.id, Segment.keyOf q)) points (f p.id, Segment.keyOf p) = some p) :
    ∃ A B C j a b, ((l₀.step (.upsert order points localOnly)).run between).history
        = l₀.history ++ (A ++ .called l₀.requests.length
            (.insert (f p.id) j (Segment.keyOf p) (X.encode p)) (.ok ()) a ::
          (B ++ .called l₀.requests.length (.flush (f p.id)) (.ok ()) b :: C)) ∧
      (∀ e ∈ B, ¬ e.IsStop) ∧
      ∀ j' value reply applied, .called l₀.requests.length
        (.insert (f p.id) j' (Segment.keyOf p) value) reply applied ∉ B ++ C := by
  obtain ⟨stretch, behind, hhist, hstop, hupsert, hbehind⟩ := ran_of_acknowledged hack
  obtain ⟨h₁, h₂, hcalls, hrest₂⟩ := Collection.ran_upsertSteps hupsert (mem_of_last hp)
  rw [hf] at hcalls hrest₂
  rw [← last_shardPoints] at hp
  obtain ⟨A, B, j, hsplit, hB⟩ := Segment.insertHistory_split hp
  have hsplits : callsOf l₀.requests.length stretch
      = (h₁ ++ A) ++ ⟨.insert (f p.id) j (Segment.keyOf p) (X.encode p), .ok ()⟩ ::
        (B ++ ⟨.flush (f p.id), .ok ()⟩ :: h₂) := by
    rw [hcalls, hsplit]
    simp
  obtain ⟨A', D, a, rfl, -, hD⟩ := Happened.callsOf_eq_append_cons hsplits
  obtain ⟨B', C', b, rfl, hB', hC'⟩ := Happened.callsOf_eq_append_cons hD
  refine ⟨A', B', C' ++ behind, j, a, b, ?_, fun e he ↦ hstop e (by simp [he]), ?_⟩
  · rw [hhist]
    simp
  · intro j' value reply applied hmem
    have hmem' := Happened.mem_callsOf hmem
    rw [Happened.callsOf_append, Happened.callsOf_append, hB', hC', hbehind,
      List.append_nil] at hmem'
    obtain hmem' | hmem' := List.mem_append.mp hmem'
    · obtain ⟨j'', q, hq, heq⟩ := hB _ hmem'
      have hop := (Sigma.mk.inj heq).1
      exact hq (PointCall.insert.inj hop).2.2.1.symm
    · exact hrest₂ _ hmem' rfl

/-- What is stored at any time after an upsert has been acknowledged. -/
theorem content_of_acknowledged (hkept : Kept f l₀)
    (hproper : AllProper (.upsert order points localOnly :: (between ++ after)) l₀)
    (hack : ((l₀.step (.upsert order points localOnly)).run between).requests[
      l₀.requests.length]? = some ⟨.upsert points, some (.ok .upserted)⟩)
    (hp : last (fun q ↦ (f q.id, Segment.keyOf q)) points (f p.id, Segment.keyOf p) = some p)
    {history : List (Happened V)}
    (hfrom : ((l₀.step (.upsert order points localOnly)).run between).history <+: history)
    (hto : history <+:
      ((l₀.step (.upsert order points localOnly)).run (between ++ after)).history) :
    ∃ q, (tree (f p.id) history).content (Segment.keyOf p) = some (X.encode q) ∧
      Supersedes f l₀ ((l₀.step (.upsert order points localOnly)).run (between ++ after))
        l₀.requests.length p q := by
  have hkept₃ := (hkept.step hproper.1).run hproper.2
  obtain ⟨A, B, C, j, a, b, hhist, hstop, hnone⟩ := history_of_acknowledged hkept.shards hack hp
  obtain ⟨C', rfl⟩ := hfrom
  obtain ⟨D, hD⟩ := hto
  -- what has happened since the upsert came in, and since it has been acknowledged
  obtain ⟨since, hsince, hopen₀⟩ := history_run (l₀.step (.upsert order points localOnly))
    (between ++ after)
  obtain ⟨behind, hbehind, hopen₂⟩ := history_run
    ((l₀.step (.upsert order points localOnly)).run between) after
  obtain rfl : C' ++ D = behind := by
    rw [← run_append, ← hD, List.append_assoc] at hbehind
    exact List.append_cancel_left hbehind
  obtain rfl : A ++ .called l₀.requests.length (.insert (f p.id) j (Segment.keyOf p) (X.encode p))
      (.ok ()) a :: (B ++ .called l₀.requests.length (.flush (f p.id)) (.ok ()) b :: C)
        ++ (C' ++ D) = since := by
    rw [← hD, hhist, List.append_assoc, List.append_assoc] at hsince
    exact List.append_cancel_left hsince
  have hevents : treeEvents (f p.id)
      (((l₀.step (.upsert order points localOnly)).run between).history ++ C')
      = (treeEvents (f p.id) (l₀.history ++ A)) ++ .write (Segment.keyOf p) (X.encode p) ::
        (treeEvents (f p.id) B ++ .flush :: treeEvents (f p.id) (C ++ C')) := by
    rw [hhist]
    simp [treeEvents, Happened.treeEvent]
  have hpossible := hkept₃.possible (f p.id)
  rw [← hD, Happened.treeEvents_append, WriteBehind.allPossible_append, hevents] at hpossible
  obtain ⟨value, hvalue, hcase⟩ := WriteBehind.content_of_flushed
    (Happened.not_isCrash_of_mem hstop) hpossible.1
  rw [← hevents] at hvalue
  rcases hcase with rfl | hwrite
  · exact ⟨p, hvalue, rfl, rfl, Or.inl rfl⟩
  · rw [← Happened.treeEvents_append, ← List.append_assoc] at hwrite
    obtain ⟨j', i', reply, applied, hmem⟩ := Happened.write_mem_treeEvents hwrite
    obtain ⟨r, hr, q, hq, hs, hk, rfl⟩ := hkept₃.sent j' _ reply applied (by
      rw [← hD, hhist]
      simp only [List.mem_append, List.mem_cons] at hmem ⊢
      tauto)
    refine ⟨q, hvalue, hk, hs, Or.inr ⟨j', r, ?_, ?_, hr, hq⟩⟩
    · rintro rfl
      obtain hmem | hmem := List.mem_append.mp hmem
      · exact hnone _ _ _ _ hmem
      · obtain ⟨op, next, hrest⟩ := hopen₂ _ _ _ _ (List.mem_append_left D hmem) _ hack
        exact absurd hrest (by simp)
    · refine open_of_step (hopen₀ j' _ reply applied ?_)
      simp only [List.mem_append, List.mem_cons] at hmem ⊢
      tauto

end Acknowledged

/-! ## In every run -/

/-- A state that a collection which has just been made can get into. -/
def Reached (c : Collection X) (l : LiveCollection X) : Prop :=
  ∃ events, AllProper events (new c) ∧ (new c).run events = l

theorem Reached.kept {c : Collection X} {l : LiveCollection X} (h : Reached c l) :
    Kept c.shardOf l := by
  obtain ⟨events, hproper, rfl⟩ := h
  exact (Kept.new c).run hproper

theorem Follows.reached {c : Collection X} {l l' : LiveCollection X} (h : l.Follows l')
    (hl : Reached c l) : Reached c l' := Follows.trans hl h

/-- An upsert that came in at `l₀` has been acknowledged. -/
def Acknowledges (l₀ : LiveCollection X) (order : IterOrder (ShardId × List PointId))
    (points : List (Point V)) (localOnly : Bool) (l : LiveCollection X) : Prop :=
  (l₀.step (.upsert order points localOnly)).Follows l ∧
    l.requests[l₀.requests.length]? = some ⟨.upsert points, some (.ok .upserted)⟩

section Acknowledges

variable {c : Collection X} {l₀ l l' : LiveCollection X}
  {order : IterOrder (ShardId × List PointId)} {points : List (Point V)} {localOnly : Bool}
  {p : Point V}

/-- What is stored after an upsert has been acknowledged. -/
theorem Acknowledges.stored (h : l₀.Acknowledges order points localOnly l) (hl : Reached c l₀)
    (hfollows : l.Follows l')
    (hp : last (fun q ↦ (c.shardOf q.id, Segment.keyOf q)) points
      (c.shardOf p.id, Segment.keyOf p) = some p) :
    ∃ q, (l'.trees (c.shardOf p.id)).content (Segment.keyOf p) = some (X.encode q) ∧
      Supersedes c.shardOf l₀ l' l₀.requests.length p q := by
  obtain ⟨⟨between, hbetween, rfl⟩, hack⟩ := h
  obtain ⟨after, hafter, rfl⟩ := hfollows
  have hproper : AllProper (.upsert order points localOnly :: (between ++ after)) l₀ :=
    ⟨trivial, allProper_append.mpr ⟨hbetween, hafter⟩⟩
  have hkept := (hl.kept.step hproper.1).run hproper.2
  obtain ⟨behind, hbehind, -⟩ :=
    history_run ((l₀.step (.upsert order points localOnly)).run between) after
  rw [← run_append, hkept.trees]
  refine content_of_acknowledged hl.kept hproper hack hp ?_ List.prefix_rfl
  rw [run_append, hbehind]
  exact List.prefix_append _ _

end Acknowledges

/-- **What has been acknowledged survives.**  Once an upsert has been acknowledged, in the middle of
any others, each of its points is stored, or one that another request has written over it which was
not done when the upsert came in.  Calls may fail, the node may stop at any time and lose what is
not flushed, and be started again. -/
theorem acknowledged_survives {c : Collection X} {l : LiveCollection X} (hl : Reached c l)
    {order : IterOrder (ShardId × List PointId)} {points : List (Point V)} {localOnly : Bool}
    {between after : List (LiveEvent X)}
    (hproper : AllProper (.upsert order points localOnly :: (between ++ after)) l)
    (hack : ((l.step (.upsert order points localOnly)).run between).requests[l.requests.length]?
      = some ⟨.upsert points, some (.ok .upserted)⟩) {p : Point V}
    (hp : last (fun q ↦ (c.shardOf q.id, Segment.keyOf q)) points
      (c.shardOf p.id, Segment.keyOf p) = some p) :
    ∃ q, (((l.step (.upsert order points localOnly)).run (between ++ after)).trees
        (c.shardOf p.id)).content (Segment.keyOf p) = some (X.encode q) ∧
      Supersedes c.shardOf l ((l.step (.upsert order points localOnly)).run (between ++ after))
        l.requests.length p q := by
  obtain ⟨hbetween, hafter⟩ := allProper_append.mp hproper.2
  rw [run_append]
  exact Acknowledges.stored ⟨⟨between, hbetween, rfl⟩, hack⟩ hl ⟨after, hafter, rfl⟩ hp

/-- A collection that has just been made. -/
def made : LiveCollection Crates.bool := new (.init "c" ⟨""⟩ [] .insertion)

/-- A call that is answered. -/
def answered : CallOutcome := ⟨none, .ok ()⟩

/-- An upsert of one point makes its calls. -/
def acknowledging : List (LiveEvent Crates.bool) := [.advance 0 answered, .advance 0 answered]

/-- Another upsert is on its way. -/
def busy : LiveCollection Crates.bool :=
  (made.step (.upsert .insertion [⟨.id 1, true⟩] true)).run
    (acknowledging ++ [.upsert .insertion [⟨.id 1, false⟩] true, .advance 1 answered])

/-- The node stops in the middle of it, and what has been flushed is left. -/
def stopping : List (LiveEvent Crates.bool) :=
  [.upsert .insertion [⟨.id 1, false⟩] true, .advance 1 answered,
    .stop fun s ↦ (busy.trees s).durable]

/-- The point is left, or the one that was on its way. -/
theorem acknowledged_survives_stopping :
    ∃ q, (((made.step (.upsert .insertion [⟨.id 1, true⟩] true)).run
      (acknowledging ++ stopping)).trees (made.collection.shardOf (.id 1))).content "1"
        = some (Crates.bool.encode q) ∧
      Supersedes made.collection.shardOf made
        ((made.step (.upsert .insertion [⟨.id 1, true⟩] true)).run (acknowledging ++ stopping)) 0
        ⟨.id 1, true⟩ q := by
  have hproper : AllProper (.upsert .insertion [⟨.id 1, true⟩] true :: (acknowledging ++ stopping))
      made := ⟨trivial, trivial, trivial, trivial, trivial, fun s key ↦ Or.inl rfl, trivial⟩
  exact acknowledged_survives ⟨[], trivial, rfl⟩ hproper rfl
    (show last _ [(⟨.id 1, true⟩ : Point Bool)] _ = some ⟨.id 1, true⟩ by
      rw [last_singleton, if_pos rfl])

/-- A read that has been answered has looked its ids up since it came in. -/
theorem answers_of_read {f : PointId → ShardId} {l : LiveCollection X}
    (hf : l.collection.shardOf = f) {order : IterOrder (ShardId × List PointId)}
    {ids : List PointId} {during : List (LiveEvent X)} {ps : List (Point V)}
    (hread : ((l.step (.read order ids)).run during).requests[l.requests.length]?
      = some ⟨.read ids, some (.ok (.points ps))⟩) :
    ∃ stretch behind, ((l.step (.read order ids)).run during).history
        = l.history ++ (stretch ++ behind) ∧
      PointHistory.Answers X f ids ps (callsOf l.requests.length stretch) := by
  have hfirst : (l.step (.read order ids)).requests[l.requests.length]?
      = some (.read l.collection order ids) := by
    simp [step]
  obtain ⟨rest, hrest, hstretch⟩ := tracks_run hfirst during
  obtain rfl := (LiveRequest.mk.inj (Option.some.inj (hrest.symm.trans hread))).2
  obtain ⟨stretch, behind, hhist, -, hran, -, -⟩ := hstretch _ rfl
  refine ⟨stretch, behind, hhist, ?_⟩
  obtain ⟨h₁, h₂, heq, ⟨qs, hqs, hret⟩ | ⟨e, -, he⟩⟩ := hran.handle_ok
  · obtain ⟨rfl, hps⟩ := hret.of_ok
    obtain rfl := Returned.points.inj (Program.ok.inj hps)
    rw [heq, List.append_nil, ← hf]
    exact Collection.ran_getSteps hqs
  · exact absurd he.of_error.2 (by simp)

/-- A point has been sent with some request. -/
def Sent (l : LiveCollection X) (p : Point V) : Prop := ∃ r ∈ l.requests, p ∈ r.asked.points

/-- Whatever has been under a key was sent, and belongs there. -/
theorem Kept.within {f : PointId → ShardId} {l : LiveCollection X} (h : Kept f l)
    {A B : List (Happened V)} (hhist : l.history = A ++ B) (s : ShardId) (key : String) :
    (tree s A).Within key fun o ↦ ∀ v, o = some v →
      ∃ p, v = X.encode p ∧ Segment.keyOf p = key ∧ f p.id = s ∧ l.Sent p := by
  have hpossible := h.possible s
  rw [hhist, Happened.treeEvents_append, WriteBehind.allPossible_append] at hpossible
  have hempty : (WriteBehind.empty : WriteBehind String String).Within key fun o ↦ ∀ v, o = some v →
      ∃ p, v = X.encode p ∧ Segment.keyOf p = key ∧ f p.id = s ∧ l.Sent p :=
    ⟨fun v hv ↦ absurd hv (by simp [WriteBehind.empty]),
      fun v hv ↦ absurd hv (by simp [WriteBehind.empty])⟩
  refine hempty.run hpossible.1 fun v hv v' hv' ↦ ?_
  · obtain ⟨j, i, reply, applied, hmem⟩ := Happened.write_mem_treeEvents hv
    obtain ⟨r, hr, p, hp, hs, hk, heq⟩ := h.sent j _ reply applied
      (by rw [hhist]; exact List.mem_append_left B hmem)
    refine ⟨p, ?_, hk, hs, r, List.mem_of_getElem? hr, hp⟩
    rw [heq, Option.some.inj hv']

section Read

variable {f : PointId → ShardId} {l : LiveCollection X} {order : IterOrder (ShardId × List PointId)}
  {ids : List PointId} {during : List (LiveEvent X)} {ps : List (Point V)}

/-- What was stored for an id at some time since a read came in is what the read returns. -/
theorem read_complete (hf : l.collection.shardOf = f)
    (hkept : Kept f ((l.step (.read order ids)).run during))
    (hread : ((l.step (.read order ids)).run during).requests[l.requests.length]?
      = some ⟨.read ids, some (.ok (.points ps))⟩) {id : PointId} (hid : id ∈ ids) :
    ∃ A B, ((l.step (.read order ids)).run during).history = l.history ++ A ++ B ∧
      ∀ p, (tree (f id) (l.history ++ A)).content id.intoString = some (X.encode p) →
        ∃ q ∈ ps, X.ReadsAs p q := by
  obtain ⟨stretch, rest, hhist, hanswers⟩ := answers_of_read hf hread
  obtain ⟨i, o, hget, ho⟩ := hanswers.complete id hid
  obtain ⟨P, Q, hsplit⟩ := List.append_of_mem hget
  obtain ⟨A, B, a, rfl, -, -⟩ := Happened.callsOf_eq_append_cons hsplit
  have hsplit' : ((l.step (.read order ids)).run during).history = l.history ++ A ++
      .called l.requests.length (.get (f id) i id.intoString) (.ok o) a :: (B ++ rest) := by
    rw [hhist]
    simp only [List.append_assoc, List.cons_append]
  refine ⟨A, _, hsplit', fun p hp ↦ ?_⟩
  exact ho _ ((hkept.gets _ _ _ _ _ _ _ _ hsplit').trans hp)

/-- What a read returns is read from what was stored for one of its ids at some time since it came
in. -/
theorem read_sound (hf : l.collection.shardOf = f)
    (hkept : Kept f ((l.step (.read order ids)).run during))
    (hread : ((l.step (.read order ids)).run during).requests[l.requests.length]?
      = some ⟨.read ids, some (.ok (.points ps))⟩) {q : Point V} (hq : q ∈ ps) :
    ∃ A B p, ∃ id ∈ ids, ((l.step (.read order ids)).run during).history = l.history ++ A ++ B ∧
      X.ReadsAs p q ∧
      (tree (f p.id) (l.history ++ A)).content (Segment.keyOf p) = some (X.encode p) ∧
      Segment.keyOf p = id.intoString ∧ f p.id = f id ∧
      ((l.step (.read order ids)).run during).Sent p := by
  obtain ⟨stretch, behind, hhist, hanswers⟩ := answers_of_read hf hread
  obtain ⟨id, hid, i, v, hget, hdec⟩ := hanswers.sound q hq
  obtain ⟨P, Q, hsplit⟩ := List.append_of_mem hget
  obtain ⟨A, B, a, rfl, -, -⟩ := Happened.callsOf_eq_append_cons hsplit
  have hsplit' : ((l.step (.read order ids)).run during).history = l.history ++ A ++
      .called l.requests.length (.get (f id) i id.intoString) (.ok (some v)) a ::
          (B ++ behind) := by
    rw [hhist]
    simp only [List.append_assoc, List.cons_append]
  have hgot := hkept.gets _ _ _ _ _ _ _ _ hsplit'
  obtain ⟨p, rfl, hk, hs, hsent⟩ := (hkept.within hsplit' _ _).content v hgot.symm
  refine ⟨A, _, p, id, hid, hsplit', hdec, ?_, hk, hs, hsent⟩
  rw [hk, hs]
  exact hgot.symm

end Read

/-- What is read after an upsert has been acknowledged. -/
theorem Acknowledges.read {c : Collection X} {l₀ l l' l'' : LiveCollection X}
    {order order' : IterOrder (ShardId × List PointId)} {points : List (Point V)}
    {localOnly : Bool} {ids : List PointId} (h : l₀.Acknowledges order points localOnly l)
    (hl : Reached c l₀) (hfollows : l.Follows l')
    (hfollows' : (l'.step (.read order' ids)).Follows l'')
    {ps : List (Point V)}
    (hread : l''.requests[l'.requests.length]? = some ⟨.read ids, some (.ok (.points ps))⟩)
    {p : Point V} (hp : last (fun q ↦ (c.shardOf q.id, Segment.keyOf q)) points
      (c.shardOf p.id, Segment.keyOf p) = some p) (hid : p.id ∈ ids) :
    ∃ q ∈ ps, ∃ p', X.ReadsAs p' q ∧ Supersedes c.shardOf l₀ l'' l₀.requests.length p p' := by
  obtain ⟨⟨between, hbetween, rfl⟩, hack⟩ := h
  obtain ⟨after, hafter, rfl⟩ := hfollows
  obtain ⟨during, hduring, rfl⟩ := hfollows'
  have hstart :=
    ((hl.kept.step (e := .upsert order points localOnly) trivial).run hbetween).run hafter
  have hkept : Kept c.shardOf _ := (hstart.step (e := .read order' ids) trivial).run hduring
  have hend : ((((l₀.step (.upsert order points localOnly)).run between).run after).step
      (.read order' ids)).run during
      = (l₀.step (.upsert order points localOnly)).run
        (between ++ (after ++ .read order' ids :: during)) := by
    rw [run_append, run_append, run_cons]
  have hproper : AllProper (.upsert order points localOnly ::
      (between ++ (after ++ .read order' ids :: during))) l₀ :=
    ⟨trivial, allProper_append.mpr ⟨hbetween, allProper_append.mpr ⟨hafter, trivial, hduring⟩⟩⟩
  obtain ⟨behind, hbehind, -⟩ :=
    history_run ((l₀.step (.upsert order points localOnly)).run between) after
  obtain ⟨A, B, hhist, hreturns⟩ := read_complete hstart.shards hkept hread hid
  rw [hend] at hhist ⊢
  obtain ⟨p', hp', hsupersedes⟩ := content_of_acknowledged hl.kept hproper hack hp (by
    rw [hbehind, List.append_assoc]
    exact List.prefix_append _ _) ⟨B, hhist.symm⟩
  obtain ⟨q, hq, hreads⟩ := hreturns p' hp'
  exact ⟨q, hq, p', hreads, hsupersedes⟩

/-- An upsert that is acknowledged has called a remote shard, which has returned a success. -/
theorem Acknowledges.called {l₀ l : LiveCollection X}
    {order : IterOrder (ShardId × List PointId)} {points : List (Point V)} {p : Point V}
    (h : l₀.Acknowledges order points false l) (hp : p ∈ points) {rs : ReplicaSet}
    (hrs : l₀.collection.replicaHolder.shards.lookup (l₀.collection.shardOf p.id) = some rs)
    (hne : rs.remotes ≠ []) : ∃ shard ∈ rs.remotes, ∃ applied,
      .called l₀.requests.length (.upsertRemote (l₀.collection.shardOf p.id) shard
        (shardPoints l₀.collection.shardOf points (l₀.collection.shardOf p.id))) (.ok ()) applied
          ∈ l.history := by
  obtain ⟨⟨between, -, rfl⟩, hack⟩ := h
  obtain ⟨stretch, behind, hhist, -, hran, -⟩ := ran_of_acknowledged hack
  obtain ⟨shard, hshard, hmem⟩ := Collection.ran_upsertSteps_remote hran hp hrs hne
  obtain ⟨P, Q, hsplit⟩ := List.append_of_mem hmem
  obtain ⟨A, B, applied, rfl, -, -⟩ := Happened.callsOf_eq_append_cons hsplit
  exact ⟨shard, hshard, applied, by rw [hhist]; simp⟩

/-- **What has been acknowledged is read** by every read that comes in afterwards and is answered:
it returns the point, or one that another request has written over it which was not done when the
upsert came in, as it is read from its text. -/
theorem acknowledged_read {c : Collection X} {l : LiveCollection X} (hl : Reached c l)
    {order order' : IterOrder (ShardId × List PointId)} {points : List (Point V)}
    {localOnly : Bool} {ids : List PointId} {between after during : List (LiveEvent X)}
    (hproper : AllProper
      (.upsert order points localOnly :: (between ++ (after ++ .read order' ids :: during))) l)
    (hack : ((l.step (.upsert order points localOnly)).run between).requests[l.requests.length]?
      = some ⟨.upsert points, some (.ok .upserted)⟩) {ps : List (Point V)}
    (hread : ((l.step (.upsert order points localOnly)).run
        (between ++ (after ++ .read order' ids :: during))).requests[
          ((l.step (.upsert order points localOnly)).run (between ++ after)).requests.length]?
      = some ⟨.read ids, some (.ok (.points ps))⟩) {p : Point V}
    (hp : last (fun q ↦ (c.shardOf q.id, Segment.keyOf q)) points
      (c.shardOf p.id, Segment.keyOf p) = some p) (hid : p.id ∈ ids) :
    ∃ q ∈ ps, ∃ p', X.ReadsAs p' q ∧
      Supersedes c.shardOf l ((l.step (.upsert order points localOnly)).run
        (between ++ (after ++ .read order' ids :: during))) l.requests.length p p' := by
  obtain ⟨hbetween, hrest⟩ := allProper_append.mp hproper.2
  obtain ⟨hafter, -, hduring⟩ := allProper_append.mp hrest
  rw [run_append, run_append, run_cons] at hread ⊢
  rw [run_append] at hread
  exact Acknowledges.read ⟨⟨between, hbetween, rfl⟩, hack⟩ hl ⟨after, hafter, rfl⟩
    ⟨during, hduring, rfl⟩ hread hp hid

/-- A read after the node has stopped, with what was flushed left, returns the point. -/
theorem acknowledged_read_stopped : ∃ q ∈ [(⟨.id 1, true⟩ : Point Bool)],
    ∃ p, Crates.bool.ReadsAs p q ∧ Supersedes made.collection.shardOf made
      ((made.step (.upsert .insertion [⟨.id 1, true⟩] true)).run
        (acknowledging ++ (stopping ++ .read .insertion [.id 1] :: [.advance 2 answered]))) 0
      ⟨.id 1, true⟩ p := by
  have hproper : AllProper (.upsert .insertion [⟨.id 1, true⟩] true ::
      (acknowledging ++ (stopping ++ .read .insertion [.id 1] :: [.advance 2 answered]))) made :=
    ⟨trivial, trivial, trivial, trivial, trivial, fun s key ↦ Or.inl rfl, trivial, trivial, trivial⟩
  exact acknowledged_read ⟨[], trivial, rfl⟩ hproper rfl rfl
    (show last _ [(⟨.id 1, true⟩ : Point Bool)] _ = some ⟨.id 1, true⟩ by
      rw [last_singleton, if_pos rfl]) (List.mem_singleton_self _)

/-- Whatever is stored, and whatever a stop would leave, was sent, and belongs there. -/
theorem Reached.stored_sent {c : Collection X} {l : LiveCollection X} (hl : Reached c l)
    {s : ShardId} {key v : String}
    (hv : (l.trees s).content key = some v ∨ (l.trees s).Recovers key (some v)) :
    ∃ p, v = X.encode p ∧ Segment.keyOf p = key ∧ c.shardOf p.id = s ∧ l.Sent p := by
  have hwithin := hl.kept.within (List.append_nil _).symm s key
  rw [← hl.kept.trees] at hwithin
  obtain hv | hv := hv
  · exact hwithin.content v hv
  · exact hwithin.recovers hv v rfl

/-- Whatever a read returns is read from a point that was sent, and is for one of its ids. -/
theorem Reached.read_sent {c : Collection X} {l : LiveCollection X} (hl : Reached c l) {i : ℕ}
    {ids : List PointId} {ps : List (Point V)}
    (hread : l.requests[i]? = some ⟨.read ids, some (.ok (.points ps))⟩) {q : Point V}
    (hq : q ∈ ps) :
    ∃ p, X.ReadsAs p q ∧ l.Sent p ∧
      ∃ id ∈ ids, Segment.keyOf q = id.intoString ∧ c.shardOf q.id = c.shardOf id := by
  have hkept := hl.kept
  obtain ⟨events, hproper, rfl⟩ := hl
  obtain ⟨before, e, after, rfl, rfl, ⟨_, _, _, -, hasked⟩ | ⟨order, ids', rfl, hasked⟩⟩ :=
    came_in hread (show (new c).requests.length ≤ i from Nat.zero_le i)
  · exact absurd hasked (by simp)
  · obtain rfl := Asked.read.inj hasked
    have hbefore : Kept c.shardOf ((new c).run before) :=
      (Kept.new c).run (allProper_append.mp hproper).1
    rw [run_append, run_cons] at hread hkept ⊢
    obtain ⟨A, B, p, id, hid, -, hreads, -, hk, hs, hsent⟩ :=
      read_sound hbefore.shards hkept hread hq
    refine ⟨p, hreads, hsent, id, hid, ?_, ?_⟩
    · rw [Segment.keyOf, hreads.id_eq]
      exact hk
    · rw [hreads.id_eq]
      exact hs

/-- **Nothing is made up.**  Whatever is stored, and whatever a stop would leave, is a point that
was sent, under its own text and in its own shard; and a read returns only what is read from the
text of such a point, for one of the ids it has asked for. -/
theorem only_what_was_sent {c : Collection X} {l : LiveCollection X} (hl : Reached c l) :
    (∀ s key v, (l.trees s).content key = some v ∨ (l.trees s).Recovers key (some v) →
      ∃ p, v = X.encode p ∧ Segment.keyOf p = key ∧ c.shardOf p.id = s ∧ l.Sent p) ∧
    ∀ (i : ℕ) (ids : List PointId) (ps : List (Point V)),
      l.requests[i]? = some ⟨.read ids, some (.ok (.points ps))⟩ → ∀ q ∈ ps,
        ∃ p, X.ReadsAs p q ∧ l.Sent p ∧
          ∃ id ∈ ids, Segment.keyOf q = id.intoString ∧ c.shardOf q.id = c.shardOf id :=
  ⟨fun _ _ _ hv ↦ hl.stored_sent hv, fun _ _ _ hread _ hq ↦ hl.read_sent hread hq⟩

theorem only_what_was_sent_busy : ∃ p : Point Bool,
    Segment.keyOf p = "1" ∧ busy.Sent p := by
  have hproper : AllProper (.upsert .insertion [⟨.id 1, true⟩] true ::
      (acknowledging ++ [.upsert .insertion [⟨.id 1, false⟩] true, .advance 1 answered])) made :=
    ⟨trivial, trivial, trivial, trivial, trivial, trivial⟩
  have hbusy : Reached made.collection busy := ⟨_, hproper, rfl⟩
  obtain ⟨p, -, hk, -, hsent⟩ := (only_what_was_sent hbusy).1 (made.collection.shardOf (.id 1)) "1"
    (Crates.bool.encode ⟨.id 1, false⟩) (Or.inl rfl)
  exact ⟨p, hk, hsent⟩

end LiveCollection

end Smoldb
