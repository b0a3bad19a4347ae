import Smoldb.Cluster.Workload

/-!
# Calls do not lead to calls

`upsert_points` and `get_points` serve the clients of a node and the other nodes alike, and only a
flag tells which.  If it got lost on some path, nodes that list each other as remotes would call
each other without end.  It does not: what is done for another node asks the shards of its own node
and no others, `Operation.targets_eq_nil_of_internal`.

What an activity has sent is therefore compared with what its operation may send, in `OnTrack`,
which every step keeps; `no_forwarding_storm` has what follows for the operations of a run.

* `OnTrack` is about one activity.  What its operation asks for, all in all, is what it has asked
  for and what remains, and what it has sent are the calls to other nodes among the first.  If it
  has been answered with an error that ends it, nothing more is asked for, so that it has sent part
  of what it could have sent.
* `Tracked` is about all of them: each is on track, and a call comes from an activity that there is
  and is done for another node.
* `Bounded` is what follows, and what the theorem says of every run: how many calls an operation of
  each kind has sent, in terms of the collection as it was when the operation got the lock.

`Workload.Effect` (`Cluster/Workload.lean`) says what a step can do to the list of activities, and
each of the three is kept by a case split along it.
-/

set_option autoImplicit false

namespace Smoldb

open Program

variable {V : Type} {X : Crates V}

/-! ## What has been sent -/

namespace Workload

variable (w : Workload X)

/-- The calls to other nodes there have been, with the activities that made them. -/
def sent : List (ℕ × ShardId × RemoteShard) := w.activities.filterMap Activity.origin

/-- The calls an activity has made. -/
def sentBy (i : ℕ) : List (ShardId × RemoteShard) :=
  (w.sent.filter fun e ↦ e.1 = i).map Prod.snd

variable {w}

/-- An activity that goes on comes from where it came from. -/
theorem filterMap_origin_set {l : List (Activity X)} {i : ℕ} {t t' : Activity X}
    (ht : l[i]? = some t)
    (horigin : t'.origin = t.origin) :
    (l.set i t').filterMap Activity.origin = l.filterMap Activity.origin := by
  have hmap : (l.set i t').map Activity.origin = l.map Activity.origin := by
    refine List.ext_getElem? fun j ↦ ?_
    rw [List.getElem?_map, List.getElem?_map, List.getElem?_set]
    split
    · rename_i hij
      subst hij
      rw [ht, if_pos (List.getElem?_eq_some_iff.mp ht).1, Option.map_some, Option.map_some, horigin]
    · rfl
  have hid : ∀ m : List (Activity X),
      m.filterMap Activity.origin = (m.map Activity.origin).filterMap id := fun m ↦ by
    rw [List.filterMap_map, Function.id_comp]
  rw [hid, hid, hmap]

end Workload

/-! ## An activity keeps to its operation -/

namespace Activity

/-- It may end before it has asked for everything. -/
def Stopped (t : Activity X) : Prop := (¬ t.operation.Lists ∨ t.asks = []) ∨ t.failed = true

/-- This is what it has yet to ask for, behind the call that it waits for. -/
def Remains (t : Activity X) (l : List (Ask V)) : Prop :=
  match t.phase with
  | .waiting _ => ∃ a next, t.rest = .call a next ∧
    ∀ r, (next r).Makes Ask.Stops (fun _ _ ↦ True) l (t.Stopped ∨ a.Stops r)
  | _ => t.rest.Makes Ask.Stops (fun _ _ ↦ True) l t.Stopped

/-- The calls it has made are those that its operation makes on the way to where it is. -/
structure OnTrack (t : Activity X) (sent : List (ShardId × RemoteShard)) : Prop where
  decodes : t.rest.Returns fun points ↦ ∃ ps, decodePoints X points = some ps
  unseen : t.phase = .arrived ∨ t.phase = .queued → t.view = none
  through : t.phase = .finished → t.through = true
  made : ∃ made remaining, t.asks = made ++ remaining ∧ t.Remains remaining ∧
    sent.Sublist (made.filterMap Ask.target) ∧ (¬ t.Stopped → sent = made.filterMap Ask.target)

variable {t : Activity X} {sent : List (ShardId × RemoteShard)}

theorem onTrack_arrive (node : PeerId) (operation : Operation V)
    (origin : Option (ℕ × ShardId × RemoteShard)) :
    (arrive (X := X) node operation origin).OnTrack [] :=
  ⟨⟨[], rfl⟩, fun _ ↦ rfl, fun h ↦ (nomatch h), [], [], rfl, ⟨rfl, trivial⟩, List.Sublist.refl _,
    fun _ ↦ rfl⟩

/-- **The calls of an activity** are among those that its operation may make. -/
theorem OnTrack.sublist (h : t.OnTrack sent) : sent.Sublist t.targets := by
  obtain ⟨made, remaining, hasks, -, hsub, -⟩ := h.made
  rw [← t.filterMap_target_asks, hasks, List.filterMap_append]
  exact hsub.trans (List.sublist_append_left _ _)

/-- It gets the lock. -/
theorem OnTrack.enter (h : t.OnTrack sent) (hphase : t.phase = .queued) (toc : TableOfContent X)
    (order : IterOrder (ShardId × List PointId)) : (t.enter toc order).OnTrack sent := by
  have hnil : sent = [] := by
    have hsub := h.sublist
    rw [targets, h.unseen (Or.inr hphase)] at hsub
    exact List.sublist_nil.mp hsub
  refine ⟨t.operation.program_returns toc order, fun hphase ↦
      ?_, fun h ↦ (by cases h), [], _, rfl, ?_, ?_, fun _ ↦ hnil⟩
  · obtain hphase | hphase := hphase <;> cases hphase
  · exact (t.operation.makes_program toc order).mono Or.inl fun _ _ _ _ _ _ _ ↦ trivial
  · rw [hnil]
    exact List.nil_sublist _

/-- It goes on with a result.  If it has not called anybody although it should have, this is an
error. -/
theorem OnTrack.goOn (h : t.OnTrack sent) {a : Ask V}
    {next : a.Res → AskProgram V (Option Status) (List PointGrpc)} {result : a.Res}
    (hholds : t.phase.holds = true) (hrest : t.rest = .call a next)
    (hstops : a.Stops result → a.failed result = true)
    (hcall : t.phase = .holding → a.target = none ∨ a.failed result = true) :
    (t.goOn a next result).OnTrack sent := by
  have hdecodes := h.decodes
  rw [hrest] at hdecodes
  have hstopped : t.Stopped ∨ a.Stops result → (t.goOn a next result).Stopped := by
    rintro ((hbase | hfailed) | hres)
    · exact Or.inl hbase
    · exact Or.inr (by rw [Activity.goOn, hfailed, Bool.true_or])
    · exact Or.inr (by rw [Activity.goOn, hstops hres, Bool.or_true])
  refine ⟨hdecodes result, fun hphase ↦ ?_, fun h ↦ (nomatch h), ?_⟩
  · obtain hphase | hphase := hphase <;> exact nomatch hphase
  obtain ⟨made, remaining, hasks, hremains, hsub, heq⟩ := h.made
  rw [Remains] at hremains
  cases hphase : t.phase with
  | waiting j =>
    rw [hphase] at hremains
    obtain ⟨a', next', hrest', hmakes⟩ := hremains
    rw [hrest] at hrest'
    cases hrest'
    refine ⟨made, remaining, hasks, ?_, hsub, fun hnot ↦ heq fun hs ↦ hnot (hstopped (Or.inl hs))⟩
    exact (hmakes result).mono hstopped fun _ _ _ _ _ _ _ ↦ trivial
  | holding =>
    rw [hphase, hrest] at hremains
    obtain ⟨remaining, rfl, hmakes⟩ := hremains
    refine ⟨made ++ [a], remaining, by rw [List.append_assoc]; exact hasks, ?_, ?_, fun hnot ↦ ?_⟩
    · exact (hmakes result).mono hstopped fun _ _ _ _ _ _ _ ↦ trivial
    · rw [List.filterMap_append]
      exact hsub.trans (List.sublist_append_left _ _)
    · obtain htarget | hfailed := hcall hphase
      · have hsingle : [a].filterMap Ask.target = [] := List.filterMap_cons_none htarget
        rw [List.filterMap_append, hsingle, List.append_nil]
        exact heq fun hs ↦ hnot (hstopped (Or.inl hs))
      · exact absurd (Or.inr (by rw [Activity.goOn, hfailed, Bool.or_true])) hnot
  | arrived => rw [hphase] at hholds; exact nomatch hholds
  | queued => rw [hphase] at hholds; exact nomatch hholds
  | finished => rw [hphase] at hholds; exact nomatch hholds

/-- It makes a call. -/
theorem OnTrack.send (h : t.OnTrack sent) {a : Ask V}
    {next : a.Res → AskProgram V (Option Status) (List PointGrpc)} {target : ShardId × RemoteShard}
    (hphase : t.phase = .holding) (hrest : t.rest = .call a next) (htarget : a.target = some target)
    (callee : ℕ) : ({ t with phase := .waiting callee } : Activity X).OnTrack
      (sent ++ [target]) := by
  obtain ⟨made, remaining, hasks, hremains, hsub, heq⟩ := h.made
  rw [Remains, hphase, hrest] at hremains
  obtain ⟨remaining, rfl, hmakes⟩ := hremains
  have hsingle : [a].filterMap Ask.target = [target] := List.filterMap_cons_some htarget
  refine ⟨h.decodes, fun hphase ↦ ?_, fun h ↦ (nomatch h), made ++ [a], remaining, ?_,
    ⟨a, next, hrest, hmakes⟩, ?_, ?_⟩
  · obtain hphase | hphase := hphase <;> exact nomatch hphase
  · rw [List.append_assoc]
    exact hasks
  · rw [List.filterMap_append, hsingle]
    exact hsub.append (List.Sublist.refl _)
  · rw [List.filterMap_append, hsingle]
    exact fun hnot ↦ by rw [heq hnot]

/-- It asks for the lock. -/
theorem OnTrack.enqueue (h : t.OnTrack sent) (hphase : t.phase = .arrived) :
    ({ t with phase := .queued } : Activity X).OnTrack sent := by
  obtain ⟨made, remaining, hasks, hremains, hsub, heq⟩ := h.made
  rw [Remains, hphase] at hremains
  exact ⟨h.decodes, fun _ ↦ h.unseen (Or.inl hphase), fun h ↦ (nomatch h), made, remaining, hasks,
    hremains, hsub, heq⟩

/-- It gives the lock back. -/
theorem OnTrack.finish (h : t.OnTrack sent) (hphase : t.phase = .holding)
    (hthrough : t.through = true) :
    ({ t with phase := .finished } : Activity X).OnTrack sent := by
  obtain ⟨made, remaining, hasks, hremains, hsub, heq⟩ := h.made
  rw [Remains, hphase] at hremains
  refine ⟨h.decodes, fun hphase ↦ ?_, fun _ ↦ hthrough, made, remaining, hasks, hremains, hsub, heq⟩
  obtain hphase | hphase := hphase <;> exact nomatch hphase

/-- **A list that has finished** without an error has called everybody. -/
theorem OnTrack.eq_targets (h : t.OnTrack sent) (hlists : t.operation.Lists)
    (hphase : t.phase = .finished) (hfailed : t.failed = false) : sent = t.targets := by
  by_cases hasks : t.asks = []
  · have hnil : t.targets = [] := by rw [← t.filterMap_target_asks, hasks, List.filterMap_nil]
    have hsub := h.sublist
    rw [hnil] at hsub
    rw [hnil, List.sublist_nil.mp hsub]
  · have hgoes : ¬ t.Stopped := by
      rintro ((hnot | hnil) | htrue)
      · exact hnot hlists
      · exact hasks hnil
      · rw [hfailed] at htrue
        exact nomatch htrue
    obtain ⟨made, remaining, hmade, hremains, -, heq⟩ := h.made
    rw [Remains, hphase] at hremains
    have hthrough := h.through hphase
    rw [Activity.through] at hthrough
    cases hrest : t.rest with
    | ok points =>
      rw [hrest] at hremains
      rw [heq hgoes, ← t.filterMap_target_asks, hmade, hremains.1, List.append_nil]
    | error e => rw [hrest] at hremains; exact absurd hremains hgoes
    | panicked message => rw [hrest] at hremains; exact absurd hremains hgoes
    | call a next => rw [hrest] at hthrough; exact nomatch hthrough

/-- **What an activity that has the lock does** without calling anybody. -/
theorem OnTrack.move {w : Workload X} {t' : Activity X} (h : t.OnTrack sent) (hmove : t.Move w t')
    (hcallee : ∀ callee ∈ w.activities,
      callee.rest.Returns fun points ↦ ∃ ps, decodePoints X points = some ps) :
    t'.OnTrack sent := by
  cases hmove with
  | answer result hphase hrest htarget =>
    exact h.goOn (by rw [hphase]; rfl) hrest Ask.stops_give fun _ ↦ Or.inl htarget
  | @reply a next target j callee aborted hphase hrest htarget hj =>
    refine h.goOn (by rw [hphase]; rfl) hrest (Ask.stops_receive fun points hpoints ↦ ?_)
      fun hholding ↦ nomatch hphase.symm.trans hholding
    have hdecodes := hcallee callee (List.mem_of_getElem? hj)
    rw [response] at hpoints
    cases hrest : callee.rest with
    | ok points' =>
      rw [hrest] at hpoints hdecodes
      obtain rfl := Except.ok.inj hpoints
      exact hdecodes
    | error status => rw [hrest] at hpoints; cases status <;> exact nomatch hpoints
    | panicked message => rw [hrest] at hpoints; exact nomatch hpoints
    | call a next => rw [hrest] at hpoints; exact nomatch hpoints
  | @fail a next e hphase hrest htarget =>
    refine h.goOn hphase hrest Ask.stops_give fun _ ↦ Or.inr ?_
    cases a <;> rfl
  | finish hphase hthrough => exact h.finish hphase hthrough

end Activity

/-! ## So do all of them -/

theorem Ask.internal_message (a : Ask V) (shard : RemoteShard) :
    (a.message X shard).internal = true := by cases a <;> rfl

namespace Workload

variable {w : Workload X}

/-- Every activity is on track, and calls come from activities. -/
structure Tracked (w : Workload X) : Prop where
  origin : ∀ t ∈ w.activities, ∀ e, t.origin = some e →
    e.1 < w.activities.length ∧ t.operation.internal = true
  onTrack : ∀ i (t : Activity X), w.activities[i]? = some t → t.OnTrack (w.sentBy i)

theorem mem_sent {e : ℕ × ShardId × RemoteShard} :
    e ∈ w.sent ↔ ∃ t ∈ w.activities, t.origin = some e := List.mem_filterMap

/-- An activity that there is not yet has not called anybody. -/
theorem Tracked.sentBy_length (h : w.Tracked) : w.sentBy w.activities.length = [] := by
  rw [sentBy, List.map_eq_nil_iff, List.filter_eq_nil_iff]
  intro e he heq
  obtain ⟨t, ht, horigin⟩ := mem_sent.mp he
  have hlt := (h.origin t ht e horigin).1
  rw [decide_eq_true_eq] at heq
  omega

/-- An activity goes on. -/
theorem Tracked.set (h : w.Tracked) {i : ℕ} {t t' : Activity X} (ht : w.activities[i]? = some t)
    (htrack : t'.OnTrack (w.sentBy i)) (horigin : t'.origin = t.origin)
    (hoperation : t'.operation = t.operation) (queue : PeerId → List ℕ) :
    (⟨w.activities.set i t', queue⟩ : Workload X).Tracked := by
  have hsent : (⟨w.activities.set i t', queue⟩ : Workload X).sent = w.sent :=
    filterMap_origin_set ht horigin
  constructor
  · intro c hc e he
    rw [List.length_set]
    obtain hc | rfl := List.mem_or_eq_of_mem_set hc
    · exact h.origin c hc e he
    · rw [horigin] at he
      rw [hoperation]
      exact h.origin t (List.mem_of_getElem? ht) e he
  · intro j c hc
    rw [sentBy, hsent]
    rw [List.getElem?_set] at hc
    split at hc
    · rename_i hij
      subst hij
      split at hc
      · obtain rfl := Option.some.inj hc
        exact htrack
      · exact nomatch hc
    · exact h.onTrack j c hc

/-- The last of the activities, or one of the others. -/
theorem getElem?_concat {l : List (Activity X)} {c t : Activity X} {j : ℕ}
    (h : (l ++ [c])[j]? = some t) : l[j]? = some t ∨ j = l.length ∧ c = t := by
  obtain hj | hj := Nat.lt_or_ge j l.length
  · rw [List.getElem?_append_left hj] at h
    exact Or.inl h
  · rw [List.getElem?_append_right hj, List.getElem?_singleton] at h
    split at h
    · exact Or.inr ⟨by omega, Option.some.inj h⟩
    · exact nomatch h

/-- An activity arrives. -/
theorem Tracked.arrive (h : w.Tracked) (node : PeerId) (operation : Operation V) :
    ({ w with activities := w.activities ++ [.arrive node operation none] } :
      Workload X).Tracked := by
  have hsent : ({ w with activities := w.activities ++ [.arrive node operation none] } :
      Workload X).sent = w.sent := by
    rw [sent, List.filterMap_append]
    exact List.append_nil _
  constructor
  · intro c hc e he
    rw [List.length_append]
    obtain hc | hc := List.mem_append.mp hc
    · exact (h.origin c hc e he).imp_left fun hlt ↦ Nat.lt_succ_of_lt hlt
    · rw [List.mem_singleton.mp hc] at he
      exact nomatch he
  · intro j c hc
    rw [sentBy, hsent]
    obtain hc | ⟨rfl, rfl⟩ := getElem?_concat hc
    · exact h.onTrack j c hc
    · have hnil := h.sentBy_length
      rw [sentBy] at hnil
      rw [hnil]
      exact Activity.onTrack_arrive node operation none

/-- An activity calls another node. -/
theorem Tracked.send (h : w.Tracked) {i : ℕ} {t : Activity X} {a : Ask V}
    {next : a.Res → AskProgram V (Option Status) (List PointGrpc)} {target : ShardId × RemoteShard}
    (node : PeerId) (ht : w.activities[i]? = some t) (hphase : t.phase = .holding)
    (hrest : t.rest = .call a next) (htarget : a.target = some target) :
    (w.send i t node (a.message X target.2) target).Tracked := by
  have hi : i < w.activities.length := (List.getElem?_eq_some_iff.mp ht).1
  have hsent : (w.send i t node (a.message X target.2) target).sent = w.sent ++ [(i, target)] := by
    have hset : (w.activities.set i { t with phase := .waiting w.activities.length }).filterMap
        Activity.origin = w.activities.filterMap Activity.origin := filterMap_origin_set ht rfl
    rw [sent, Workload.send, List.filterMap_append, hset]
    rfl
  constructor
  · intro c hc e he
    rw [Workload.send, List.length_append, List.length_set]
    obtain hc | hc := List.mem_append.mp hc
    · have hold : e.1 < w.activities.length ∧ c.operation.internal = true := by
        obtain hc | rfl := List.mem_or_eq_of_mem_set hc
        · exact h.origin c hc e he
        · exact h.origin t (List.mem_of_getElem? ht) e he
      exact hold.imp_left Nat.lt_succ_of_lt
    · obtain rfl := List.mem_singleton.mp hc
      obtain rfl := Option.some.inj he
      exact ⟨Nat.lt_succ_of_lt hi, a.internal_message target.2⟩
  · intro j c hc
    rw [Workload.send] at hc
    rw [sentBy, hsent, List.filter_append, List.map_append]
    by_cases hij : i = j
    · subst hij
      have hc : { t with phase := .waiting w.activities.length } = c := by
        rw [List.getElem?_append_left (by rw [List.length_set]; exact hi),
          List.getElem?_set_self hi]
          at hc
        exact Option.some.inj hc
      have hone : [(i, target)].filter (fun e ↦ e.1 = i) = [(i, target)] := by simp
      rw [← hc, hone]
      exact (h.onTrack i t ht).send hphase hrest htarget _
    · have hnone : [(i, target)].filter (fun e ↦ e.1 = j) = [] := by simp [hij]
      rw [hnone, List.map_nil, List.append_nil]
      obtain hc | ⟨hj, rfl⟩ := getElem?_concat hc
      · rw [List.getElem?_set_ne hij] at hc
        exact h.onTrack j c hc
      · have hnil := h.sentBy_length
        rw [List.length_set] at hj
        rw [sentBy, ← hj] at hnil
        rw [hnil]
        exact Activity.onTrack_arrive node _ _

/-- **Whatever happens**, every activity stays on track. -/
theorem Tracked.effect {w' : Workload X} (h : w.Tracked) (heffect : w.Effect w') : w'.Tracked := by
  cases heffect with
  | arrive node hinternal => exact h.arrive node _
  | enqueue ht hphase => exact h.set ht ((h.onTrack _ _ ht).enqueue hphase) rfl rfl _
  | grant toc order hqueue ht hphase hfree =>
    exact h.set ht ((h.onTrack _ _ ht).enter hphase toc order) rfl rfl _
  | move ht hmove =>
    have hcallee : ∀ callee ∈ w.activities,
        callee.rest.Returns fun points ↦ ∃ ps, decodePoints X points = some ps := by
      intro callee hmem
      obtain ⟨j, hj⟩ := List.mem_iff_getElem?.mp hmem
      exact (h.onTrack j callee hj).decodes
    exact h.set ht ((h.onTrack _ _ ht).move hmove hcallee) hmove.keeps.1 hmove.keeps.2 _
  | send node ht hphase hrest htarget => exact h.send node ht hphase hrest htarget

theorem tracked_idle : (idle : Workload X).Tracked :=
  ⟨fun _ ht ↦ (nomatch ht), fun _ _ ht ↦ nomatch ht⟩

/-- So they do in a run. -/
theorem tracked_run (l : List (Action X)) : (l.foldl step idle).Tracked :=
  Runs.run_inv (step_inv fun _ _ h he ↦ Tracked.effect h he) l tracked_idle

/-! ## How many calls there are -/

/-- Calls are counted by the activities that make them. -/
theorem length_eq_sum_filter {β : Type} {n : ℕ} {l : List (ℕ × β)} (h : ∀ e ∈ l, e.1 < n) :
    l.length = ∑ i : Fin n, (l.filter fun e ↦ e.1 = i.1).length := by
  induction l with
  | nil => simp
  | cons e l ih =>
    have hone : ∑ i : Fin n, (if i = ⟨e.1, h e List.mem_cons_self⟩ then 1 else 0) = 1 := by simp
    have hsplit : ∀ i : Fin n, ((e :: l).filter fun e ↦ e.1 = i.1).length
        = (if i = ⟨e.1, h e List.mem_cons_self⟩ then 1 else 0)
          + (l.filter fun e ↦ e.1 = i.1).length := by
      intro i
      by_cases hi : e.1 = i.1
      · have hfin : i = ⟨e.1, h e List.mem_cons_self⟩ := Fin.ext hi.symm
        rw [List.filter_cons_of_pos (by simpa using hi), List.length_cons, if_pos hfin,
          Nat.add_comm]
      · have hfin : i ≠ ⟨e.1, h e List.mem_cons_self⟩ := fun h ↦ hi (congrArg Fin.val h).symm
        rw [List.filter_cons_of_neg (by simpa using hi), if_neg hfin, Nat.zero_add]
    simp only [hsplit]
    rw [Finset.sum_add_distrib, hone, ← ih fun e' he' ↦ h e' (List.mem_cons_of_mem _ he'),
      List.length_cons, Nat.add_comm]

/-- What adds nothing can be left out. -/
theorem sum_map_filter {l : List (Activity X)} {f : Activity X → ℕ} {p : Activity X → Bool}
    (h : ∀ t ∈ l, p t = false → f t = 0) : ((l.filter p).map f).sum = (l.map f).sum := by
  induction l with
  | nil => rfl
  | cons t l ih =>
    have hrest := ih fun t' ht' ↦ h t' (List.mem_cons_of_mem _ ht')
    rw [List.map_cons, List.sum_cons, ← hrest]
    cases hp : p t with
    | true => rw [List.filter_cons_of_pos hp, List.map_cons, List.sum_cons]
    | false =>
      rw [List.filter_cons_of_neg (by rw [hp]; exact Bool.false_ne_true),
        h t List.mem_cons_self hp, Nat.zero_add]

/-- **What the operations of a cluster send to other nodes.** -/
structure Bounded (w : Workload X) : Prop where
  /-- What is done for another node sends nothing. -/
  internal : ∀ i (t : Activity X), w.activities[i]? = some t → t.operation.internal = true →
    w.sentBy i = []
  /-- An upsert of a client sends at most one call for each remote of each shard it touches. -/
  upsert : ∀ i (t : Activity X) name points toc order (c : Collection X),
    w.activities[i]? = some t → t.operation = .performPointsOp name points →
    t.view = some (toc, order) → toc.collections.lookup name = some c →
    ∃ shards : List ShardId, shards.Nodup ∧ (∀ s, s ∈ shards ↔ ∃ p ∈ points, c.shardOf p.id = s) ∧
      (w.sentBy i).Sublist (shards.flatMap c.remotesOf)
  /-- A list of a client sends at most one for each remote of each shard, and exactly one unless it
  is answered with an error. -/
  list : ∀ i (t : Activity X) name toc order (c : Collection X),
    w.activities[i]? = some t → t.operation = .retrievePoints name none →
    t.view = some (toc, order) → toc.collections.lookup name = some c →
    (w.sentBy i).Sublist (c.replicaHolder.shards.keys.flatMap c.remotesOf) ∧
      (t.phase = .finished → t.failed = false →
        w.sentBy i = c.replicaHolder.shards.keys.flatMap c.remotesOf)
  /-- A read of some ids sends nothing. -/
  byId : ∀ i (t : Activity X) name ids, w.activities[i]? = some t →
    t.operation = .retrievePoints name (some ids) → w.sentBy i = []
  /-- All of these are calls that the operations of clients may make. -/
  total : w.sent.length
    ≤ ((w.activities.filter fun t ↦ t.origin.isNone).map fun t ↦ t.targets.length).sum

/-- What comes from another node is done for another node. -/
theorem Tracked.total (h : w.Tracked) : w.sent.length
    ≤ ((w.activities.filter fun t ↦ t.origin.isNone).map fun t ↦ t.targets.length).sum := by
  have hclient : ∀ t ∈ w.activities, t.origin.isNone = false → t.targets.length = 0 := by
    intro t ht horigin
    cases he : t.origin with
    | none => rw [he] at horigin; exact nomatch horigin
    | some e =>
      have hinternal := (h.origin t ht e he).2
      rw [Activity.targets_eq_nil fun toc order ↦
        Operation.targets_eq_nil_of_internal toc order hinternal, List.length_nil]
  have hlt : ∀ e ∈ w.sent, e.1 < w.activities.length := by
    intro e he
    obtain ⟨t, ht, horigin⟩ := mem_sent.mp he
    exact (h.origin t ht e horigin).1
  calc w.sent.length = ∑ i : Fin w.activities.length, (w.sentBy i).length := by
        rw [length_eq_sum_filter hlt]
        exact Finset.sum_congr rfl fun i _ ↦ (List.length_map ..).symm
    _ ≤ ∑ i : Fin w.activities.length, (w.activities[i.1]).targets.length :=
        Finset.sum_le_sum fun i _ ↦
          (h.onTrack i _ (List.getElem?_eq_getElem i.2)).sublist.length_le
    _ = (w.activities.map fun t ↦ t.targets.length).sum :=
        Fin.sum_univ_fun_getElem w.activities fun t ↦ t.targets.length
    _ = _ := (sum_map_filter hclient).symm

end Workload

open Workload in
/-- **No forwarding storm.**  Whatever happens in a cluster, and in whatever order, what is done for
another node calls no node, and all calls there ever were are bounded by what the requests of
clients may send. -/
theorem no_forwarding_storm (l : List (Action X)) : (l.foldl step idle).Bounded := by
  have h := tracked_run l
  generalize l.foldl step idle = w at h
  constructor
  case internal =>
    intro i t ht hinternal
    have hsub := (h.onTrack i t ht).sublist
    rw [Activity.targets_eq_nil fun toc order ↦
      Operation.targets_eq_nil_of_internal toc order hinternal] at hsub
    exact List.sublist_nil.mp hsub
  case upsert =>
    intro i t name points toc order c ht hoperation hview hc
    have htargets : t.targets = (c.shardOrder order points).flatMap c.remotesOf := by
      simp only [Activity.targets, hview, hoperation, Operation.targets, hc]
    have hsub := (h.onTrack i t ht).sublist
    rw [htargets] at hsub
    exact ⟨c.shardOrder order points, Collection.shardOrder_nodup order points,
      fun s ↦ Collection.mem_shardOrder, hsub⟩
  case list =>
    intro i t name toc order c ht hoperation hview hc
    have htargets : t.targets = c.replicaHolder.shards.keys.flatMap c.remotesOf := by
      simp only [Activity.targets, hview, hoperation, Operation.targets, hc]
    rw [← htargets]
    exact ⟨(h.onTrack i t ht).sublist,
      fun hphase hfailed ↦ (h.onTrack i t ht).eq_targets ⟨name, hoperation⟩ hphase hfailed⟩
  case byId =>
    intro i t name ids ht hoperation
    have hsub := (h.onTrack i t ht).sublist
    rw [Activity.targets_eq_nil fun toc order ↦ by rw [hoperation]; rfl] at hsub
    exact List.sublist_nil.mp hsub
  case total => exact h.total

end Smoldb
