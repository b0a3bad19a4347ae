import Smoldb.Cluster.Forwarding

/-!
# When a cluster gets stuck

A request of a client keeps the lock of its node while it waits for other nodes, and what it waits
for there has to get the lock of that node first.  A writer that asks for the lock in between is in
its way: the lock is fair, so whoever asks for it after the writer gets it after the writer, and the
writer gets it when the request of the client is through.

So two nodes that call each other can get stuck, `not_deadlock_free`, and nothing but the timeout of
the call sees to it that they go on.  This takes a writer on either side.  `deadlock_iff` says that
there is no other way: wherever operations wait for each other there are nodes at which a writer is
next, and the lock is held by requests that wait for one of these nodes.

## How it goes

`WaitsFor` has the three ways to wait: for what one has called, for who holds the lock and is in the
way, and for who is in front of one in the queue.  A set of operations is `Deadlocked` if each of
them waits for one in the set; `Blocked` is about nodes.

`Orderly` is the invariant of the queues: the queue of a node has just those that wait for its lock,
each once, and who waits for a call is the one that made it.  With it and with what
`Cluster/Forwarding.lean` says of the calls, that only requests of clients make any, one direction
follows the waiting around: from a call to the lock of its node, to the writer in front, to who
holds the lock, which must be a request that waits for another call.  For the other direction, the
blocked nodes give the set: their writers, the holders of their locks, and what these wait for.
-/

set_option autoImplicit false

namespace Smoldb

open Program

variable {V : Type} {X : Crates V}

/-- Each of them waits, and for nothing else than for others of them. -/
def Deadlocked {α : Type} (waitsFor : α → α → Prop) (s : Set α) : Prop :=
  s.Nonempty ∧ ∀ a ∈ s, (∃ b, waitsFor a b) ∧ ∀ b, waitsFor a b → b ∈ s

namespace Workload

variable (w : Workload X)

/-- An operation waits for the lock of a node. -/
def QueuedAt (node : PeerId) (i : ℕ) : Prop :=
  ∃ t : Activity X, w.activities[i]? = some t ∧ t.node = node ∧ t.phase = .queued

/-- An operation has the lock of a node. -/
def HoldsAt (node : PeerId) (i : ℕ) : Prop :=
  ∃ t : Activity X, w.activities[i]? = some t ∧ t.node = node ∧ t.phase.holds = true

/-- One operation waits for another: to get the lock before it, to give it back if they cannot both
have it, or to finish and reply. -/
inductive WaitsFor : ℕ → ℕ → Prop where
  | turn {i j : ℕ} {node : PeerId} (h : w.QueuedAt node i)
      (hj : j ∈ (w.queue node).takeWhile fun k ↦ k ≠ i) : WaitsFor i j
  | lock {i j : ℕ} {t t' : Activity X} (ht : w.activities[i]? = some t)
      (hphase : t.phase = .queued) (ht' : w.activities[j]? = some t') (hnode : t'.node = t.node)
      (hholds : t'.phase.holds = true)
      (hwrites : t.operation.writes = true ∨ t'.operation.writes = true) : WaitsFor i j
  | reply {i j : ℕ} {t t' : Activity X} (ht : w.activities[i]? = some t)
      (hphase : t.phase = .waiting j) (ht' : w.activities[j]? = some t')
      (hfinished : t'.phase ≠ .finished) : WaitsFor i j

/-- At each of the nodes a writer is next, and the lock is held by operations that wait for what is
done for them at another of the nodes, which is behind the writer there. -/
def Blocked (nodes : Set PeerId) : Prop :=
  nodes.Nonempty ∧ ∀ node ∈ nodes,
    (∃ (i : ℕ) (t : Activity X), (w.queue node).head? = some i ∧ w.activities[i]? = some t ∧
      t.operation.writes = true) ∧
    (∃ i, w.HoldsAt node i) ∧
    ∀ (i : ℕ) (t : Activity X), w.activities[i]? = some t → t.node = node → t.phase.holds = true →
      ∃ (j : ℕ) (t' : Activity X), t.phase = .waiting j ∧ w.activities[j]? = some t' ∧
        t'.operation.internal = true ∧ t'.phase = .queued ∧ t'.node ∈ nodes

/-! ## What the queues know -/

variable {w}

/-- The queue of a node has those that wait for its lock, and who waits for a call is the one that
made it. -/
structure Orderly (w : Workload X) : Prop where
  mem_queue : ∀ node i, i ∈ w.queue node ↔ w.QueuedAt node i
  nodup : ∀ node, (w.queue node).Nodup
  waiting : ∀ i (t : Activity X) j, w.activities[i]? = some t → t.phase = .waiting j →
    ∃ t' : Activity X, ∃ target, w.activities[j]? = some t' ∧ t'.origin = some (i, target)

theorem queuedAt_set {i : ℕ} {t t' : Activity X} (ht : w.activities[i]? = some t)
    (queue : PeerId → List ℕ) (node : PeerId) (j : ℕ) :
    (⟨w.activities.set i t', queue⟩ : Workload X).QueuedAt node j ↔
      if i = j then t'.node = node ∧ t'.phase = .queued else w.QueuedAt node j := by
  have hi : i < w.activities.length := (List.getElem?_eq_some_iff.mp ht).1
  split
  · rename_i hij
    subst hij
    rw [QueuedAt, List.getElem?_set_self hi]
    simp
  · rename_i hij
    rw [QueuedAt, List.getElem?_set_ne hij, QueuedAt]

theorem queuedAt_append {l : List (Activity X)} {c : Activity X} {queue queue' : PeerId → List ℕ}
    (hc : c.phase = .arrived) (node : PeerId) (j : ℕ) :
    (⟨l ++ [c], queue⟩ : Workload X).QueuedAt node j ↔
      (⟨l, queue'⟩ : Workload X).QueuedAt node j := by
  constructor
  · rintro ⟨t, ht, hnode, hphase⟩
    obtain ht | ⟨-, rfl⟩ := getElem?_concat ht
    · exact ⟨t, ht, hnode, hphase⟩
    · exact nomatch hc.symm.trans hphase
  · rintro ⟨t, ht, hnode, hphase⟩
    refine ⟨t, ?_, hnode, hphase⟩
    have hj : j < l.length := (List.getElem?_eq_some_iff.mp ht).1
    show (l ++ [c])[j]? = some t
    rw [List.getElem?_append_left hj]
    exact ht

/-- An activity that goes on is still there, with its origin. -/
theorem exists_set_origin {l : List (Activity X)} {i : ℕ} {t t' : Activity X} (ht : l[i]? = some t)
    (horigin : t'.origin = t.origin) (j : ℕ) (c : Activity X) (hc : l[j]? = some c) :
    ∃ c' : Activity X, (l.set i t')[j]? = some c' ∧ c'.origin = c.origin := by
  by_cases hij : i = j
  · subst hij
    obtain rfl := Option.some.inj (ht.symm.trans hc)
    exact ⟨t', List.getElem?_set_self (List.getElem?_eq_some_iff.mp ht).1, horigin⟩
  · exact ⟨c, by rw [List.getElem?_set_ne hij, hc], rfl⟩

/-- Nobody starts to wait, and nobody goes away. -/
theorem Orderly.waiting_of {l : List (Activity X)} (h : w.Orderly)
    (hwaiting : ∀ (i : ℕ) (t : Activity X) (j : ℕ), l[i]? = some t → t.phase = .waiting j →
      ∃ t₀ : Activity X, w.activities[i]? = some t₀ ∧ t₀.phase = .waiting j)
    (horigin : ∀ (j : ℕ) (c : Activity X), w.activities[j]? = some c →
      ∃ c' : Activity X, l[j]? = some c' ∧ c'.origin = c.origin) (i : ℕ) (t : Activity X) (j : ℕ)
    (ht : l[i]? = some t) (hphase : t.phase = .waiting j) :
    ∃ c : Activity X, ∃ target, l[j]? = some c ∧ c.origin = some (i, target) := by
  obtain ⟨t₀, ht₀, hphase₀⟩ := hwaiting i t j ht hphase
  obtain ⟨c, target, hc, hi⟩ := h.waiting i t₀ j ht₀ hphase₀
  obtain ⟨c', hc', horigin⟩ := horigin j c hc
  exact ⟨c', target, hc', horigin.trans hi⟩

/-- An activity goes on without waiting. -/
theorem waiting_set {l : List (Activity X)} {i : ℕ} {t' : Activity X}
    (hphase' : ∀ j, t'.phase ≠ .waiting j) (k : ℕ) (t : Activity X) (j : ℕ)
    (ht : (l.set i t')[k]? = some t) (hphase : t.phase = .waiting j) :
    ∃ t₀ : Activity X, l[k]? = some t₀ ∧ t₀.phase = .waiting j := by
  rw [List.getElem?_set] at ht
  split at ht
  · split at ht
    · obtain rfl := Option.some.inj ht
      exact absurd hphase (hphase' j)
    · exact nomatch ht
  · exact ⟨t, ht, hphase⟩

/-- An activity goes on. -/
theorem Orderly.set (h : w.Orderly) {i : ℕ} {t t' : Activity X} (ht : w.activities[i]? = some t)
    (hphase' : ∀ j, t'.phase ≠ .waiting j) (horigin : t'.origin = t.origin)
    {queue : PeerId → List ℕ}
    (hqueue : ∀ node j, j ∈ queue node ↔
      if i = j then t'.node = node ∧ t'.phase = .queued else w.QueuedAt node j)
    (hnodup : ∀ node, (queue node).Nodup) :
    (⟨w.activities.set i t', queue⟩ : Workload X).Orderly :=
  ⟨fun node j ↦ (hqueue node j).trans (queuedAt_set ht queue node j).symm, hnodup,
    h.waiting_of (waiting_set hphase') (exists_set_origin ht horigin)⟩

/-- Who is in a queue is waiting in it. -/
theorem Orderly.of_mem (h : w.Orderly) {node : PeerId} {i : ℕ} {t : Activity X}
    (ht : w.activities[i]? = some t) (hi : i ∈ w.queue node) :
    t.node = node ∧ t.phase = .queued := by
  obtain ⟨t', ht', hnode, hphase⟩ := (h.mem_queue node i).mp hi
  obtain rfl := Option.some.inj (ht.symm.trans ht')
  exact ⟨hnode, hphase⟩

/-- An activity that was not in a queue does not get into one by going on. -/
theorem Orderly.mem_queue_set (h : w.Orderly) {i : ℕ} {t : Activity X}
    (ht : w.activities[i]? = some t) (t' : Activity X) (hphase : t.phase ≠ .queued)
    (hphase' : t'.phase ≠ .queued)
    (node : PeerId) (j : ℕ) : j ∈ w.queue node ↔
      if i = j then t'.node = node ∧ t'.phase = .queued else w.QueuedAt node j := by
  split
  · rename_i hij
    subst hij
    exact ⟨fun hi ↦ absurd (h.of_mem ht hi).2 hphase, fun hi ↦ absurd hi.2 hphase'⟩
  · exact h.mem_queue node j

theorem Orderly.arrive (h : w.Orderly) (node : PeerId) (operation : Operation V) :
    ({ w with activities := w.activities ++ [.arrive node operation none] } :
      Workload X).Orderly := by
  refine ⟨fun A i ↦ (h.mem_queue A i).trans (queuedAt_append rfl A i).symm, h.nodup,
    h.waiting_of (fun i t j ht hphase ↦ ?_) fun j c hc ↦ ⟨c, ?_, rfl⟩⟩
  · obtain ht | ⟨-, rfl⟩ := getElem?_concat ht
    · exact ⟨t, ht, hphase⟩
    · cases hphase
  · rw [List.getElem?_append_left (List.getElem?_eq_some_iff.mp hc).1, hc]

/-- Who asks for the lock gets to the end of the queue. -/
theorem Orderly.enqueue (h : w.Orderly) {i : ℕ} {t : Activity X} (ht : w.activities[i]? = some t)
    (hphase : t.phase = .arrived) :
    ({ activities := w.activities.set i { t with phase := .queued }
       queue := Function.update w.queue t.node (w.queue t.node ++ [i]) } : Workload X).Orderly := by
  have hnot : ∀ node, i ∉ w.queue node := fun node hi ↦
    by cases hphase.symm.trans (h.of_mem ht hi).2
  refine h.set ht (fun j hj ↦ (by cases hj)) (by rfl) (fun node j ↦ ?_) fun node ↦ ?_
  · obtain rfl | hnode := eq_or_ne node t.node
    · rw [Function.update_self, List.mem_append, List.mem_singleton]
      split
      · rename_i hij
        exact ⟨fun _ ↦ ⟨rfl, rfl⟩, fun _ ↦ Or.inr hij.symm⟩
      · rename_i hij
        rw [← h.mem_queue t.node j]
        exact or_iff_left (Ne.symm hij)
    · rw [Function.update_of_ne hnode]
      split
      · rename_i hij
        subst hij
        exact ⟨fun hi ↦ absurd hi (hnot node), fun hi ↦ absurd hi.1 (Ne.symm hnode)⟩
      · exact h.mem_queue node j
  · obtain rfl | hnode := eq_or_ne node t.node
    · rw [Function.update_self]
      exact (h.nodup t.node).append (List.nodup_singleton i) (by simpa using hnot t.node)
    · rw [Function.update_of_ne hnode]
      exact h.nodup node

/-- Who gets the lock leaves the queue. -/
theorem Orderly.grant (h : w.Orderly) {node : PeerId} {i : ℕ} {queue : List ℕ} {t : Activity X}
    (toc : TableOfContent X) (order : IterOrder (ShardId × List PointId))
    (hqueue : w.queue node = i :: queue) (ht : w.activities[i]? = some t) :
    ({ activities := w.activities.set i (t.enter toc order)
       queue := Function.update w.queue node queue } : Workload X).Orderly := by
  have hnodup := h.nodup node
  rw [hqueue] at hnodup
  obtain ⟨hi, hnodup⟩ := List.nodup_cons.mp hnodup
  have hhead : i ∈ w.queue node := by
    rw [hqueue]
    exact List.mem_cons_self
  refine h.set ht (fun j hj ↦ (by cases hj)) (by rfl) (fun A j ↦ ?_) fun A ↦ ?_
  · obtain rfl | hA := eq_or_ne A node
    · rw [Function.update_self]
      split
      · rename_i hij
        subst hij
        exact ⟨fun hj ↦ absurd hj hi, fun hj ↦ (by cases hj.2)⟩
      · rename_i hij
        rw [← h.mem_queue A j, hqueue, List.mem_cons]
        exact (or_iff_right (Ne.symm hij)).symm
    · rw [Function.update_of_ne hA]
      split
      · rename_i hij
        subst hij
        refine ⟨fun hj ↦ absurd ((h.of_mem ht hj).1.symm.trans (h.of_mem ht hhead).1) hA,
          fun hj ↦ (by cases hj.2)⟩
      · exact h.mem_queue A j
  · obtain rfl | hA := eq_or_ne A node
    · rw [Function.update_self]
      exact hnodup
    · rw [Function.update_of_ne hA]
      exact h.nodup A

theorem Orderly.move (h : w.Orderly) {i : ℕ} {t t' : Activity X}
    (ht : w.activities[i]? = some t) (hmove : t.Move w t') : (w.set i t').Orderly := by
  have hphase : t.phase ≠ .queued := fun hqueued ↦ by
    have hholds := hmove.holds
    rw [hqueued] at hholds
    cases hholds
  have hnext := hmove.phase
  refine h.set ht (fun j hj ↦ ?_) hmove.keeps.1 (h.mem_queue_set ht t' hphase fun hqueued ↦ ?_)
    h.nodup
  · rw [hj] at hnext
    exact hnext.elim (fun h ↦ by cases h) fun h ↦ by cases h
  · rw [hqueued] at hnext
    exact hnext.elim (fun h ↦ by cases h) fun h ↦ by cases h

/-- Who makes a call waits for the activity that arrives with it. -/
theorem Orderly.send (h : w.Orderly) {i : ℕ} {t : Activity X} {a : Ask V} (node : PeerId)
    (target : ShardId × RemoteShard) (ht : w.activities[i]? = some t)
    (hphase : t.phase = .holding) :
    (w.send i t node (a.message X target.2) target).Orderly := by
  have hi : i < w.activities.length := (List.getElem?_eq_some_iff.mp ht).1
  have hqueued : t.phase ≠ .queued := fun h ↦ by cases hphase.symm.trans h
  refine ⟨fun A j ↦ ?_, h.nodup, fun k c j hc hwaiting ↦ ?_⟩
  · have hset := h.mem_queue_set ht { t with phase := .waiting w.activities.length } hqueued
      (fun h ↦ by cases h) A j
    rw [← queuedAt_set ht w.queue A j] at hset
    exact hset.trans (queuedAt_append rfl A j).symm
  · rw [Workload.send] at hc ⊢
    have hlength : ∀ t' : Activity X, (w.activities.set i t').length = w.activities.length :=
      fun t' ↦ List.length_set
    obtain hc | ⟨-, rfl⟩ := getElem?_concat hc
    · by_cases hik : i = k
      · subst hik
        rw [List.getElem?_set_self hi] at hc
        obtain rfl := Option.some.inj hc
        obtain rfl := Phase.waiting.inj hwaiting
        refine ⟨.arrive node (a.message X target.2) (some (i, target)), target, ?_, rfl⟩
        rw [List.getElem?_append_right (le_of_eq (hlength _)), hlength, Nat.sub_self]
        rfl
      · rw [List.getElem?_set_ne hik] at hc
        obtain ⟨c₀, target₀, hc₀, horigin⟩ := h.waiting k c j hc hwaiting
        obtain ⟨c', hc', horigin'⟩ := exists_set_origin ht
          (rfl : ({ t with phase := .waiting w.activities.length } : Activity X).origin
            = t.origin)
          j c₀ hc₀
        refine ⟨c', target₀, ?_, horigin'.trans horigin⟩
        rw [List.getElem?_append_left (List.getElem?_eq_some_iff.mp hc').1, hc']
    · cases hwaiting

/-- **Whatever happens**, the queues stay in order. -/
theorem Orderly.effect {w' : Workload X} (h : w.Orderly) (heffect : w.Effect w') : w'.Orderly := by
  cases heffect with
  | arrive node => exact h.arrive node _
  | enqueue ht hphase => exact h.enqueue ht hphase
  | grant toc order hqueue ht => exact h.grant toc order hqueue ht
  | move ht hmove => exact h.move ht hmove
  | send node ht hphase => exact h.send node _ ht hphase

theorem orderly_idle : (idle : Workload X).Orderly :=
  ⟨fun _ _ ↦ ⟨fun h ↦ (nomatch h), fun ⟨_, ht, _⟩ ↦ nomatch ht⟩, fun _ ↦ List.nodup_nil,
    fun _ _ _ ht ↦ nomatch ht⟩

/-- So they do in a run. -/
theorem orderly_run (l : List (Action X)) : (l.foldl step idle).Orderly :=
  Runs.run_inv (step_inv fun _ _ h he ↦ Orderly.effect h he) l orderly_idle

/-! ## Who can wait for whom -/

/-- **Only requests of clients wait for calls**, and what they wait for is done for another node. -/
theorem Orderly.caller (h : w.Orderly) (htrack : w.Tracked) {i j : ℕ} {t : Activity X}
    (ht : w.activities[i]? = some t) (hphase : t.phase = .waiting j) :
    t.operation.writes = false ∧ t.operation.internal = false ∧
      ∃ t' : Activity X, w.activities[j]? = some t' ∧ t'.operation.internal = true := by
  obtain ⟨c, target, hc, horigin⟩ := h.waiting i t j ht hphase
  have hmem : target ∈ w.sentBy i := by
    have hsent : (i, target) ∈ w.sent := mem_sent.mpr ⟨c, List.mem_of_getElem? hc, horigin⟩
    exact List.mem_map.mpr ⟨(i, target), List.mem_filter.mpr ⟨hsent, by simp⟩, rfl⟩
  have htarget : target ∈ t.targets := (htrack.onTrack i t ht).sublist.subset hmem
  refine ⟨Bool.eq_false_iff.mpr fun hwrites ↦ ?_, Bool.eq_false_iff.mpr fun hinternal ↦ ?_, c, hc,
    (htrack.origin c (List.mem_of_getElem? hc) _ horigin).2⟩
  · rw [Activity.targets_eq_nil fun toc order ↦
      Operation.targets_eq_nil_of_writes toc order hwrites] at htarget
    exact nomatch htarget
  · rw [Activity.targets_eq_nil fun toc order ↦
      Operation.targets_eq_nil_of_internal toc order hinternal] at htarget
    exact nomatch htarget

/-- Who waits is in a queue, or has a lock and waits for a call. -/
theorem WaitsFor.phase {i j : ℕ} (h : w.WaitsFor i j) :
    ∃ t : Activity X, w.activities[i]? = some t ∧ (t.phase = .queued ∨ t.phase = .waiting j) := by
  cases h with
  | turn hqueued hj =>
    obtain ⟨t, ht, -, hphase⟩ := hqueued
    exact ⟨t, ht, Or.inl hphase⟩
  | lock ht hphase => exact ⟨_, ht, Or.inl hphase⟩
  | reply ht hphase => exact ⟨_, ht, Or.inr hphase⟩

theorem WaitsFor.phase_of {i j : ℕ} (h : w.WaitsFor i j) {t : Activity X}
    (ht : w.activities[i]? = some t) : t.phase = .queued ∨ t.phase = .waiting j := by
  obtain ⟨t', ht', hphase⟩ := h.phase
  obtain rfl := Option.some.inj (ht.symm.trans ht')
  exact hphase

/-- Who is next waits for those that have the lock. -/
theorem Orderly.waitsFor_head (h : w.Orderly) {node : PeerId} {i j : ℕ} {rest : List ℕ}
    {t : Activity X} (hqueue : w.queue node = i :: rest) (ht : w.activities[i]? = some t)
    (hwaits : w.WaitsFor i j) : ∃ t' : Activity X, w.activities[j]? = some t' ∧ t'.node = node ∧
      t'.phase.holds = true ∧ (t.operation.writes = true ∨ t'.operation.writes = true) := by
  have hhead : i ∈ w.queue node := by
    rw [hqueue]
    exact List.mem_cons_self
  obtain ⟨hnode, hphase⟩ := h.of_mem ht hhead
  cases hwaits with
  | turn hqueued hj =>
    obtain ⟨t₀, ht₀, rfl, -⟩ := hqueued
    obtain rfl := Option.some.inj (ht.symm.trans ht₀)
    rw [hnode, hqueue, List.takeWhile_cons_of_neg (by simp)] at hj
    exact nomatch hj
  | lock ht₀ _ ht' hnode' hholds hwrites =>
    obtain rfl := Option.some.inj (ht.symm.trans ht₀)
    exact ⟨_, ht', hnode'.trans hnode, hholds, hwrites⟩
  | reply ht₀ hphase' _ _ =>
    obtain rfl := Option.some.inj (ht.symm.trans ht₀)
    exact nomatch hphase.symm.trans hphase'

/-! ## Deadlocks -/

/-- What a request of a client waits for in a deadlock waits for a lock. -/
theorem Orderly.callee (h : w.Orderly) (htrack : w.Tracked) {s : Set ℕ}
    (hs : Deadlocked w.WaitsFor s) {i j : ℕ} (hi : i ∈ s) {t : Activity X}
    (ht : w.activities[i]? = some t) (hphase : t.phase = .waiting j) :
    j ∈ s ∧ ∃ t' : Activity X, w.activities[j]? = some t' ∧ t'.operation.internal = true ∧
      t'.phase = .queued := by
  obtain ⟨⟨k, hk⟩, hclosed⟩ := hs.2 i hi
  have hj : j ∈ s := by
    obtain hqueued | hwaiting := hk.phase_of ht
    · exact nomatch hqueued.symm.trans hphase
    · obtain rfl := Phase.waiting.inj (hphase.symm.trans hwaiting)
      exact hclosed _ hk
  obtain ⟨-, -, t', ht', hinternal⟩ := h.caller htrack ht hphase
  obtain ⟨l, hl⟩ := (hs.2 j hj).1
  obtain hqueued | hwaiting := hl.phase_of ht'
  · exact ⟨hj, t', ht', hinternal, hqueued⟩
  · have hnot := (h.caller htrack ht' hwaiting).2.1
    rw [hinternal] at hnot
    exact nomatch hnot

/-- **In a deadlock** some nodes are blocked. -/
theorem Orderly.exists_blocked (h : w.Orderly) (htrack : w.Tracked) {s : Set ℕ}
    (hs : Deadlocked w.WaitsFor s) : ∃ nodes, w.Blocked nodes := by
  refine ⟨{node | ∃ i ∈ s, w.QueuedAt node i}, ?_, ?_⟩
  · obtain ⟨i, hi⟩ := hs.1
    obtain ⟨j, hwaits⟩ := (hs.2 i hi).1
    obtain ⟨t, ht, hqueued | hwaiting⟩ := hwaits.phase
    · exact ⟨t.node, i, hi, t, ht, rfl, hqueued⟩
    · obtain ⟨hj, t', ht', -, hqueued⟩ := h.callee htrack hs hi ht hwaiting
      exact ⟨t'.node, j, hj, t', ht', rfl, hqueued⟩
  · rintro node ⟨i, hi, hqueued⟩
    -- the first one in the queue is part of the deadlock
    obtain ⟨k, rest, hqueue⟩ : ∃ k rest, w.queue node = k :: rest :=
      List.exists_cons_of_ne_nil (List.ne_nil_of_mem ((h.mem_queue node i).mpr hqueued))
    have hhead : w.QueuedAt node k := by
      rw [← h.mem_queue, hqueue]
      exact List.mem_cons_self
    have hk : k ∈ s := by
      obtain rfl | hki := eq_or_ne k i
      · exact hi
      · refine (hs.2 i hi).2 k (.turn hqueued ?_)
        rw [hqueue, List.takeWhile_cons_of_pos (by simpa using hki)]
        exact List.mem_cons_self
    obtain ⟨t, ht, hnode, hphase⟩ := hhead
    -- those that have the lock and are part of the deadlock do not write
    have hholder : ∀ j ∈ s, ∀ t' : Activity X, w.activities[j]? = some t' →
        t'.phase.holds = true → ∃ m, t'.phase = .waiting m := by
      intro j hj t' ht' hholds
      obtain ⟨m, hm⟩ := (hs.2 j hj).1
      obtain hqueued' | hwaiting := hm.phase_of ht'
      · rw [hqueued'] at hholds
        exact nomatch hholds
      · exact ⟨m, hwaiting⟩
    obtain ⟨⟨j, hwaits⟩, hclosed⟩ := hs.2 k hk
    obtain ⟨t', ht', hnode', hholds, hwrites⟩ := h.waitsFor_head hqueue ht hwaits
    have hwriter : t.operation.writes = true := by
      refine hwrites.resolve_right fun hwrites ↦ ?_
      obtain ⟨m, hwaiting⟩ := hholder j (hclosed j hwaits) t' ht' hholds
      rw [(h.caller htrack ht' hwaiting).1] at hwrites
      exact nomatch hwrites
    refine ⟨⟨k, t, by rw [hqueue]; rfl, ht, hwriter⟩, ⟨j, t', ht', hnode', hholds⟩, ?_⟩
    intro l c hc hcnode hcholds
    have hl : l ∈ s :=
      hclosed l (.lock ht hphase hc (hcnode.trans hnode.symm) hcholds (Or.inl hwriter))
    obtain ⟨m, hwaiting⟩ := hholder l hl c hc hcholds
    obtain ⟨hm, c', hc', hinternal, hcphase⟩ := h.callee htrack hs hl hc hwaiting
    exact ⟨m, c', hwaiting, hc', hinternal, hcphase, m, hm, c', hc', rfl, hcphase⟩

/-- **Blocked nodes** are a deadlock of everything that has their locks or waits for them. -/
theorem Orderly.deadlocked (h : w.Orderly) {nodes : Set PeerId} (hblocked : w.Blocked nodes) :
    Deadlocked w.WaitsFor {i | ∃ node ∈ nodes, w.QueuedAt node i ∨ w.HoldsAt node i} := by
  obtain ⟨⟨node₀, hnode₀⟩, hall⟩ := hblocked
  refine ⟨?_, ?_⟩
  · obtain ⟨-, ⟨i, hi⟩, -⟩ := hall node₀ hnode₀
    exact ⟨i, node₀, hnode₀, Or.inr hi⟩
  rintro i ⟨node, hnode, hqueued | ⟨t, ht, htnode, hholds⟩⟩
  · obtain ⟨⟨k, t, hhead, ht, hwrites⟩, ⟨j, t', ht', hnode', hholds⟩, -⟩ := hall node hnode
    have hk : k ∈ w.queue node := List.mem_of_mem_head? hhead
    obtain ⟨hknode, hkphase⟩ := h.of_mem ht hk
    refine ⟨?_, fun b hb ↦ ?_⟩
    · obtain rfl | hki := eq_or_ne k i
      · exact ⟨j, .lock ht hkphase ht' (hnode'.trans hknode.symm) hholds (Or.inl hwrites)⟩
      · refine ⟨k, .turn hqueued ?_⟩
        cases hqueue : w.queue node with
        | nil => rw [hqueue] at hk; exact nomatch hk
        | cons k' rest =>
          rw [hqueue] at hhead
          obtain rfl := Option.some.inj hhead
          rw [List.takeWhile_cons_of_pos (by simpa using hki)]
          exact List.mem_cons_self
    · obtain ⟨c, hc, hcnode, hcphase⟩ := hqueued
      refine ⟨node, hnode, ?_⟩
      cases hb with
      | turn hqueued' hmem =>
        obtain ⟨c', hc', rfl, -⟩ := hqueued'
        obtain rfl := Option.some.inj (hc.symm.trans hc')
        rw [hcnode] at hmem
        exact Or.inl ((h.mem_queue node b).mp ((List.takeWhile_prefix _).subset hmem))
      | lock hc' _ hb' hbnode hbholds _ =>
        obtain rfl := Option.some.inj (hc.symm.trans hc')
        exact Or.inr ⟨_, hb', hbnode.trans hcnode, hbholds⟩
      | reply hc' hwaiting _ _ =>
        obtain rfl := Option.some.inj (hc.symm.trans hc')
        exact nomatch hcphase.symm.trans hwaiting
  · obtain ⟨-, -, hwait⟩ := hall node hnode
    obtain ⟨j, t', hwaiting, ht', -, hphase', hnode'⟩ := hwait i t ht htnode hholds
    refine ⟨⟨j, .reply ht hwaiting ht' fun hfinished ↦ nomatch hphase'.symm.trans hfinished⟩,
      fun b hb ↦ ?_⟩
    obtain hqueued | hwaiting' := hb.phase_of ht
    · exact nomatch hwaiting.symm.trans hqueued
    · obtain rfl := Phase.waiting.inj (hwaiting.symm.trans hwaiting')
      exact ⟨t'.node, hnode', Or.inl ⟨t', ht', rfl, hphase'⟩⟩

end Workload

open Workload in
/-- **When a cluster gets stuck.**  After any run, operations wait for each other and for nothing
else exactly if there are nodes at each of which a writer is next for the lock, while those that
have it are requests that wait for one of these nodes. -/
theorem deadlock_iff (l : List (Action X)) :
    (∃ s, Deadlocked (l.foldl step idle).WaitsFor s) ↔ ∃ nodes, (l.foldl step idle).Blocked nodes :=
  ⟨fun ⟨_, hs⟩ ↦ (orderly_run l).exists_blocked (tracked_run l) hs,
    fun ⟨_, hnodes⟩ ↦ ⟨_, (orderly_run l).deadlocked hnodes⟩⟩

/-! ## Two nodes that get stuck -/

namespace Workload

/-- The table of a node with one collection, which has a remote at another node. -/
def listing (peer : PeerId) : TableOfContent Crates.bool :=
  ⟨[⟨"c", (Collection.init "c" ⟨""⟩ ["storage", "collections", "c"] .insertion).addRemoteShards
    peer⟩].toAList⟩

/-- Two nodes that list each other are asked for all points of the collection, and both have come as
far as to call the other when somebody wants to create another collection at each of them. -/
def crossing : List (Action Crates.bool) :=
  [.arrive 101 (.retrievePoints "c" none), .enqueue 0, .grant 101 (listing 102) .insertion,
    .answer 0 (.ok []), .arrive 102 (.retrievePoints "c" none), .enqueue 1,
    .grant 102 (listing 101) .insertion, .answer 1 (.ok []),
    .arrive 101 .createCollection, .enqueue 2,
    .arrive 102 .createCollection, .enqueue 3, .send 0 102, .enqueue 4, .send 1 101, .enqueue 5]

/-- How far everything has got then. -/
def crossed : List (PeerId × Phase × Bool × Bool) :=
  [(101, .waiting 4, false, false), (102, .waiting 5, false, false), (101, .queued, false, true),
    (102, .queued, false, true), (102, .queued, true, false), (101, .queued, true, false)]

theorem crossing_activities : (crossing.foldl step idle).activities.map
    (fun t ↦ (t.node, t.phase, t.operation.internal, t.operation.writes)) = crossed := by
  decide +kernel

/-- Each of the activities is there. -/
theorem exists_crossed {i : ℕ} {node : PeerId} {phase : Phase} {internal writes : Bool}
    (h : crossed[i]? = some (node, phase, internal, writes)) :
    ∃ t : Activity Crates.bool, (crossing.foldl step idle).activities[i]? = some t ∧ t.node = node ∧
      t.phase = phase ∧ t.operation.internal = internal ∧ t.operation.writes = writes := by
  rw [← crossing_activities, List.getElem?_map, Option.map_eq_some_iff] at h
  obtain ⟨t, ht, heq⟩ := h
  simp only [Prod.mk.injEq] at heq
  exact ⟨t, ht, heq⟩

/-- The locks are held by the two lists. -/
theorem crossing_holder {i : ℕ} {t : Activity Crates.bool}
    (h : (crossing.foldl step idle).activities[i]? = some t) (hholds : t.phase.holds = true) :
    t.node = 101 ∧ t.phase = .waiting 4 ∨ t.node = 102 ∧ t.phase = .waiting 5 := by
  have hi : crossed[i]? = some (t.node, t.phase, t.operation.internal, t.operation.writes) := by
    rw [← crossing_activities, List.getElem?_map, h, Option.map_some]
  have hmem := List.mem_of_getElem? hi
  have hqueued : t.phase ≠ .queued := fun hqueued ↦ by
    rw [hqueued] at hholds
    exact nomatch hholds
  simp only [crossed, List.mem_cons, Prod.mk.injEq, hqueued, false_and, and_false, or_false,
    List.not_mem_nil] at hmem
  exact hmem.imp (fun h ↦ ⟨h.1, h.2.1⟩) fun h ↦ ⟨h.1, h.2.1⟩

/-- The two nodes are blocked. -/
theorem blocked_crossing : (crossing.foldl step idle).Blocked {101, 102} := by
  have hqueue : (crossing.foldl step idle).queue 101 = [2, 5] ∧
      (crossing.foldl step idle).queue 102 = [3, 4] := by decide +kernel
  obtain ⟨t₀, ht₀, hnode₀, hphase₀, -⟩ := @exists_crossed 0 _ _ _ _ rfl
  obtain ⟨t₁, ht₁, hnode₁, hphase₁, -⟩ := @exists_crossed 1 _ _ _ _ rfl
  obtain ⟨t₂, ht₂, -, -, -, hwrites₂⟩ := @exists_crossed 2 _ _ _ _ rfl
  obtain ⟨t₃, ht₃, -, -, -, hwrites₃⟩ := @exists_crossed 3 _ _ _ _ rfl
  obtain ⟨t₄, ht₄, hnode₄, hphase₄, hinternal₄, -⟩ := @exists_crossed 4 _ _ _ _ rfl
  obtain ⟨t₅, ht₅, hnode₅, hphase₅, hinternal₅, -⟩ := @exists_crossed 5 _ _ _ _ rfl
  refine ⟨⟨101, Or.inl rfl⟩, ?_⟩
  rintro node (rfl | rfl)
  · refine ⟨⟨2, t₂, by rw [hqueue.1]; rfl, ht₂, hwrites₂⟩,
      ⟨0, t₀, ht₀, hnode₀, by rw [hphase₀]; rfl⟩, fun i t ht hnode hholds ↦ ?_⟩
    obtain ⟨-, hphase⟩ | ⟨hother, -⟩ := crossing_holder ht hholds
    · exact ⟨4, t₄, hphase, ht₄, hinternal₄, hphase₄, Or.inr hnode₄⟩
    · exact absurd (hnode.symm.trans hother) (by decide)
  · refine ⟨⟨3, t₃, by rw [hqueue.2]; rfl, ht₃, hwrites₃⟩,
      ⟨1, t₁, ht₁, hnode₁, by rw [hphase₁]; rfl⟩, fun i t ht hnode hholds ↦ ?_⟩
    obtain ⟨hother, -⟩ | ⟨-, hphase⟩ := crossing_holder ht hholds
    · exact absurd (hnode.symm.trans hother) (by decide)
    · exact ⟨5, t₅, hphase, ht₅, hinternal₅, hphase₅, Or.inl hnode₅⟩

end Workload

open Workload in
/-- **Two nodes can get stuck**, with no more than a list at each of them and a writer behind it. -/
theorem not_deadlock_free :
    ¬ ∀ l : List (Action Crates.bool), ¬ ∃ s, Deadlocked (l.foldl step idle).WaitsFor s :=
  fun h ↦ h crossing ⟨_, (orderly_run crossing).deadlocked blocked_crossing⟩

end Smoldb
