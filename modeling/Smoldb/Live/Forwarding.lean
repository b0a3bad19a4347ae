import Smoldb.Cluster.Replication
import Smoldb.Live.Homes

/-!
# Calls between nodes

A request of a client calls other nodes for the remote shards of its collection, and at each of them
a handler does the work.  `Linked` is how the two hang together over time: what a request waits for
is the handler of its call, and a call that has returned a success has had a handler that was done.
`TakenUp` says that a handler is that of a call, by the event that it came in with.

Two theorems about runs from an empty cluster stand on it.

* `handlers_call_nobody`: a handler works on the collection of the same name and calls nobody
  itself, so calls make one hop and do not wait for each other in turn.  The invariant is `OneHop`.
  If all calls lead to the nodes they are meant for, the handler is at another node than the request
  (`Elsewhere`).  Without that it need not be: the table of addresses is fixed, so a node whose own
  address is in it under another id calls itself.
* `nothing_made_up`: calls carry nothing but what a client has sent, so that is all there is in a
  cluster.  The invariant is `AllSent`.  A request has the points of a client, or is a handler with
  points that have been sent on, which is at most once; and what is sent on is what was sent with
  its payload written to JSON and read again, under the same id.

Both invariants are about all requests of all homes, so their steps go through `Sound.request_step`,
in `Live/Homes.lean`: after a step, a request was there before, and has at most made a call, or it
has just come in, from a client or with a call.
-/

set_option autoImplicit false

namespace Smoldb

variable {V : Type} {X : Crates V} {U : UriCrate} {J : ConfigJson}

/-- The request does not call other nodes any more. -/
def LiveRequest.StaysLocal (r : LiveRequest V) : Prop :=
  ∀ q, r.rest = some q → q.Calls PointCall.StaysLocal

namespace LiveCollection

variable {l l' : LiveCollection X} {j : ℕ} {r : LiveRequest V}

theorem staysLocal_step (hr : l.requests[j]? = some r) (h : r.StaysLocal) (e : LiveEvent X) :
    ∃ r', (l.step e).requests[j]? = some r' ∧ r'.StaysLocal := by
  have hlt := (List.getElem?_eq_some_iff.mp hr).1
  obtain ⟨r', hstep, -⟩ | ⟨c, hstep, -⟩ | ⟨i, asked, op, next, reply, applied, hi, -, hstep⟩ |
    ⟨recovered, -, hstep⟩ := l.step_cases e
  · exact ⟨r, by rw [hstep, List.getElem?_append_left hlt]; exact hr, h⟩
  · exact ⟨r, by rw [hstep]; exact hr, h⟩
  · by_cases hij : i = j
    · subst hij
      obtain rfl := Option.some.inj (hr.symm.trans hi)
      refine ⟨⟨asked, some (next reply)⟩, by rw [hstep]; simp [hlt], fun q hq ↦ ?_⟩
      rw [← Option.some.inj hq]
      exact (h _ rfl).2 reply
    · exact ⟨r, by rw [hstep, List.getElem?_set_ne hij]; exact hr, h⟩
  · exact ⟨r.stop, by rw [hstep, List.getElem?_map, hr]; rfl, fun q hq ↦ h q (rest_stop hq)⟩

theorem Follows.staysLocal (hfollows : l.Follows l') (hr : l.requests[j]? = some r)
    (h : r.StaysLocal) : ∃ r', l'.requests[j]? = some r' ∧ r'.StaysLocal := by
  obtain ⟨events, -, rfl⟩ := hfollows
  induction events using List.reverseRecOn with
  | nil => exact ⟨r, hr, h⟩
  | append_singleton events e ih =>
    obtain ⟨r', hr', h'⟩ := ih
    rw [run_append]
    exact staysLocal_step hr' h' e

/-- An upsert of another node calls nobody. -/
theorem staysLocal_upsert (c : Collection X) (order : IterOrder (ShardId × List PointId))
    (points : List (Point V)) : (LiveRequest.upsert c order points true).StaysLocal := by
  intro q hq
  rw [← Option.some.inj hq]
  exact (c.calls_upsertSteps_local order points).handle (fun _ ↦ trivial) fun _ ↦ trivial

end LiveCollection

namespace LiveCluster

/-- A state that a cluster can get into. -/
def Reached (U : UriCrate) (J : ConfigJson) (cluster : LiveCluster X) : Prop :=
  ∃ events, AllProper U J events (empty X) ∧ (empty X).run U events = cluster

variable {self : LiveCluster X} {e : ClusterEvent X} {a b : Address} {home : Home X}
  {peer : PeerId} {name : CollectionName}

theorem Reached.sound (h : Reached U J self) : self.Sound U J := by
  obtain ⟨events, hproper, rfl⟩ := h
  exact sound_empty.run hproper

theorem run_concat (events : List (ClusterEvent X)) (e : ClusterEvent X) :
    self.run U (events ++ [e]) = (self.run U events).step U e := run_append events [e]

/-! ## Calls between nodes -/

/-- Something happens to the collection in a home, and what it is like when it does. -/
theorem Touches.exists_step {i : ℕ} {l : LiveCollection X} (ht : self.Touches U e i home l) :
    ∃ (l₀ : LiveCollection X) (e' : LiveEvent X), l = l₀.step e' ∧
      l₀.requests = home.live.requests ∧ l₀.history = home.live.history ∧
      ∀ j outcome, e' = .advance j outcome →
        ∀ s shard points, self.pending ⟨i, j⟩ = some (.upsertRemote s shard points) →
          (self.step U e).waits ⟨i, j⟩ = none ∧ (outcome.remote = .ok () →
            ∃ b asked, self.waits ⟨i, j⟩ = some b ∧
              self.request b = some ⟨asked, some (.ok .upserted)⟩) := by
  cases ht with
  | rests => exact ⟨home.live, .become home.live.collection, rfl, rfl, rfl, by simp⟩
  | @upserts c order points => exact ⟨home.live.step (.become c), _, rfl, rfl, rfl, by simp⟩
  | @reads c order ids => exact ⟨home.live.step (.become c), _, rfl, rfl, rfl, by simp⟩
  | @hears c => exact ⟨home.live.step (.become c), _, rfl, rfl, rfl, by simp⟩
  | halts => exact ⟨home.live, _, rfl, rfl, rfl, by simp⟩
  | calls j outcome h =>
    refine ⟨home.live, _, rfl, rfl, rfl, fun j' outcome' heq ↦ ?_⟩
    obtain ⟨rfl, rfl⟩ := LiveEvent.advance.inj heq
    exact h

/-- A request has nothing else to wait for after a step than before, unless it has made its call. -/
theorem Sound.pending_step (h : self.Sound U J) {op : PointCall V}
    (hr : (self.request a).isSome) (hop : (self.step U e).pending a = some op) :
    self.pending a = some op ∨ ∃ op', self.pending a = some op' ∧
      ∀ s shard points, op' = .upsertRemote s shard points → (self.step U e).waits a = none := by
  obtain ⟨r, hr⟩ := Option.isSome_iff_exists.mp hr
  obtain ⟨home, hhome, hr⟩ := Option.bind_eq_some_iff.mp hr
  obtain ⟨l, hl, ht⟩ := step_home (U := U) h.housed e hhome
  obtain ⟨l₀, e', rfl, hrequests, -, hcalls⟩ := ht.exists_step
  have hwas : ∀ {op asked next}, l₀.requests[a.request]? = some ⟨asked, some (.call op next)⟩ →
      self.pending a = some op := fun h ↦
    pending_eq_some_iff.mpr ⟨_, _, by rw [request, hhome, Option.bind_some, ← hrequests]; exact h⟩
  have hlt : a.request < l₀.requests.length := hrequests ▸ (List.getElem?_eq_some_iff.mp hr).1
  obtain ⟨asked, next, hrequest⟩ := pending_eq_some_iff.mp hop
  rw [request, hl] at hrequest
  obtain hold | ⟨outcome, heq, asked', op', next', hj⟩ := LiveCollection.rest_step hlt hrequest
  · exact Or.inl (hwas hold)
  · refine Or.inr ⟨op', hwas hj, fun s shard points hremote ↦ ?_⟩
    exact (hcalls a.request outcome heq s shard points (hremote ▸ hwas hj)).1

/-- The call of a request has been taken up by a handler since some time. -/
def TakenUp (U : UriCrate) (start : LiveCluster X) (since : List (ClusterEvent X)) (a : Address)
    (s : ShardId) (shard : RemoteShard) (points : List (Point V)) (b : Address) : Prop :=
  ∃ A B connect order peer sent, since = A ++ .send a connect order :: B ∧
    (start.run U A).waits a = none ∧
    (start.run U A).pending a = some (.upsertRemote s shard points) ∧
    (start.run U A).call connect shard points = some (peer, sent) ∧
    (start.run U A).next peer shard.collection = some b

theorem TakenUp.concat {since : List (ClusterEvent X)} {s : ShardId} {shard : RemoteShard}
    {points : List (Point V)} (h : TakenUp U self since a s shard points b)
    (e : ClusterEvent X) : TakenUp U self (since ++ [e]) a s shard points b := by
  obtain ⟨A, B, connect, order, peer, sent, rfl, h⟩ := h
  exact ⟨A, B ++ [e], connect, order, peer, sent, by simp, h⟩

/-- Since some time, what a request waits for is the handler of its call, and each of its calls that
has returned a success has had a handler that was done. -/
structure Linked (U : UriCrate) (start : LiveCluster X) (since : List (ClusterEvent X))
    (a : Address) : Prop where
  waits : ∀ b, (start.run U since).waits a = some b →
    ∃ s shard points, TakenUp U start since a s shard points b ∧
      ∀ op, (start.run U since).pending a = some op → op = .upsertRemote s shard points
  called : ∀ home, (start.run U since).homes[a.home]? = some home → ∀ s shard points applied,
    .called a.request (.upsertRemote s shard points) (.ok ()) applied ∈ home.live.history →
      ∃ b asked, TakenUp U start since a s shard points b ∧
        (start.run U since).request b = some ⟨asked, some (.ok .upserted)⟩

/-- A request that has not come in has made no calls. -/
theorem Sound.linked_nil (h : self.Sound U J) (hnone : self.request a = none) :
    Linked U self [] a where
  waits b hb := by
    have hsome := h.waits a b hb
    rw [hnone] at hsome
    exact absurd hsome (by simp)
  called home hhome s shard points applied hmem := by
    obtain ⟨params, path, order, hreached⟩ := (h.homes _ home hhome).reached
    obtain ⟨r, hr, -⟩ := hreached.kept.sent _ _ _ _ hmem
    have hrequest : self.request a = some r := by
      rw [request, show self.homes[a.home]? = some home from hhome]
      exact hr
    rw [hnone] at hrequest
    exact absurd hrequest (by simp)

theorem Linked.step {since : List (ClusterEvent X)} (hlinked : Linked U self since a)
    (h : (self.run U since).Sound U J) (he : (self.run U since).Proper J e)
    (hhome : (self.run U since).homes[a.home]? = some home) :
    Linked U self (since ++ [e]) a where
  waits b hb := by
    rw [run_concat] at hb ⊢
    obtain hold | ⟨hnone, connect, order, s, shard, points, peer, sent, rfl, hpending, hcall,
      hnext⟩ := waits_step (U := U) hb
    · obtain ⟨s, shard, points, htaken, honly⟩ := hlinked.waits b hold
      refine ⟨s, shard, points, htaken.concat e, fun op hop ↦ ?_⟩
      obtain hop | ⟨op', hop', hgone⟩ := h.pending_step (h.waits a b hold) hop
      · exact honly op hop
      · have hnone := hgone s shard points (honly op' hop')
        rw [hnone] at hb
        exact absurd hb (by simp)
    · refine ⟨s, shard, points, ⟨since, [], connect, order, peer, sent, rfl, hnone, hpending, hcall,
        hnext⟩, fun op hop ↦ ?_⟩
      obtain ⟨asked, next, hrequest⟩ := pending_eq_some_iff.mp hpending
      obtain hop | ⟨op', hop', hgone⟩ := h.pending_step (by rw [hrequest]; rfl) hop
      · exact Option.some.inj (hop.symm.trans hpending)
      · have hnone := hgone s shard points (Option.some.inj (hop'.symm.trans hpending))
        rw [hnone] at hb
        exact absurd hb (by simp)
  called home' hhome' s shard points applied hmem := by
    rw [run_concat] at hhome' ⊢
    obtain ⟨l, hl, ht⟩ := step_home (U := U) h.housed e hhome
    obtain rfl := Option.some.inj (hl.symm.trans hhome')
    obtain ⟨l₀, e', rfl, hrequests, hhistory, hcalls⟩ := ht.exists_step
    obtain hold | ⟨outcome, heq, hanswer, asked, next, hj⟩ := LiveCollection.mem_history_step hmem
    · rw [hhistory] at hold
      obtain ⟨b, asked, htaken, hdone⟩ := hlinked.called home hhome s shard points applied hold
      exact ⟨b, asked, htaken.concat e, h.done_step he hdone⟩
    · have hpending : (self.run U since).pending a = some (.upsertRemote s shard points) :=
        pending_eq_some_iff.mpr ⟨asked, next, by
          rw [request, hhome, Option.bind_some, ← hrequests]
          exact hj⟩
      obtain ⟨b, asked', hb, hdone⟩ := (hcalls a.request outcome heq s shard points hpending).2
        (Prod.mk.inj hanswer).1.symm
      obtain ⟨s', shard', points', htaken, honly⟩ := hlinked.waits b hb
      obtain ⟨rfl, rfl, rfl⟩ := PointCall.upsertRemote.inj (honly _ hpending)
      exact ⟨b, asked', htaken.concat e, h.done_step he hdone⟩

/-- **A success is that of a handler**, for every request that comes in. -/
theorem Sound.linked (h : self.Sound U J) {since : List (ClusterEvent X)}
    (hproper : AllProper U J since self) (hhome : self.homes[a.home]? = some home)
    (hnone : self.request a = none) : Linked U self since a := by
  induction since using List.reverseRecOn with
  | nil => exact h.linked_nil hnone
  | append_singleton since e ih =>
    obtain ⟨hsince, he, -⟩ := allProper_append.mp hproper
    obtain ⟨l, hl, -⟩ := h.follows_run hsince hhome
    exact (ih hsince).step (h.run hsince) he hl

/-- Where a call leads to, and what is sent there. -/
theorem call_eq_some {connect : Uri → Except String PeerId} {shard : RemoteShard}
    {points sent : List (Point V)} (hcall : self.call connect shard points = some (peer, sent)) :
    sent = resent X points ∧ ∃ uri, shard.currentAddress shard.getChannelService = .ok uri ∧
      connect uri = .ok peer := by
  rw [call] at hcall
  split at hcall
  · exact absurd hcall (by simp)
  · rename_i uri huri
    rw [decodePoints_toGrpc] at hcall
    cases hconnect : connect uri with
    | error e =>
      rw [hconnect] at hcall
      exact absurd hcall (by simp)
    | ok peer' =>
      rw [hconnect] at hcall
      obtain ⟨rfl, rfl⟩ := Prod.mk.inj (Option.some.inj hcall)
      exact ⟨rfl, uri, huri, hconnect⟩

/-- Where the next request to a collection comes in. -/
theorem Sound.of_next (h : self.Sound U J) (hnext : self.next peer name = some a) :
    ∃ c home, self.collection peer name = some c ∧ self.disk peer name = some a.home ∧
      self.homes[a.home]? = some home ∧ home.peer = peer ∧ home.name = name ∧
      a.request = home.live.requests.length ∧ ∀ e : LiveEvent X,
        (self.arrive peer name e).homes[a.home]?
          = some { home with live := (home.live.step (.become c)).step e } := by
  rw [next] at hnext
  cases hc : self.collection peer name with
  | none =>
    rw [hc] at hnext
    exact absurd hnext (by simp)
  | some c =>
    cases hdisk : self.disk peer name with
    | none =>
      rw [hc, hdisk] at hnext
      exact absurd hnext (by simp)
    | some i =>
      rw [hc, hdisk] at hnext
      obtain ⟨home, hhome, rfl⟩ := Option.map_eq_some_iff.mp hnext
      obtain ⟨home', hhome', hpeer, hname⟩ := h.housed peer name i hdisk
      obtain rfl := Option.some.inj (hhome'.symm.trans hhome)
      refine ⟨c, home', rfl, rfl, hhome, hpeer, hname, rfl, fun e ↦ ?_⟩
      rw [arrive, hc, hdisk]
      simp only [getElem?_inHome, hhome, Option.map_some, if_true]

theorem homes_send {connect : Uri → Except String PeerId}
    (order : IterOrder (ShardId × List PointId)) {s : ShardId} {shard : RemoteShard}
    {points sent : List (Point V)} (hwaits : self.waits a = none)
    (hpending : self.pending a = some (.upsertRemote s shard points))
    (hcall : self.call connect shard points = some (peer, sent))
    (hnext : self.next peer shard.collection = some b) :
    (self.step U (.send a connect order)).homes
      = (self.arrive peer shard.collection (.upsert order sent true)).homes := by
  rw [step]
  simp only [hwaits, hpending, hcall, hnext]

/-- What the handler of a call is. -/
theorem TakenUp.handler {since : List (ClusterEvent X)} {s : ShardId} {shard : RemoteShard}
    {points : List (Point V)} (htaken : TakenUp U self since a s shard points b)
    (hhonest : ∀ e ∈ since, e.Honest) : ∃ A B connect order,
      since = A ++ .send a connect order :: B ∧
      (self.run U A).next shard.peerId shard.collection = some b ∧
      ((self.run U A).step U (.send a connect order)).homes
        = ((self.run U A).arrive shard.peerId shard.collection
          (.upsert order (resent X points) true)).homes := by
  obtain ⟨A, B, connect, order, peer, sent, rfl, hwaits, hpending, hcall, hnext⟩ := htaken
  have hstep := homes_send (U := U) order hwaits hpending hcall hnext
  obtain ⟨rfl, uri, huri, hconnect⟩ := call_eq_some hcall
  obtain rfl := hhonest (.send a connect order) (by simp) shard uri peer huri hconnect
  exact ⟨A, B, connect, order, rfl, hnext, hstep⟩

/-! ## Handlers call nobody -/

/-- The handler that a request waits for, if there is one, calls no other node and so waits for
nobody; it works on the collection of the same name. -/
def OneHop (self : LiveCluster X) : Prop :=
  ∀ a b, self.waits a = some b → self.waits b = none ∧
    (∃ r, self.request b = some r ∧ r.StaysLocal) ∧
    ∃ home home', self.homes[a.home]? = some home ∧ self.homes[b.home]? = some home' ∧
      home'.name = home.name

/-- The handler that a request waits for is at another node. -/
def Elsewhere (self : LiveCluster X) : Prop :=
  ∀ a b, self.waits a = some b → ∀ home home', self.homes[a.home]? = some home →
    self.homes[b.home]? = some home' → home'.peer ≠ home.peer

theorem not_pending_of_staysLocal {r : LiveRequest V} (hr : self.request b = some r)
    (h : r.StaysLocal) (s : ShardId) (shard : RemoteShard) (points : List (Point V)) :
    self.pending b ≠ some (.upsertRemote s shard points) := by
  intro hpending
  obtain ⟨asked, next, hrequest⟩ := pending_eq_some_iff.mp hpending
  obtain rfl := Option.some.inj (hrequest.symm.trans hr)
  exact (h _ rfl).1

/-- A collection has the node and the name that it had before a step. -/
theorem Sound.home_step (h : self.Sound U J) (he : self.Proper J e) {i : ℕ} {home home' : Home X}
    (hi : self.homes[i]? = some home) (hi' : (self.step U e).homes[i]? = some home') :
    home'.peer = home.peer ∧ home'.name = home.name := by
  obtain ⟨l, hl, -⟩ := h.follows_step (U := U) he hi
  obtain rfl := Option.some.inj (hl.symm.trans hi')
  exact ⟨rfl, rfl⟩

/-- The collection of a request is still there after a step. -/
theorem Sound.exists_home_step (h : self.Sound U J) (he : self.Proper J e) {i : ℕ} {home : Home X}
    (hi : self.homes[i]? = some home) :
    ∃ home', (self.step U e).homes[i]? = some home' ∧ home'.name = home.name := by
  obtain ⟨l, hl, -⟩ := h.follows_step (U := U) he hi
  exact ⟨_, hl, rfl⟩

theorem Sound.oneHop_step (h : self.Sound U J) (hone : self.OneHop) (he : self.Proper J e) :
    (self.step U e).OneHop := by
  have hhomes : ∀ {i j : ℕ} {home home' : Home X}, self.homes[i]? = some home →
      self.homes[j]? = some home' → home'.name = home.name →
      ∃ home home', (self.step U e).homes[i]? = some home ∧
        (self.step U e).homes[j]? = some home' ∧ home'.name = home.name := by
    intro i j home home' hi hj hname
    obtain ⟨home₁, hi₁, hname₁⟩ := h.exists_home_step (U := U) he hi
    obtain ⟨home₂, hj₂, hname₂⟩ := h.exists_home_step (U := U) he hj
    exact ⟨home₁, home₂, hi₁, hj₂, by rw [hname₁, hname₂, hname]⟩
  intro a b hb
  obtain hb | ⟨hwaits, connect, order, s, shard, points, peer, sent, rfl, hpending, hcall,
    hnext⟩ := waits_step hb
  · obtain ⟨hnone, ⟨r, hr, hlocal⟩, home, home', hhome, hhome', hname⟩ := hone a b hb
    refine ⟨?_, ?_, hhomes hhome hhome' hname⟩
    · rw [Option.eq_none_iff_forall_ne_some]
      intro d hd
      obtain hd | ⟨-, _, _, s, shard, points, _, _, -, hpending, -⟩ := waits_step hd
      · rw [hnone] at hd
        exact absurd hd (by simp)
      · exact not_pending_of_staysLocal hr hlocal s shard points hpending
    · obtain ⟨home, hhome, hr⟩ := Option.bind_eq_some_iff.mp hr
      obtain ⟨l, hl, hfollows⟩ := h.follows_step (U := U) he hhome
      obtain ⟨r', hr', hlocal'⟩ := hfollows.staysLocal hr hlocal
      exact ⟨r', by rw [request, hl]; exact hr', hlocal'⟩
  · -- the handler has just come in
    have hstep := homes_send (U := U) order hwaits hpending hcall hnext
    obtain ⟨rfl, -⟩ := call_eq_some hcall
    obtain ⟨c, home', -, -, hhome', -, hname', hrequest, harrive⟩ := h.of_next hnext
    obtain ⟨asked, next, hr⟩ := pending_eq_some_iff.mp hpending
    obtain ⟨home, hhome, hr⟩ := Option.bind_eq_some_iff.mp hr
    obtain ⟨hname, -⟩ := ((h.homes _ home hhome).forwards _ (List.mem_of_getElem? hr) _ rfl).1
    have hfresh : self.request b = none := by
      rw [request, hhome', hrequest]
      exact List.getElem?_eq_none le_rfl
    refine ⟨?_, ⟨_, ?_, LiveCollection.staysLocal_upsert c order (resent X points)⟩, ?_⟩
    · rw [Option.eq_none_iff_forall_ne_some]
      intro d hd
      obtain hd | ⟨-, _, _, _, _, _, _, _, -, hpending', -⟩ := waits_step hd
      · have hsome := h.waits b d hd
        rw [hfresh] at hsome
        exact absurd hsome (by simp)
      · obtain ⟨_, _, hr'⟩ := pending_eq_some_iff.mp hpending'
        rw [hfresh] at hr'
        exact absurd hr' (by simp)
    · rw [request, hstep, harrive, hrequest]
      exact List.getElem?_concat_length
    · exact hhomes hhome hhome' (by rw [hname', hname])

/-- Calls that lead to the peer they are meant for lead to another node, since no node has a remote
shard for itself. -/
theorem Sound.elsewhere_step (h : self.Sound U J) (hone : self.OneHop) (helse : self.Elsewhere)
    (he : self.Proper J e) (hhonest : e.Honest) : (self.step U e).Elsewhere := by
  intro a b hb home₁ home₂ hhome₁ hhome₂
  obtain hb | ⟨-, connect, order, s, shard, points, peer, sent, rfl, hpending, hcall, hnext⟩ :=
    waits_step hb
  · obtain ⟨-, -, home, home', hhome, hhome', -⟩ := hone a b hb
    rw [(h.home_step he hhome hhome₁).1, (h.home_step he hhome' hhome₂).1]
    exact helse a b hb home home' hhome hhome'
  · obtain ⟨-, uri, huri, hconnect⟩ := call_eq_some hcall
    obtain rfl := hhonest shard uri peer huri hconnect
    obtain ⟨-, home', -, -, hhome', hpeer', -⟩ := h.of_next hnext
    obtain ⟨asked, next, hr⟩ := pending_eq_some_iff.mp hpending
    obtain ⟨home, hhome, hr⟩ := Option.bind_eq_some_iff.mp hr
    obtain ⟨-, hpeer, -⟩ := ((h.homes _ home hhome).forwards _ (List.mem_of_getElem? hr) _ rfl).1
    rw [(h.home_step he hhome hhome₁).1, (h.home_step he hhome' hhome₂).1, hpeer']
    exact hpeer

theorem oneHop_run {events : List (ClusterEvent X)} (hproper : AllProper U J events (empty X)) :
    ((empty X).run U events).OneHop := by
  induction events using List.reverseRecOn with
  | nil => exact fun a b hb ↦ absurd hb (by simp [run, empty])
  | append_singleton events e ih =>
    obtain ⟨hevents, he, -⟩ := allProper_append.mp hproper
    rw [run_concat]
    exact (sound_empty.run hevents).oneHop_step (ih hevents) he

theorem elsewhere_run {events : List (ClusterEvent X)} (hproper : AllProper U J events (empty X))
    (hhonest : ∀ e ∈ events, e.Honest) : ((empty X).run U events).Elsewhere := by
  induction events using List.reverseRecOn with
  | nil => exact fun a b hb ↦ absurd hb (by simp [run, empty])
  | append_singleton events e ih =>
    obtain ⟨hevents, he, -⟩ := allProper_append.mp hproper
    rw [run_concat]
    exact (sound_empty.run hevents).elsewhere_step (oneHop_run hevents)
      (ih hevents fun e he ↦ hhonest e (List.mem_append_left _ he)) he (hhonest e (by simp))

/-- **Calls between nodes make one hop**, in every state that a cluster gets into: a request waits
for a handler of the collection of the same name, and the handler waits for nobody and will not call
anybody.  It is at another node, if calls lead to the peers they are meant for. -/
theorem handlers_call_nobody {events : List (ClusterEvent X)}
    (hproper : AllProper U J events (empty X))
    (hwaits : ((empty X).run U events).waits a = some b) :
    ((empty X).run U events).waits b = none ∧
      (∀ after s shard points, AllProper U J after ((empty X).run U events) →
        (((empty X).run U events).run U after).pending b ≠ some (.upsertRemote s shard points)) ∧
      ∃ home home', ((empty X).run U events).homes[a.home]? = some home ∧
        ((empty X).run U events).homes[b.home]? = some home' ∧ home'.name = home.name ∧
        ((∀ e ∈ events, e.Honest) → home'.peer ≠ home.peer) := by
  obtain ⟨hnone, ⟨r, hr, hlocal⟩, home, home', hhome, hhome', hname⟩ :=
    oneHop_run hproper a b hwaits
  refine ⟨hnone, fun after s shard points hafter ↦ ?_, home, home', hhome, hhome', hname,
    fun hhonest ↦ elsewhere_run hproper hhonest a b hwaits home home' hhome hhome'⟩
  obtain ⟨home, hhome, hr⟩ := Option.bind_eq_some_iff.mp hr
  obtain ⟨l, hl, hfollows⟩ := (sound_empty.run hproper).follows_run hafter hhome
  obtain ⟨r', hr', hlocal'⟩ := hfollows.staysLocal hr hlocal
  exact not_pending_of_staysLocal (by rw [request, hl]; exact hr') hlocal' s shard points

/-- A node is started and makes a collection, another one joins through it and makes it too. -/
def pairing : List (ClusterEvent Crates.bool) :=
  [.boot 101 "http://0.0.0.0:5001" ⟨∅⟩, .network (.createCollection 101 "c" "" .insertion),
    .network (.advance 101 0), .network (.join 102 "http://0.0.0.0:5002" ⟨∅⟩ 101),
    .network (.request 0), .network (.advance 101 0),
    .network (.createCollection 102 "c" "" .insertion), .network (.advance 102 0)]

/-- Two nodes with a collection. -/
def pair : LiveCluster Crates.bool := (empty Crates.bool).run .plain pairing

/-- The first request at the first node makes its calls, one of them to the second node. -/
def forwarding : List (ClusterEvent Crates.bool) :=
  [.advance ⟨0, 0⟩ none, .advance ⟨0, 0⟩ none, .send ⟨0, 0⟩ Uri.connect .insertion,
    .advance ⟨1, 0⟩ none, .advance ⟨1, 0⟩ none, .reply ⟨0, 0⟩]

/-- A node with an empty disk loads nothing. -/
theorem loads_empty (peer : PeerId) (hdisk : ∀ name, self.disk peer name = none) :
    self.Loads .plain peer ⟨∅⟩ where
  loaded := TableOfContent.loaded_empty .plain peer
  collections name := by rw [hdisk]; rfl
  shards name c i home hc := absurd hc (by simp)

theorem allProper_pairing : AllProper .plain .plain pairing (empty Crates.bool) :=
  ⟨loads_empty 101 fun _ ↦ rfl, (by decide : Path.IsFileName "c"), trivial,
    loads_empty 102 fun _ ↦ rfl, trivial, trivial, (by decide : Path.IsFileName "c"), trivial,
    trivial⟩

theorem honest_connect (order : IterOrder (ShardId × List PointId)) :
    (ClusterEvent.send a Uri.connect order : ClusterEvent X).Honest := by
  intro shard uri m haddr hconnect
  have hreaches : (Cluster.joined X "c" []).Reaches (CallEnv.over WriteEnv.clean false) shard m :=
    ⟨uri, haddr, hconnect⟩
  exact ((Cluster.joined_reaches_iff rfl).mp hreaches).1

/-- The second node has been called. -/
theorem handlers_call_nobody_pair : ((empty Crates.bool).run .plain
    (pairing ++ .upsert 101 "c" .insertion [⟨.id 1, true⟩] :: forwarding.take 3)).waits ⟨1, 0⟩
      = none ∧
    ∃ home home', ((empty Crates.bool).run .plain
      (pairing ++ .upsert 101 "c" .insertion [⟨.id 1, true⟩] :: forwarding.take 3)).homes[0]?
        = some home ∧
    ((empty Crates.bool).run .plain
      (pairing ++ .upsert 101 "c" .insertion [⟨.id 1, true⟩] :: forwarding.take 3)).homes[1]?
        = some home' ∧ home'.name = home.name ∧ home'.peer ≠ home.peer := by
  have hproper : AllProper .plain .plain
      (pairing ++ .upsert 101 "c" .insertion [⟨.id 1, true⟩] :: forwarding.take 3)
      (empty Crates.bool) := by
    refine allProper_append.mpr ⟨allProper_pairing, ?_⟩
    exact ⟨trivial, trivial, trivial, trivial, trivial⟩
  have hhonest : ∀ e ∈ pairing ++ .upsert 101 "c" .insertion [⟨.id 1, true⟩] :: forwarding.take 3,
      e.Honest := by
    intro e he
    obtain he | he := List.mem_append.mp he
    · simp only [pairing, List.mem_cons, List.not_mem_nil, or_false] at he
      rcases he with rfl | rfl | rfl | rfl | rfl | rfl | rfl | rfl <;> trivial
    · simp only [forwarding, List.take_succ_cons, List.take_zero, List.mem_cons, List.not_mem_nil,
        or_false] at he
      obtain rfl | rfl | rfl | rfl := he
      · trivial
      · trivial
      · trivial
      · exact honest_connect _
  obtain ⟨hnone, -, home, home', hhome, hhome', hname, helse⟩ :=
    handlers_call_nobody (a := ⟨0, 0⟩) hproper rfl
  exact ⟨hnone, home, home', hhome, hhome', hname, helse hhonest⟩

/-! ## Where points come from -/

/-- A client has sent the point to the collection at this node. -/
def SentHere (events : List (ClusterEvent X)) (peer : PeerId) (name : CollectionName)
    (q : Point V) : Prop :=
  ∃ order points, .upsert peer name order points ∈ events ∧ q ∈ points

/-- A client has sent a point with a number for an id to the collection at some node, and this is
what another node makes of it. -/
def SentOn (events : List (ClusterEvent X)) (name : CollectionName) (q : Point V) : Prop :=
  ∃ via p, SentHere events via name p ∧ p.id.isId = true ∧ q = X.resend p

/-- The point has come to the collection at this node from a client, or from one by way of another
node. -/
def SentTo (events : List (ClusterEvent X)) (peer : PeerId) (name : CollectionName) (q : Point V) :
    Prop := SentHere events peer name q ∨ SentOn events name q

theorem SentHere.concat {events : List (ClusterEvent X)} {q : Point V}
    (h : SentHere events peer name q) (e : ClusterEvent X) :
    SentHere (events ++ [e]) peer name q := by
  obtain ⟨order, points, hmem, hq⟩ := h
  exact ⟨order, points, List.mem_append_left _ hmem, hq⟩

theorem SentOn.concat {events : List (ClusterEvent X)} {q : Point V} (h : SentOn events name q)
    (e : ClusterEvent X) : SentOn (events ++ [e]) name q := by
  obtain ⟨via, p, hp, hq⟩ := h
  exact ⟨via, p, hp.concat e, hq⟩

/-- The points of a request are those of a client, or it is a handler, which calls nobody, and they
have been sent on. -/
def Sends (events : List (ClusterEvent X)) (peer : PeerId) (name : CollectionName)
    (r : LiveRequest V) : Prop :=
  (∀ q ∈ r.asked.points, SentHere events peer name q) ∨
    r.StaysLocal ∧ ∀ q ∈ r.asked.points, SentOn events name q

theorem Sends.sentTo {events : List (ClusterEvent X)} {r : LiveRequest V}
    (h : Sends events peer name r) {q : Point V} (hq : q ∈ r.asked.points) :
    SentTo events peer name q := h.imp (fun h ↦ h q hq) fun h ↦ h.2 q hq

theorem Sends.concat {events : List (ClusterEvent X)} {r : LiveRequest V}
    (h : Sends events peer name r) (e : ClusterEvent X) : Sends (events ++ [e]) peer name r :=
  h.imp (fun h q hq ↦ (h q hq).concat e) fun h ↦ ⟨h.1, fun q hq ↦ (h.2 q hq).concat e⟩

/-- A request that gets on has the points it had, and a handler is still one. -/
theorem Sends.of_asked {events : List (ClusterEvent X)} {r r' : LiveRequest V}
    (h : Sends events peer name r) (hasked : r'.asked = r.asked)
    (hlocal : r.StaysLocal → r'.StaysLocal) : Sends events peer name r' := by
  rw [Sends, hasked]
  exact h.imp_right fun h ↦ ⟨hlocal h.1, h.2⟩

/-- Everything that is sent with a request, of a client or of another node, was sent by a client. -/
def AllSent (events : List (ClusterEvent X)) (self : LiveCluster X) : Prop :=
  ∀ (i : ℕ) (home : Home X), self.homes[i]? = some home → ∀ r ∈ home.live.requests,
    Sends events home.peer home.name r

/-- What another node is sent was sent by a client: a handler does not send anything on. -/
theorem Sound.sent_of_call (h : self.Sound U J) {events : List (ClusterEvent X)}
    (hsent : AllSent events self) {s : ShardId} {shard : RemoteShard} {points : List (Point V)}
    (ha : self.pending a = some (.upsertRemote s shard points)) {q : Point V}
    (hq : q ∈ resent X points) : SentOn events shard.collection q := by
  obtain ⟨asked, next, hrequest⟩ := pending_eq_some_iff.mp ha
  obtain ⟨home, hhome, hr⟩ := Option.bind_eq_some_iff.mp hrequest
  obtain ⟨p, hp, hid, rfl⟩ := mem_resent.mp hq
  obtain ⟨hname, -, hpoints⟩ :=
    ((h.homes _ home hhome).forwards _ (List.mem_of_getElem? hr) _ rfl).1
  rcases hsent _ home hhome _ (List.mem_of_getElem? hr) with hhere | ⟨hlocal, -⟩
  · exact ⟨home.peer, p, hname ▸ hhere p (hpoints p hp), hid, rfl⟩
  · exact absurd ha (not_pending_of_staysLocal hrequest hlocal s shard points)

theorem Sound.allSent_step (h : self.Sound U J) {events : List (ClusterEvent X)}
    (hsent : AllSent events self) (e : ClusterEvent X) :
    AllSent (events ++ [e]) (self.step U e) := by
  intro i home' hhome' r hr
  by_cases hlt : i < self.homes.length
  · have hhome := List.getElem?_eq_getElem hlt
    generalize self.homes[i] = home at hhome
    obtain ⟨l, hl, ht⟩ := step_home (U := U) h.housed e hhome
    obtain rfl := Option.some.inj (hl.symm.trans hhome')
    have hold : ∀ r ∈ home.live.requests, Sends (events ++ [e]) home.peer home.name r :=
      fun r hr ↦ (hsent i home hhome r hr).concat e
    have hstop : ∀ r ∈ home.live.requests, Sends (events ++ [e]) home.peer home.name r.stop :=
      fun r hr ↦ (hold r hr).of_asked (LiveCollection.asked_stop r) fun hlocal q hq ↦
        hlocal q (LiveCollection.rest_stop hq)
    cases ht with
    | rests => exact hold r hr
    | @upserts c order points he _ _ =>
      obtain hr | hr := List.mem_append.mp hr
      · exact hold r hr
      · obtain rfl := List.mem_singleton.mp hr
        exact Or.inl fun q hq ↦ ⟨order, points, by simp [he], hq⟩
    | reads _ _ _ =>
      obtain hr | hr := List.mem_append.mp hr
      · exact hold r hr
      · obtain rfl := List.mem_singleton.mp hr
        exact Or.inl fun q hq ↦ absurd hq (by simp [LiveRequest.read, Asked.points])
    | @hears c a connect order s shard points sent _ hname ha hcall _ _ =>
      obtain hr | hr := List.mem_append.mp hr
      · exact hold r hr
      · obtain rfl := List.mem_singleton.mp hr
        obtain ⟨rfl, -⟩ := call_eq_some hcall
        refine Or.inr ⟨LiveCollection.staysLocal_upsert c order (resent X points), fun q hq ↦ ?_⟩
        rw [← hname]
        exact (h.sent_of_call hsent ha hq).concat e
    | calls j outcome _ =>
      obtain hr | ⟨_, _, _, heq, -⟩ | ⟨_, _, heq, -⟩ | ⟨asked, op, next, reply, hmem, rfl⟩ |
        ⟨r₀, hr₀, rfl⟩ := LiveCollection.mem_requests_step hr
      · exact hold r hr
      · exact absurd heq (by simp)
      · exact absurd heq (by simp)
      · refine (hold _ hmem).of_asked rfl fun hlocal q hq ↦ ?_
        rw [← Option.some.inj hq]
        exact (hlocal _ rfl).2 reply
      · exact hstop r₀ hr₀
    | halts _ =>
      obtain ⟨r₀, hr₀, rfl⟩ := List.mem_map.mp hr
      exact hstop r₀ hr₀
  · obtain ⟨hlength, -⟩ | ⟨peer, name, params, order, -, -, hhomes, -⟩ := self.disk_step (U := U) e
    · exact absurd (hlength ▸ (List.getElem?_eq_some_iff.mp hhome').1) hlt
    · rw [hhomes, List.getElem?_append_right (Nat.not_lt.mp hlt)] at hhome'
      obtain rfl := List.mem_singleton.mp (List.mem_of_getElem? hhome')
      exact absurd hr (by simp [Home.made, LiveCollection.new])

theorem allSent_run {events : List (ClusterEvent X)} (hproper : AllProper U J events (empty X)) :
    AllSent events ((empty X).run U events) := by
  induction events using List.reverseRecOn with
  | nil => exact fun i home hhome ↦ absurd hhome (by simp [run, empty])
  | append_singleton events e ih =>
    obtain ⟨hevents, -⟩ := allProper_append.mp hproper
    rw [run_concat]
    exact (sound_empty.run hevents).allSent_step (ih hevents) e

/-- **Nothing is made up**, in a cluster.  Whatever a node stores in a collection, and whatever is
left of it when the node stops, was sent by some client, to that collection at that node, or to
another node and then, if its id is a number, it is what is made of it on its way; it is under its
own text and in its own shard.  A read returns only what is read from the text of such a point, for
one of the ids it has asked for. -/
theorem nothing_made_up {events : List (ClusterEvent X)}
    (hproper : AllProper U J events (empty X)) {i : ℕ}
    (hhome : ((empty X).run U events).homes[i]? = some home) {c : Collection X}
    (hc : c.TwoShards) :
    (∀ s key v, (home.live.trees s).content key = some v ∨
        (home.live.trees s).Recovers key (some v) → ∃ p, v = X.encode p ∧ Segment.keyOf p = key ∧
      c.shardOf p.id = s ∧ SentTo events home.peer home.name p) ∧
    ∀ (j : ℕ) (ids : List PointId) (ps : List (Point V)),
      ((empty X).run U events).request ⟨i, j⟩ = some ⟨.read ids, some (.ok (.points ps))⟩ →
        ∀ q ∈ ps, ∃ p, X.ReadsAs p q ∧ SentTo events home.peer home.name p ∧
          ∃ id ∈ ids, Segment.keyOf q = id.intoString ∧ c.shardOf q.id = c.shardOf id := by
  have hsent := allSent_run hproper i home hhome
  obtain ⟨params, path, order, hreached⟩ := ((sound_empty.run hproper).homes i home hhome).reached
  have hf := (Collection.init_twoShards (X := X) home.name ⟨params⟩ path order).shardOf_eq hc
  constructor
  · intro s key v hv
    obtain ⟨p, hp, hk, hs, r, hr, hpr⟩ := hreached.stored_sent hv
    exact ⟨p, hp, hk, hf ▸ hs, (hsent r hr).sentTo hpr⟩
  · intro j ids ps hread q hq
    rw [request, hhome] at hread
    obtain ⟨p, hreads, ⟨r, hr, hpr⟩, id, hid, hk, hs⟩ := hreached.read_sent hread hq
    exact ⟨p, hreads, (hsent r hr).sentTo hpr, id, hid, hk, hf ▸ hs⟩

/-- The second node has a point that the first one has been sent. -/
theorem nothing_made_up_pair : ∃ p : Point Bool, Segment.keyOf p = "1" ∧
    SentTo (pairing ++ .upsert 101 "c" .insertion [⟨.id 1, true⟩] :: forwarding) 102 "c" p := by
  have hproper : AllProper .plain .plain
      (pairing ++ .upsert 101 "c" .insertion [⟨.id 1, true⟩] :: forwarding)
      (empty Crates.bool) := by
    refine allProper_append.mpr ⟨allProper_pairing, ?_⟩
    exact ⟨trivial, trivial, trivial, trivial, trivial, trivial, trivial, trivial⟩
  obtain ⟨home, hhome, hpeer, hname, s, hcontent⟩ : ∃ home,
      ((empty Crates.bool).run .plain
        (pairing ++ .upsert 101 "c" .insertion [⟨.id 1, true⟩] :: forwarding)).homes[1]?
          = some home ∧
      home.peer = 102 ∧ home.name = "c" ∧
      ∃ s, (home.live.trees s).content "1" = some (Crates.bool.encode ⟨.id 1, true⟩) :=
    ⟨_, rfl, rfl, rfl, LiveCollection.made.collection.shardOf (.id 1), rfl⟩
  obtain ⟨p, -, hk, -, hsent⟩ := (nothing_made_up hproper hhome
    (Collection.init_twoShards "c" ⟨""⟩ [] .insertion)).1 s "1" _ (Or.inl hcontent)
  exact ⟨p, hk, hpeer ▸ hname ▸ hsent⟩

end LiveCluster

end Smoldb
