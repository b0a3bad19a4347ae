import Smoldb.Live.Forwarding

/-!
# What a cluster keeps

An upsert that is acknowledged has been taken by the node it was sent to and, if there are remote
shards, by the handler at another node.  `acknowledged_at_two_nodes` says that its points are at
both from then on, and are read at both, whatever the cluster does: nodes join, stop and start
again, and other requests come in and fail.

`Serves` is what is said of each of the two nodes.  From now on the point is in the shard, or one
that supersedes it is, and a read that comes in from now on returns what is read from that text.
`Supersedes` is the relation of `Live/Durability.lean`, for an address: whose request wrote the
other point, and that it was not done at the start.

The first node is `Sound.serves`, which takes the run of the home (`Live/Homes.lean`) and then what
is known of any collection at work.  For the second one, `Sound.taken` finds the handler: the upsert
has a call to another node that has returned a success (`Live/Histories.lean`), and such a call has
had a handler that was done (`Linked`, in `Live/Forwarding.lean`).  The handler is an upsert that
was acknowledged, at its own node, so what holds of the first holds of it as well.

A point whose id is not a number is only at the first node, as it is left out of what is sent.  What
is sent on is written to JSON and read at the other node, so what is there is what that node has
read (`Crates.resend`).  And the other node is one that the collection has a remote shard for only
if calls lead to the nodes they are meant for.
-/

set_option autoImplicit false

namespace Smoldb

open LastWrite

variable {V : Type} {X : Crates V} {U : UriCrate} {J : ConfigJson}

/-- The last point of a batch for a shard and a key is so among those that are sent, as the other
node reads them. -/
theorem last_resent_shardPoints {f : PointId → ShardId} {points : List (Point V)} {p : Point V}
    (hp : last (fun q ↦ (f q.id, Segment.keyOf q)) points (f p.id, Segment.keyOf p) = some p)
    (hid : p.id.isId = true) :
    last (fun q ↦ (f q.id, Segment.keyOf q)) (resent X (shardPoints f points (f p.id)))
      (f (X.resend p).id, Segment.keyOf (X.resend p)) = some (X.resend p) := by
  rw [← last_shardPoints] at hp
  obtain ⟨-, A, B, hsplit, hB⟩ := last_eq_some_iff.mp hp
  refine last_eq_some_iff.mpr ⟨rfl, resent X A, resent X B, ?_, fun q hq heq ↦ ?_⟩
  · simp [hsplit, resent, numeric, hid]
  · obtain ⟨q', hq', -, rfl⟩ := mem_resent.mp hq
    refine hB q' hq' ?_
    rw [Segment.keyOf, Segment.keyOf, X.resend_id, X.resend_id] at heq
    exact (Prod.mk.inj heq).2

namespace LiveCluster

variable {self : LiveCluster X} {e : ClusterEvent X} {a b : Address} {home : Home X}
  {peer : PeerId} {name : CollectionName}

/-! ## What an upsert leaves -/

/-- A request is not done: it is under way, or has yet to come in. -/
def Open (self : LiveCluster X) (a : Address) : Prop :=
  ∀ r, self.request a = some r → r.UnderWay

/-- The point `q` is found where `p` was stored by the request `a`, which came in after `start`: it
is `p`, or it was sent by another request there that was not done at the start. -/
def Supersedes (start self : LiveCluster X) (a : Address) (p q : Point V) : Prop :=
  Segment.keyOf q = Segment.keyOf p ∧ (q = p ∨ ∃ b r, b.home = a.home ∧ b ≠ a ∧ start.Open b ∧
    self.request b = some r ∧ q ∈ r.asked.points)

theorem Supersedes.of_open {start start' : LiveCluster X} {p q : Point V}
    (h : Supersedes start' self a p q) (hopen : ∀ b, start'.Open b → start.Open b) :
    Supersedes start self a p q := by
  obtain ⟨hk, rfl | ⟨b, r, hb, hne, hopen', hr, hq⟩⟩ := h
  · exact ⟨hk, Or.inl rfl⟩
  · exact ⟨hk, Or.inr ⟨b, r, hb, hne, hopen b hopen', hr, hq⟩⟩

/-- From now on `p` is in this shard of a collection of a node, where it was stored by the request
`a`, or a point that supersedes it is; and what is read from the text of that point is what a read
of the collection returns. -/
structure Serves (U : UriCrate) (J : ConfigJson) (start cluster : LiveCluster X) (peer : PeerId)
    (name : CollectionName) (s : ShardId) (a : Address) (p : Point V) : Prop where
  stored : ∀ after, AllProper U J after cluster → ∃ home q,
    (cluster.run U after).homes[a.home]? = some home ∧ home.peer = peer ∧ home.name = name ∧
    (home.live.trees s).content (Segment.keyOf p) = some (X.encode q) ∧
    Supersedes start (cluster.run U after) a p q
  read : ∀ after order ids during b ps,
    AllProper U J (after ++ .read peer name order ids :: during) cluster →
    (cluster.run U after).next peer name = some b → b.home = a.home →
    (cluster.run U (after ++ .read peer name order ids :: during)).request b
      = some ⟨.read ids, some (.ok (.points ps))⟩ → p.id ∈ ids →
    ∃ q ∈ ps, ∃ p', X.ReadsAs p' q ∧
      Supersedes start (cluster.run U (after ++ .read peer name order ids :: during)) a p p'

theorem Serves.of_open {start start' : LiveCluster X} {s : ShardId} {p : Point V}
    (h : Serves U J start' self peer name s a p) (hopen : ∀ b, start'.Open b → start.Open b) :
    Serves U J start self peer name s a p where
  stored after hafter := by
    obtain ⟨home, q, hhome, hpeer, hname, hcontent, hsupersedes⟩ := h.stored after hafter
    exact ⟨home, q, hhome, hpeer, hname, hcontent, hsupersedes.of_open hopen⟩
  read after order ids during b ps hproper hnext hb hread hid := by
    obtain ⟨q, hq, p', hreads, hsupersedes⟩ :=
      h.read after order ids during b ps hproper hnext hb hread hid
    exact ⟨q, hq, p', hreads, hsupersedes.of_open hopen⟩

/-- A request that is done stays done. -/
theorem Sound.open_run (h : self.Sound U J) {events : List (ClusterEvent X)}
    (hproper : AllProper U J events self) (hopen : (self.run U events).Open a) : self.Open a := by
  intro r hr
  obtain ⟨home, hhome, hr⟩ := Option.bind_eq_some_iff.mp hr
  obtain ⟨l, hl, hfollows⟩ := h.follows_run hproper hhome
  refine hfollows.open (fun r hr ↦ hopen r ?_) r hr
  rw [request, hl]
  exact hr

/-- What supersedes a point in a collection does so in the cluster. -/
theorem Supersedes.of_live {start : LiveCluster X} {home₀ : Home X} {f : PointId → ShardId}
    {l₀ : LiveCollection X} {p q : Point V} (hstart : start.homes[a.home]? = some home₀)
    (hl₀ : l₀.requests = home₀.live.requests) (hself : self.homes[a.home]? = some home)
    (h : LiveCollection.Supersedes f l₀ home.live a.request p q) : Supersedes start self a p q := by
  obtain ⟨hk, -, rfl | ⟨j, r, hj, hopen, hr, hq⟩⟩ := h
  · exact ⟨hk, Or.inl rfl⟩
  · refine ⟨hk, Or.inr ⟨⟨a.home, j⟩, r, rfl, ?_, fun r hr ↦ ?_, ?_, hq⟩⟩
    · exact fun heq ↦ hj (congrArg Address.request heq)
    · refine hopen r ?_
      rw [request, hstart] at hr
      rw [hl₀]
      exact hr
    · rw [request, hself]
      exact hr

section Upsert

variable {c : Collection X} {order : IterOrder (ShardId × List PointId)} {points : List (Point V)}
  {localOnly : Bool} {between : List (ClusterEvent X)} {p : Point V}

/-- An upsert that is acknowledged at a node is acknowledged in its collection there. -/
theorem Sound.acknowledges (h : self.Sound U J) (hnext : self.next peer name = some a)
    (he : self.Proper J e) (hstep : (self.step U e).homes
      = (self.arrive peer name (.upsert order points localOnly)).homes)
    (hbetween : AllProper U J between (self.step U e))
    (hack : ((self.step U e).run U between).request a
      = some ⟨.upsert points, some (.ok .upserted)⟩) :
    ∃ home l₀ l, self.homes[a.home]? = some home ∧ home.peer = peer ∧ home.name = name ∧
      (∃ params path order', LiveCollection.Reached (.init home.name ⟨params⟩ path order') l₀) ∧
      self.collection peer name = some l₀.collection ∧ l₀.requests = home.live.requests ∧
      a.request = l₀.requests.length ∧ l₀.Acknowledges order points localOnly l ∧
      ((self.step U e).run U between).homes[a.home]? = some { home with live := l } := by
  obtain ⟨c, home, hc, hdisk, hhome, rfl, rfl, ha, harrive⟩ := h.of_next hnext
  obtain ⟨l, hl, hfollows⟩ := (h.step he).follows_run hbetween
    ((congrArg (fun homes ↦ homes[a.home]?) hstep).trans (harrive _))
  obtain ⟨params, path, order', hreached⟩ := (h.homes _ home hhome).reached
  have hbecome := LiveCollection.Follows.step (h.proper_become hhome hc)
  refine ⟨home, home.live.step (.become c), l, hhome, rfl, rfl, ⟨params, path, order',
    hbecome.reached hreached⟩, hc, rfl, ha, ⟨hfollows, ?_⟩, hl⟩
  rw [request, hl] at hack
  rw [show (home.live.step (.become c)).requests.length = a.request from ha.symm]
  exact hack

/-- Where an upsert has been acknowledged by a node, its points are stored and read. -/
theorem Sound.serves (h : self.Sound U J) (hc : c.TwoShards) (hnext : self.next peer name = some a)
    (he : self.Proper J e) (hstep : (self.step U e).homes
      = (self.arrive peer name (.upsert order points localOnly)).homes)
    (hbetween : AllProper U J between (self.step U e))
    (hack : ((self.step U e).run U between).request a
      = some ⟨.upsert points, some (.ok .upserted)⟩)
    (hp : last (fun q ↦ (c.shardOf q.id, Segment.keyOf q)) points
      (c.shardOf p.id, Segment.keyOf p) = some p) :
    Serves U J self ((self.step U e).run U between) peer name (c.shardOf p.id) a p := by
  obtain ⟨home, l₀, l, hhome, hpeer, hname, ⟨params, path, order', hreached⟩, -, hl₀, ha, hacks,
    hl⟩ := h.acknowledges hnext he hstep hbetween hack
  have hsound := (h.step he).run hbetween
  have hf := (Collection.init_twoShards (X := X) home.name ⟨params⟩ path order').shardOf_eq hc
  rw [← hf] at hp
  constructor
  · intro after hafter
    obtain ⟨l', hl', hfollows⟩ := hsound.follows_run hafter hl
    obtain ⟨q, hcontent, hsupersedes⟩ := hacks.stored hreached hfollows hp
    rw [← ha] at hsupersedes
    rw [hf] at hcontent
    exact ⟨_, q, hl', hpeer, hname, hcontent, .of_live hhome hl₀ hl' hsupersedes⟩
  · intro after order ids during b ps hproper hreads hb hread hid
    obtain ⟨hafter, hread₀, hduring⟩ := allProper_append.mp hproper
    obtain ⟨l', hl', hfollows⟩ := hsound.follows_run hafter hl
    have hsound' := hsound.run hafter
    -- the read comes in at the same collection
    obtain ⟨c', home', hc', -, hhome', rfl, rfl, hrequest, harrive⟩ := hsound'.of_next hreads
    rw [hb] at hhome' harrive
    obtain rfl := Option.some.inj (hl'.symm.trans hhome')
    obtain ⟨l'', hl'', hfollows'⟩ := (hsound'.step hread₀).follows_run hduring (harrive _)
    have hbecome := LiveCollection.Follows.step (hsound'.proper_become hl' hc')
    rw [run_append, run_cons] at hread ⊢
    have hanswer : l''.requests[(l'.step (.become c')).requests.length]?
        = some ⟨.read ids, some (.ok (.points ps))⟩ := by
      rw [request, hb, hl'', hrequest] at hread
      exact hread
    obtain ⟨q, hq, p', hreads', hsupersedes⟩ :=
      hacks.read hreached (hfollows.trans hbecome) hfollows' hanswer hp hid
    rw [← ha] at hsupersedes
    exact ⟨q, hq, p', hreads', .of_live hhome hl₀ hl'' hsupersedes⟩

/-- **An acknowledged upsert has been taken by another node**, as far as it can be sent. -/
theorem Sound.taken (h : self.Sound U J) (hc : self.collection peer name = some c)
    (hnext : self.next peer name = some a)
    (hproper : AllProper U J (.upsert peer name order points :: between) self)
    (hhonest : ∀ e ∈ between, e.Honest)
    (hack : ((self.step U (.upsert peer name order points)).run U between).request a
      = some ⟨.upsert points, some (.ok .upserted)⟩)
    (hp : last (fun q ↦ (c.shardOf q.id, Segment.keyOf q)) points
      (c.shardOf p.id, Segment.keyOf p) = some p) (hid : p.id.isId = true) {rs : ReplicaSet}
    (hrs : c.replicaHolder.shards.lookup (c.shardOf p.id) = some rs) (hne : rs.remotes ≠ []) :
    ∃ shard ∈ rs.remotes, shard.peerId ≠ peer ∧ ∃ A B connect order' sent b,
      between = A ++ .send a connect order' :: B ∧
      ((self.step U (.upsert peer name order points)).run U A).next shard.peerId name = some b ∧
      (((self.step U (.upsert peer name order points)).run U A).step U
          (.send a connect order')).homes
        = (((self.step U (.upsert peer name order points)).run U A).arrive shard.peerId name
          (.upsert order' sent true)).homes ∧
      last (fun q ↦ (c.shardOf q.id, Segment.keyOf q)) sent
        (c.shardOf (X.resend p).id, Segment.keyOf (X.resend p)) = some (X.resend p) ∧
      ((((self.step U (.upsert peer name order points)).run U A).step U
          (.send a connect order')).run U B).request b
        = some ⟨.upsert sent, some (.ok .upserted)⟩ := by
  obtain ⟨home, l₀, l, hhome, -, -, -, hc', hl₀, ha, hacks, hl⟩ :=
    h.acknowledges hnext hproper.1 rfl hproper.2 hack
  obtain rfl := Option.some.inj (hc'.symm.trans hc)
  obtain ⟨shard, hshard, applied, hcalled⟩ := hacks.called (mem_of_last hp) hrs hne
  obtain ⟨hname, hpeer⟩ := (h.collection hc).2 _ rs hrs shard hshard
  have hnone : self.request a = none := by
    rw [request, hhome, Option.bind_some, ← hl₀, ha]
    exact List.getElem?_eq_none le_rfl
  obtain ⟨b, asked, htaken, hdone⟩ := (h.linked hproper hhome hnone).called _ hl _ shard _ applied
    (by rw [ha]; exact hcalled)
  obtain ⟨A, B, connect, order', hsince, hnext', hstep⟩ := htaken.handler
    (List.forall_mem_cons.mpr ⟨trivial, hhonest⟩)
  rw [hname] at hnext' hstep
  -- the handler has come in after the upsert
  obtain ⟨rfl, heq⟩ | ⟨A, rfl, rfl⟩ := List.cons_eq_append_iff.mp hsince
  · exact absurd (List.cons.inj heq).1 (by simp)
  · rw [run_cons] at hnext' hstep
    refine ⟨shard, hshard, hpeer, A, B, connect, order', _, b, rfl, hnext', hstep,
      last_resent_shardPoints hp hid, ?_⟩
    obtain ⟨hA, hsend, hB⟩ := allProper_append.mp hproper.2
    have hsound := ((h.step hproper.1).run hA).step hsend
    obtain ⟨c', home', -, -, -, -, -, hb, harrive⟩ := ((h.step hproper.1).run hA).of_next hnext'
    obtain ⟨l', hl', hfollows⟩ := hsound.follows_run hB
      ((congrArg (fun homes ↦ homes[b.home]?) hstep).trans (harrive _))
    obtain ⟨r, hr, hasked⟩ := hfollows.exists_asked (j := b.request) (by
      rw [hb]
      exact List.getElem?_concat_length)
    rw [run_cons, run_append, run_cons] at hdone
    rw [hdone]
    rw [request, hl'] at hdone
    obtain rfl := Option.some.inj (hr.symm.trans hdone)
    rw [show asked = _ from hasked]
    rfl

/-- **What is acknowledged is at two nodes.**  Once an upsert has been acknowledged, each point that
it had last for a shard and a key is stored and read at the node it was sent to, or one that another
request there has written over it which was not done when the upsert came in.  If calls lead to the
peers they are meant for, the id of the point is a number and the collection had remote shards, then
so is, at another node, what that node makes of the point.  Nodes may join, stop and be started
again at any time, and any call may fail.  If nobody has deleted the collection meanwhile, it is the
one that the node has. -/
theorem acknowledged_at_two_nodes (hreached : Reached U J self)
    (hc : self.collection peer name = some c) (hnext : self.next peer name = some a)
    (hproper : AllProper U J (.upsert peer name order points :: between) self)
    (hack : ((self.step U (.upsert peer name order points)).run U between).request a
      = some ⟨.upsert points, some (.ok .upserted)⟩)
    (hp : last (fun q ↦ (c.shardOf q.id, Segment.keyOf q)) points
      (c.shardOf p.id, Segment.keyOf p) = some p) :
    Serves U J self ((self.step U (.upsert peer name order points)).run U between)
        peer name (c.shardOf p.id) a p ∧
      ((∀ e ∈ between, ¬ e.Deletes peer name) →
        ((self.step U (.upsert peer name order points)).run U between).disk peer name
          = some a.home) ∧
      ((∀ e ∈ between, e.Honest) → p.id.isId = true → ∀ rs,
        c.replicaHolder.shards.lookup (c.shardOf p.id) = some rs →
        rs.remotes ≠ [] → ∃ shard ∈ rs.remotes, shard.peerId ≠ peer ∧ ∃ b,
          Serves U J self ((self.step U (.upsert peer name order points)).run U between)
            shard.peerId name (c.shardOf p.id) b (X.resend p) ∧
          ((∀ e ∈ between, ¬ e.Deletes shard.peerId name) →
            ((self.step U (.upsert peer name order points)).run U between).disk shard.peerId name
              = some b.home)) := by
  have h := hreached.sound
  have htwo := (h.collection hc).1
  obtain ⟨-, -, -, hdisk, -⟩ := h.of_next hnext
  refine ⟨h.serves htwo hnext hproper.1 rfl hproper.2 hack hp, fun hdeletes ↦ ?_, ?_⟩
  · rw [← run_cons]
    exact disk_run hdisk (List.forall_mem_cons.mpr ⟨fun hdel ↦ hdel, hdeletes⟩)
  · intro hhonest hid rs hrs hne
    obtain ⟨shard, hshard, hpeer, A, B, connect, order', sent, b, rfl, hnext', hstep, hlast,
      hdone⟩ := h.taken hc hnext hproper hhonest hack hp hid hrs hne
    obtain ⟨hA, hsend, hB⟩ := allProper_append.mp hproper.2
    have hsound := (h.step hproper.1).run hA
    obtain ⟨-, -, -, hdisk', -⟩ := hsound.of_next hnext'
    rw [run_append, run_cons]
    refine ⟨shard, hshard, hpeer, b, ?_, fun hdeletes ↦ ?_⟩
    · have hserves := hsound.serves htwo hnext' hsend hstep hB hdone hlast
      rw [X.resend_id] at hserves
      exact hserves.of_open fun b hb ↦ h.open_run
        (show AllProper U J (.upsert peer name order points :: A) self from ⟨hproper.1, hA⟩) hb
    · rw [← run_cons]
      exact disk_run hdisk' fun e he ↦ hdeletes e (List.mem_append_right A he)

end Upsert

/-- The point is at the second node, where the handler has stored it. -/
theorem acknowledged_at_two_nodes_pair : ∃ s b, Serves .plain .plain pair
    ((pair.step .plain (.upsert 101 "c" .insertion [⟨.id 1, true⟩])).run .plain forwarding)
    102 "c" s b ⟨.id 1, true⟩ := by
  obtain ⟨c, hc, rs, hrs, s, hremotes⟩ : ∃ c, pair.collection 101 "c" = some c ∧ ∃ rs,
      c.replicaHolder.shards.lookup (c.shardOf (.id 1)) = some rs ∧
        ∃ s, rs.remotes = [⟨s, "c", 102⟩] := ⟨_, rfl, _, rfl, _, rfl⟩
  have hproper : AllProper .plain .plain (.upsert 101 "c" .insertion [⟨.id 1, true⟩] :: forwarding)
      pair := ⟨trivial, trivial, trivial, trivial, trivial, trivial, trivial, trivial⟩
  have hhonest : ∀ e ∈ forwarding, e.Honest := by
    simp only [forwarding, List.forall_mem_cons]
    exact ⟨trivial, trivial, honest_connect _, trivial, trivial, trivial, by simp⟩
  obtain ⟨-, -, htaken⟩ := acknowledged_at_two_nodes ⟨pairing, allProper_pairing, rfl⟩ hc
    (show pair.next 101 "c" = some ⟨0, 0⟩ from rfl) hproper rfl
    (show last _ [(⟨.id 1, true⟩ : Point Bool)] _ = some ⟨.id 1, true⟩ by
      rw [last_singleton, if_pos rfl])
  obtain ⟨shard, hshard, -, b, hserves, -⟩ := htaken hhonest rfl rs hrs (by simp [hremotes])
  rw [hremotes, List.mem_singleton] at hshard
  subst hshard
  exact ⟨_, b, hserves⟩

end LiveCluster

end Smoldb
