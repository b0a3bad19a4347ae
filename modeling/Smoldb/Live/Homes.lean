import Smoldb.Live.Nodes

/-!
# The collections of a cluster at work

Whatever goes on in a cluster, what happens to one collection of one node is a run of a
`LiveCollection`: `LiveCluster.follows_run`.  So what is known of a collection at work holds of
every collection of every node, from when it is made until it is deleted.

`LiveCluster.Sound` is the invariant behind it.

* `network`: what `Live/Nodes.lean` has for the nodes.
* `housed`: a directory has a home, which is of that node and of that name.
* `homes`: the collection in a home got where it is by a run from a collection as it is made, and
  its requests call other nodes for their own collection only, never their own node, and send them
  nothing but points they have been sent themselves (`LiveCollection.Forwards`).
* `waits`: what a request waits for is a request.

## How it goes

`Touches`, in `Live/Cluster.lean`, has what a step of the cluster can do to one home.  Each case of
it is a step or two of the `LiveCollection` there, so what has to be shown is that these are steps
which a collection can take (`follows_touches`).  For most of them there is nothing to show.  When a
request comes in, the collection first becomes the one that the node has in memory, which has heard
of more peers or was loaded again, and it has to have the same shards as the one in the home; that
is where the two shards of every collection come in (`proper_become`).  When the node stops, what is
left in the trees has to be what they allow, and `Proper` of the event says so.

`Sound.run` then carries `Sound` through a run, `follows_run` has the run of one collection, and
`disk_run` says that a directory keeps its home until the collection in it is deleted.
-/

set_option autoImplicit false

namespace Smoldb

variable {V : Type} {X : Crates V} {U : UriCrate} {J : ConfigJson}

/-! ## One collection -/

namespace LiveCollection

variable {l l' l'' : LiveCollection X}

/-- A collection keeps its shards. -/
theorem Reached.shards {c : Collection X} (h : Reached c l) (s : ShardId) :
    s ∈ l.collection.replicaHolder.shards ↔ s ∈ c.replicaHolder.shards := by
  obtain ⟨events, hproper, rfl⟩ := h
  induction events using List.reverseRecOn with
  | nil => exact Iff.rfl
  | append_singleton events e ih =>
    obtain ⟨hevents, he, -⟩ := allProper_append.mp hproper
    have ih := ih hevents
    rw [run_append]
    obtain ⟨r, hstep, -⟩ | ⟨c', hstep, hc'⟩ | ⟨i, asked, op, next, reply, applied, -, -, hstep⟩ |
      ⟨recovered, -, hstep⟩ := ((new c).run events).step_cases e
    · rw [show ((new c).run events).run [e] = _ from hstep]
      exact ih
    · rw [show ((new c).run events).run [e] = _ from hstep]
      obtain rfl | rfl := hc'
      · exact ih
      · exact (he s).trans ih
    · rw [show ((new c).run events).run [e] = _ from hstep]
      exact ih
    · rw [show ((new c).run events).run [e] = _ from hstep]
      exact ih

/-- Where the requests come from that there are after a step. -/
theorem mem_requests_step {e : LiveEvent X} {r : LiveRequest V} (hr : r ∈ (l.step e).requests) :
    r ∈ l.requests ∨
    (∃ order points localOnly, e = .upsert order points localOnly ∧
      r = .upsert l.collection order points localOnly) ∨
    (∃ order ids, e = .read order ids ∧ r = .read l.collection order ids) ∨
    (∃ asked op next reply, ⟨asked, some (.call op next)⟩ ∈ l.requests ∧
      r = ⟨asked, some (next reply)⟩) ∨
    ∃ r₀ ∈ l.requests, r = r₀.stop := by
  cases e with
  | upsert order points localOnly =>
    obtain hr | hr := List.mem_append.mp hr
    · exact Or.inl hr
    · exact Or.inr (Or.inl ⟨order, points, localOnly, rfl, List.mem_singleton.mp hr⟩)
  | read order ids =>
    obtain hr | hr := List.mem_append.mp hr
    · exact Or.inl hr
    · exact Or.inr (Or.inr (Or.inl ⟨order, ids, rfl, List.mem_singleton.mp hr⟩))
  | become collection => exact Or.inl hr
  | advance i outcome =>
    rw [step] at hr
    split at hr
    · rename_i asked op next hi
      obtain hr | hr := List.mem_or_eq_of_mem_set hr
      · exact Or.inl hr
      · exact Or.inr (Or.inr (Or.inr (Or.inl ⟨asked, op, next, _, List.mem_of_getElem? hi, hr⟩)))
    · exact Or.inl hr
  | stop recovered =>
    obtain ⟨r₀, hr₀, rfl⟩ := List.mem_map.mp hr
    exact Or.inr (Or.inr (Or.inr (Or.inr ⟨r₀, hr₀, rfl⟩)))

/-- A request that was there waits for the same call as before, unless it has made its call. -/
theorem rest_step {e : LiveEvent X} {j : ℕ} {asked : Asked V} {op : PointCall V}
    {next : op.Reply → PointProgram V CollectionError (Returned V)} (hlt : j < l.requests.length)
    (h : (l.step e).requests[j]? = some ⟨asked, some (.call op next)⟩) :
    l.requests[j]? = some ⟨asked, some (.call op next)⟩ ∨ ∃ outcome, e = .advance j outcome ∧
      ∃ asked' op' next', l.requests[j]? = some ⟨asked', some (.call op' next')⟩ := by
  cases e with
  | upsert order points localOnly => exact Or.inl ((List.getElem?_append_left hlt).symm.trans h)
  | read order ids => exact Or.inl ((List.getElem?_append_left hlt).symm.trans h)
  | become collection => exact Or.inl h
  | advance i outcome =>
    rw [step] at h
    split at h
    · rename_i asked' op' next' hi
      by_cases hij : i = j
      · subst hij
        exact Or.inr ⟨outcome, rfl, asked', op', next', hi⟩
      · exact Or.inl ((List.getElem?_set_ne hij).symm.trans h)
    · exact Or.inl h
  | stop recovered =>
    obtain ⟨r, hr, hstop⟩ := Option.map_eq_some_iff.mp ((List.getElem?_map ..).symm.trans h)
    rw [LiveRequest.stop] at hstop
    split at hstop
    · exact absurd hstop (by simp)
    · exact Or.inl (hr.trans (congrArg some hstop))

/-- The calls that have been made after a step. -/
theorem mem_history_step {e : LiveEvent X} {j : ℕ} {op : PointCall V} {reply : op.Reply}
    {applied : Bool} (h : .called j op reply applied ∈ (l.step e).history) :
    .called j op reply applied ∈ l.history ∨ ∃ outcome, e = .advance j outcome ∧
      (reply, applied) = l.answer outcome op ∧
      ∃ asked next, l.requests[j]? = some ⟨asked, some (.call op next)⟩ := by
  cases e with
  | upsert order points localOnly => exact Or.inl h
  | read order ids => exact Or.inl h
  | become collection => exact Or.inl h
  | advance i outcome =>
    rw [step] at h
    split at h
    · rename_i asked op' next hi
      obtain h | h := List.mem_append.mp h
      · exact Or.inl h
      · rw [List.mem_singleton, Happened.called.injEq] at h
        obtain ⟨rfl, rfl, hreply, rfl⟩ := h
        obtain rfl := eq_of_heq hreply
        exact Or.inr ⟨outcome, rfl, rfl, asked, next, hi⟩
    · exact Or.inl h
  | stop recovered =>
    obtain h | h := List.mem_append.mp h
    · exact Or.inl h
    · exact absurd (List.mem_singleton.mp h) (by simp)

/-- A request that is lost has nothing left to do. -/
theorem rest_stop {r : LiveRequest V} {q : PointProgram V CollectionError (Returned V)}
    (hq : r.stop.rest = some q) : r.rest = some q := by
  rw [LiveRequest.stop] at hq
  split at hq
  · exact absurd hq (by simp)
  · exact hq

theorem asked_stop (r : LiveRequest V) : r.stop.asked = r.asked := by
  rw [LiveRequest.stop]
  split <;> rfl

/-- What the requests to a collection at a node may call. -/
def Forwards (peer : PeerId) (name : CollectionName) (l : LiveCollection X) : Prop :=
  ∀ r ∈ l.requests, ∀ q, r.rest = some q →
    q.Calls (PointCall.Forwards peer name r.asked.points)

theorem Forwards.step {peer : PeerId} {name : CollectionName} (h : l.Forwards peer name)
    {e : LiveEvent X} (hremotes : ∀ order points localOnly, e = .upsert order points localOnly →
      ∀ s rs, l.collection.replicaHolder.shards.lookup s = some rs → ∀ shard ∈ rs.remotes,
        shard.collection = name ∧ shard.peerId ≠ peer) : (l.step e).Forwards peer name := by
  intro r hr q hq
  obtain hr | ⟨order, points, localOnly, rfl, rfl⟩ | ⟨order, ids, rfl, rfl⟩ |
    ⟨asked, op, next, reply, hmem, rfl⟩ | ⟨r₀, hr₀, rfl⟩ := mem_requests_step hr
  · exact h r hr q hq
  · rw [← Option.some.inj hq]
    exact (Collection.calls_upsertSteps_forwards (hremotes order points localOnly rfl) order points
      localOnly).handle (fun _ ↦ trivial) fun _ ↦ trivial
  · rw [← Option.some.inj hq]
    exact ((Collection.calls_getSteps order ids).mono fun _ hop ↦ hop.forwards peer name).handle
      (fun _ ↦ trivial) fun _ ↦ trivial
  · rw [← Option.some.inj hq]
    exact (h _ hmem _ rfl).2 reply
  · rw [asked_stop]
    exact h r₀ hr₀ q (rest_stop hq)

end LiveCollection

/-! ## A collection of a node -/

/-- A collection that has just been made. -/
def Home.made (peer : PeerId) (name params : String)
    (order : IterOrder (Σ _ : ShardId, ReplicaSet)) : Home X :=
  ⟨peer, name, .new (.init name ⟨params⟩ (TableOfContent.collectionsPath.join name) order)⟩

/-- What holds of a collection of a node. -/
structure Home.Sound (home : Home X) : Prop where
  reached : ∃ params path order,
    LiveCollection.Reached (.init home.name ⟨params⟩ path order) home.live
  forwards : home.live.Forwards home.peer home.name

theorem Home.Sound.twoShards {home : Home X} (h : home.Sound) :
    home.live.collection.TwoShards := by
  obtain ⟨params, path, order, hreached⟩ := h.reached
  exact fun s ↦ (hreached.shards s).trans (Collection.init_twoShards _ _ _ _ s)

theorem Home.Sound.made (peer : PeerId) (name params : String)
    (order : IterOrder (Σ _ : ShardId, ReplicaSet)) :
    (Home.made (X := X) peer name params order).Sound where
  reached := ⟨params, _, order, LiveCollection.Follows.refl _⟩
  forwards _ hr := absurd hr (by simp [Home.made, LiveCollection.new])

/-! ## All collections -/

namespace LiveCluster

variable {self : LiveCluster X} {e : ClusterEvent X} {i : ℕ} {home : Home X} {l : LiveCollection X}
  {peer : PeerId} {name : CollectionName}

theorem length_inHome (j : ℕ) (f : LiveCollection X → LiveCollection X) :
    (self.inHome j f).homes.length = self.homes.length := List.length_modify ..

theorem length_resume (a : Address) (result : CollectionResult Unit) :
    (self.resume a result).homes.length = self.homes.length := List.length_modify ..

theorem length_arrive (peer : PeerId) (name : CollectionName) (e : LiveEvent X) :
    (self.arrive peer name e).homes.length = self.homes.length := by
  rw [arrive]
  split
  · exact length_inHome _ _
  · rfl

theorem disk_arrive (e : LiveEvent X) : (self.arrive peer name e).disk = self.disk := by
  rw [arrive]
  split <;> rfl

theorem network_arrive (e : LiveEvent X) : (self.arrive peer name e).network = self.network := by
  rw [arrive]
  split <;> rfl

theorem waits_arrive (e : LiveEvent X) : (self.arrive peer name e).waits = self.waits := by
  rw [arrive]
  split <;> rfl

/-- What a request waits for. -/
theorem pending_eq_some_iff {a : Address} {op : PointCall V} :
    self.pending a = some op ↔
      ∃ asked next, self.request a = some ⟨asked, some (.call op next)⟩ := by
  rw [pending]
  split
  · rename_i asked op' next hrequest
    simp only [hrequest, Option.some.injEq, LiveRequest.mk.injEq]
    constructor
    · rintro rfl
      exact ⟨asked, next, rfl, rfl⟩
    · rintro ⟨asked', next', -, h⟩
      exact (Program.call.inj h).1
  · rename_i hne
    constructor
    · intro h
      exact absurd h (by simp)
    · rintro ⟨asked, next, h⟩
      exact absurd h (hne asked op next)

/-- Where the handlers come from that there are after a step. -/
theorem waits_step {a b : Address} (hb : (self.step U e).waits a = some b) :
    self.waits a = some b ∨ self.waits a = none ∧ ∃ connect order s shard points peer sent,
      e = .send a connect order ∧ self.pending a = some (.upsertRemote s shard points) ∧
      self.call connect shard points = some (peer, sent) ∧
      self.next peer shard.collection = some b := by
  have hresume : ∀ (a' : Address) (result : CollectionResult Unit),
      (self.resume a' result).waits a = some b → self.waits a = some b := by
    intro a' result h
    by_cases haa : a = a'
    · subst haa
      exact absurd h (by simp [resume])
    · simp only [resume, Function.update_of_ne haa] at h
      exact h
  cases e with
  | network action =>
    cases action with
    | createCollection peer name params order =>
      rw [step, administer] at hb
      split at hb <;> exact Or.inl hb
    | deleteCollection peer name =>
      rw [step, administer] at hb
      split at hb <;> exact Or.inl hb
    | join joiner p2pUrl toc via => exact Or.inl hb
    | request i => exact Or.inl hb
    | answer i => exact Or.inl hb
    | advance peer i => exact Or.inl hb
  | boot peer p2pUrl toc => exact Or.inl hb
  | halt peer recovered => exact Or.inl hb
  | upsert peer name order points =>
    rw [step, waits_arrive] at hb
    exact Or.inl hb
  | read peer name order ids =>
    rw [step, waits_arrive] at hb
    exact Or.inl hb
  | advance a' failure =>
    rw [step] at hb
    split at hb <;> exact Or.inl hb
  | send a' connect order =>
    rw [step] at hb
    split at hb
    · rename_i s shard points hnone hpending
      split at hb
      · rename_i peer sent hcall
        split at hb
        · rename_i b' hnext
          by_cases haa : a = a'
          · subst haa
            simp only [Function.update_self, Option.some.injEq] at hb
            subst hb
            exact Or.inr ⟨hnone, connect, order, s, shard, points, peer, sent, rfl, hpending, hcall,
              hnext⟩
          · simp only [Function.update_of_ne haa] at hb
            exact Or.inl hb
        · exact Or.inl hb
      · exact Or.inl hb
    · exact Or.inl hb
  | reply a' =>
    rw [step] at hb
    split at hb
    · exact Or.inl (hresume a' _ hb)
    · exact Or.inl hb
  | fail a' error =>
    rw [step] at hb
    split at hb
    · exact Or.inl (hresume a' _ hb)
    · exact Or.inl hb

/-- What a step does not change, unless it is about the nodes. -/
theorem step_frame (h : ∀ a, e ≠ .network a) :
    (self.step U e).disk = self.disk ∧ (self.step U e).homes.length = self.homes.length := by
  cases e with
  | network a => exact absurd rfl (h a)
  | boot peer p2pUrl toc => exact ⟨rfl, rfl⟩
  | halt peer recovered => exact ⟨rfl, List.length_mapIdx⟩
  | upsert peer name order points => exact ⟨disk_arrive _, length_arrive _ _ _⟩
  | read peer name order ids => exact ⟨disk_arrive _, length_arrive _ _ _⟩
  | advance a failure =>
    rw [step]
    split
    · exact ⟨rfl, rfl⟩
    · exact ⟨rfl, length_inHome _ _⟩
  | send a connect order =>
    rw [step]
    repeat' split
    · exact ⟨disk_arrive _, length_arrive _ _ _⟩
    · exact ⟨rfl, rfl⟩
    · exact ⟨rfl, rfl⟩
    · exact ⟨rfl, rfl⟩
  | reply a =>
    rw [step]
    split
    · exact ⟨rfl, length_resume _ _⟩
    · exact ⟨rfl, rfl⟩
  | fail a error =>
    rw [step]
    split
    · exact ⟨rfl, length_resume _ _⟩
    · exact ⟨rfl, rfl⟩

/-- Nobody but the joins and the catalog changes a node while it runs. -/
theorem step_network (hboot : ∀ peer p2pUrl toc, e ≠ .boot peer p2pUrl toc)
    (hhalt : ∀ peer recovered, e ≠ .halt peer recovered) (hnetwork : ∀ a, e ≠ .network a) :
    (self.step U e).network = self.network := by
  cases e with
  | network a => exact absurd rfl (hnetwork a)
  | boot peer p2pUrl toc => exact absurd rfl (hboot peer p2pUrl toc)
  | halt peer recovered => exact absurd rfl (hhalt peer recovered)
  | upsert peer name order points => exact network_arrive _
  | read peer name order ids => exact network_arrive _
  | advance a failure => rw [step]; split <;> rfl
  | send a connect order =>
    rw [step]
    repeat' split
    · exact network_arrive _
    · rfl
    · rfl
    · rfl
  | reply a => rw [step]; split <;> rfl
  | fail a error => rw [step]; split <;> rfl

/-- **What is on disk** stays there until it is deleted, and what is made has a home of its own. -/
theorem disk_step (self : LiveCluster X) (e : ClusterEvent X) :
    ((self.step U e).homes.length = self.homes.length ∧ ∀ peer name,
      (self.step U e).disk peer name = self.disk peer name ∨
        e.Deletes peer name ∧ (self.step U e).disk peer name = none) ∨
    ∃ peer name params order, e = .network (.createCollection peer name params order) ∧
      self.disk peer name = none ∧
      (self.step U e).homes = self.homes ++ [.made peer name params order] ∧
      ∀ peer' name', (self.step U e).disk peer' name'
        = if peer' = peer ∧ name' = name then some self.homes.length
          else self.disk peer' name' := by
  by_cases h : ∀ a, e ≠ .network a
  · obtain ⟨hdisk, hlength⟩ : (self.step U e).disk = self.disk ∧
        (self.step U e).homes.length = self.homes.length := step_frame h
    exact Or.inl ⟨hlength, fun peer name ↦ Or.inl (by rw [hdisk])⟩
  · obtain ⟨a, rfl⟩ : ∃ a, e = .network a := by
      by_contra hne
      exact h fun a ha ↦ hne ⟨a, ha⟩
    cases a with
    | createCollection peer name params order =>
      rw [step, administer]
      split
      · rename_i s hs hdisk
        refine Or.inr ⟨peer, name, params, order, rfl, hdisk, rfl, fun peer' name' ↦ ?_⟩
        by_cases hpeer : peer' = peer
        · subst hpeer
          by_cases hname : name' = name
          · subst hname
            simp
          · simp [hname]
        · simp [hpeer]
      · exact Or.inl ⟨rfl, fun peer' name' ↦ Or.inl rfl⟩
    | deleteCollection peer name =>
      rw [step, administer]
      split
      · refine Or.inl ⟨rfl, fun peer' name' ↦ ?_⟩
        by_cases hpeer : peer' = peer
        · subst hpeer
          by_cases hname : name' = name
          · subst hname
            exact Or.inr ⟨⟨rfl, rfl⟩, by simp⟩
          · exact Or.inl (by simp [Function.update_of_ne hname])
        · exact Or.inl (by simp [Function.update_of_ne hpeer])
      · exact Or.inl ⟨rfl, fun peer' name' ↦ Or.inl rfl⟩
    | join joiner p2pUrl toc via => exact Or.inl ⟨rfl, fun peer' name' ↦ Or.inl rfl⟩
    | request i => exact Or.inl ⟨rfl, fun peer' name' ↦ Or.inl rfl⟩
    | answer i => exact Or.inl ⟨rfl, fun peer' name' ↦ Or.inl rfl⟩
    | advance peer i => exact Or.inl ⟨rfl, fun peer' name' ↦ Or.inl rfl⟩

/-! ## The invariant -/

/-- What holds of a cluster, in every state. -/
structure Sound (U : UriCrate) (J : ConfigJson) (cluster : LiveCluster X) : Prop where
  network : cluster.network.Orderly U J
  housed : cluster.Housed
  homes : ∀ (i : ℕ) (home : Home X), cluster.homes[i]? = some home → home.Sound
  waits : ∀ a b, cluster.waits a = some b → (cluster.request a).isSome

theorem sound_empty : (empty X).Sound U J where
  network := .empty
  housed _ _ _ h := absurd h (by simp [empty])
  homes _ _ h := absurd h (by simp [empty])
  waits _ _ h := absurd h (by simp [empty])

namespace Sound

variable (h : self.Sound U J)

include h

/-- The collections that the nodes have. -/
theorem collection {c : Collection X} (hc : self.collection peer name = some c) :
    c.TwoShards ∧ ∀ s rs, c.replicaHolder.shards.lookup s = some rs → ∀ shard ∈ rs.remotes,
      shard.collection = name ∧ shard.peerId ≠ peer := by
  rw [LiveCluster.collection, Network.collection_cluster, Option.bind_eq_some_iff] at hc
  obtain ⟨s, hs, hlookup⟩ := hc
  have hnode := h.network.nodes peer s hs
  obtain ⟨peers, hshaped, -⟩ := hnode.reachable.shaped.toc name c hlookup
  have hwithout := hnode.identity.remotes name c hlookup
  rw [hnode.peerId] at hwithout
  refine ⟨hnode.shards name c hlookup, fun s rs hrs shard hshard ↦ ⟨?_, ?_⟩⟩
  · rw [hshaped.remotes s rs hrs] at hshard
    obtain ⟨p, -, rfl⟩ := List.mem_map.mp hshard
    rfl
  · exact hwithout s rs hrs shard hshard

/-- A collection of a node takes the place of what it was before. -/
theorem proper_become (hi : self.homes[i]? = some home) {c : Collection X}
    (hc : self.collection home.peer home.name = some c) : home.live.Proper (.become c) := by
  have hhome := (h.homes i home hi).twoShards
  exact fun s ↦ ((h.collection hc).1 s).trans (hhome s).symm

theorem follows_touches (he : self.Proper J e) (hi : self.homes[i]? = some home)
    (ht : self.Touches U e i home l) : home.live.Follows l := by
  cases ht with
  | rests => exact .refl _
  | upserts _ hc _ =>
    exact (LiveCollection.Follows.step (h.proper_become hi hc)).trans (.step trivial)
  | reads _ hc _ =>
    exact (LiveCollection.Follows.step (h.proper_become hi hc)).trans (.step trivial)
  | hears _ _ _ _ hc _ =>
    exact (LiveCollection.Follows.step (h.proper_become hi hc)).trans (.step trivial)
  | calls j outcome _ => exact .step trivial
  | halts heq =>
    subst heq
    exact .step fun s key ↦ he i home hi rfl s key

theorem forwards_touches (hi : self.homes[i]? = some home) (ht : self.Touches U e i home l) :
    l.Forwards home.peer home.name := by
  have hforwards := (h.homes i home hi).forwards
  cases ht with
  | rests => exact hforwards
  | upserts _ hc _ =>
    exact LiveCollection.Forwards.step (hforwards.step (by simp)) fun _ _ _ _ ↦ (h.collection hc).2
  | reads _ hc _ => exact LiveCollection.Forwards.step (hforwards.step (by simp)) (by simp)
  | hears _ _ _ _ hc _ =>
    exact LiveCollection.Forwards.step (hforwards.step (by simp)) fun _ _ _ _ ↦ (h.collection hc).2
  | calls j outcome _ => exact hforwards.step (by simp)
  | halts _ => exact hforwards.step (by simp)

omit h in
/-- A node that loads what is on its disk has loaded such collections. -/
theorem twoShards_of_loads (h : self.Sound U J) {toc : TableOfContent X}
    (hloads : self.Loads J peer toc) (name : CollectionName) (c : Collection X)
    (hc : toc.collections.lookup name = some c) : c.TwoShards := by
  obtain ⟨i, hi⟩ : ∃ i, self.disk peer name = some i := by
    rw [← Option.isSome_iff_exists, ← hloads.collections, hc]
    rfl
  obtain ⟨home, hhome, -⟩ := h.housed peer name i hi
  exact fun s ↦ (hloads.shards name c i home hc hi hhome s).trans
    ((h.homes i home hhome).twoShards s)

theorem network_step (he : self.Proper J e) : (self.step U e).network.Orderly U J := by
  cases e with
  | network a =>
    have hstep : (self.network.step U a).Orderly U J := by
      refine h.network.step fun joiner p2pUrl toc via heq ↦ ?_
      subst heq
      exact ⟨Loads.loaded he, h.twoShards_of_loads he⟩
    cases a with
    | createCollection peer name params order =>
      rw [LiveCluster.step, administer]
      split
      · exact hstep
      · exact h.network
    | deleteCollection peer name =>
      rw [LiveCluster.step, administer]
      split
      · exact hstep
      · exact h.network
    | join joiner p2pUrl toc via => exact hstep
    | request i => exact hstep
    | answer i => exact hstep
    | advance peer i => exact hstep
  | boot peer p2pUrl toc => exact h.network.boot (Loads.loaded he) (h.twoShards_of_loads he)
  | halt peer recovered => exact h.network.halt peer
  | upsert peer name order points =>
    rw [LiveCluster.step_network (by simp) (by simp) (by simp)]
    exact h.network
  | read peer name order ids =>
    rw [LiveCluster.step_network (by simp) (by simp) (by simp)]
    exact h.network
  | advance a failure =>
    rw [LiveCluster.step_network (by simp) (by simp) (by simp)]
    exact h.network
  | send a connect order =>
    rw [LiveCluster.step_network (by simp) (by simp) (by simp)]
    exact h.network
  | reply a =>
    rw [LiveCluster.step_network (by simp) (by simp) (by simp)]
    exact h.network
  | fail a error =>
    rw [LiveCluster.step_network (by simp) (by simp) (by simp)]
    exact h.network

/-- A home is what it was, with what has happened to its collection. -/
theorem follows_step (he : self.Proper J e) (hi : self.homes[i]? = some home) :
    ∃ l, (self.step U e).homes[i]? = some { home with live := l } ∧ home.live.Follows l := by
  obtain ⟨l, hl, ht⟩ := step_home (U := U) h.housed e hi
  exact ⟨l, hl, h.follows_touches he hi ht⟩

/-- A request stays, with what it asks for. -/
theorem request_step (he : self.Proper J e) {a : Address} {r : LiveRequest V}
    (hr : self.request a = some r) :
    ∃ r', (self.step U e).request a = some r' ∧ r'.asked = r.asked := by
  obtain ⟨home, hhome, hr⟩ := Option.bind_eq_some_iff.mp hr
  obtain ⟨l, hl, hfollows⟩ := h.follows_step he hhome
  obtain ⟨r', hr', hasked⟩ := hfollows.exists_asked hr
  exact ⟨r', by rw [request, hl]; exact hr', hasked⟩

/-- A request that has succeeded stays as it is. -/
theorem done_step (he : self.Proper J e) {a : Address} {asked : Asked V} {v : Returned V}
    (hr : self.request a = some ⟨asked, some (.ok v)⟩) :
    (self.step U e).request a = some ⟨asked, some (.ok v)⟩ := by
  obtain ⟨home, hhome, hr⟩ := Option.bind_eq_some_iff.mp hr
  obtain ⟨l, hl, hfollows⟩ := h.follows_step he hhome
  rw [request, hl]
  exact hfollows.done hr

/-- **Every step keeps it.** -/
theorem step (he : self.Proper J e) : (self.step U e).Sound U J where
  network := h.network_step he
  housed := by
    intro peer name i hi
    obtain ⟨-, hdisk⟩ | ⟨peer', name', params, order, -, -, hhomes, hdisk⟩ :=
      self.disk_step (U := U) e
    · obtain hsame | ⟨-, hnone⟩ := hdisk peer name
      · obtain ⟨home, hhome, hpeer, hname⟩ := h.housed peer name i (hsame ▸ hi)
        obtain ⟨l, hl, -⟩ := h.follows_step he hhome
        exact ⟨_, hl, hpeer, hname⟩
      · rw [hnone] at hi
        exact absurd hi (by simp)
    · rw [hdisk] at hi
      split at hi
      · rename_i heq
        obtain ⟨rfl, rfl⟩ := heq
        refine ⟨.made peer name params order, ?_, rfl, rfl⟩
        rw [hhomes, ← Option.some.inj hi, List.getElem?_concat_length]
      · obtain ⟨home, hhome, hpeer, hname⟩ := h.housed peer name i hi
        obtain ⟨l, hl, -⟩ := h.follows_step he hhome
        exact ⟨_, hl, hpeer, hname⟩
  homes := by
    intro i home' hhome'
    by_cases hlt : i < self.homes.length
    · have hhome := List.getElem?_eq_getElem hlt
      obtain ⟨l, hl, ht⟩ := step_home (U := U) h.housed e hhome
      obtain rfl := Option.some.inj (hhome'.symm.trans hl)
      obtain ⟨params, path, order, hreached⟩ := (h.homes i _ hhome).reached
      have hforwards := h.forwards_touches hhome ht
      exact ⟨⟨params, path, order, (h.follows_touches he hhome ht).reached hreached⟩, hforwards⟩
    · obtain ⟨hlength, -⟩ | ⟨peer, name, params, order, -, -, hhomes, -⟩ :=
        self.disk_step (U := U) e
      · exact absurd (hlength ▸ (List.getElem?_eq_some_iff.mp hhome').1) hlt
      · rw [hhomes] at hhome'
        have hlength := (List.getElem?_eq_some_iff.mp hhome').1
        rw [List.length_append, List.length_singleton] at hlength
        obtain rfl : i = self.homes.length := by omega
        rw [List.getElem?_concat_length, Option.some_inj] at hhome'
        exact hhome' ▸ Home.Sound.made peer name params order
  waits := by
    intro a b hb
    obtain ⟨r, hr⟩ : ∃ r, self.request a = some r := by
      obtain hb | ⟨-, _, _, _, _, _, _, _, -, hpending, -⟩ := waits_step hb
      · exact Option.isSome_iff_exists.mp (h.waits a b hb)
      · obtain ⟨asked, next, hr⟩ := pending_eq_some_iff.mp hpending
        exact ⟨_, hr⟩
    obtain ⟨r', hr', -⟩ := h.request_step (U := U) he hr
    rw [hr']
    rfl

end Sound

theorem Sound.run (h : self.Sound U J) {events : List (ClusterEvent X)}
    (he : AllProper U J events self) : (self.run U events).Sound U J := by
  induction events generalizing self with
  | nil => exact h
  | cons e events ih => exact ih (h.step he.1) he.2

/-- **What happens to a collection of a node is a run of the collection.** -/
theorem Sound.follows_run (h : self.Sound U J) {events : List (ClusterEvent X)}
    (he : AllProper U J events self) (hi : self.homes[i]? = some home) :
    ∃ l, (self.run U events).homes[i]? = some { home with live := l } ∧ home.live.Follows l := by
  induction events generalizing self home with
  | nil => exact ⟨home.live, hi, .refl _⟩
  | cons e events ih =>
    obtain ⟨l, hl, hfollows⟩ := h.follows_step he.1 hi
    obtain ⟨l', hl', hfollows'⟩ := ih (h.step he.1) he.2 hl
    exact ⟨l', hl', hfollows.trans hfollows'⟩

/-- A collection that is not deleted stays on disk. -/
theorem disk_run {events : List (ClusterEvent X)} (hdisk : self.disk peer name = some i)
    (hdeletes : ∀ e ∈ events, ¬ e.Deletes peer name) :
    (self.run U events).disk peer name = some i := by
  induction events generalizing self with
  | nil => exact hdisk
  | cons e events ih =>
    obtain ⟨he, hevents⟩ := List.forall_mem_cons.mp hdeletes
    refine ih ?_ hevents
    obtain ⟨-, hstep⟩ | ⟨peer', name', params, order, -, hnone, -, hstep⟩ :=
      self.disk_step (U := U) e
    · obtain hsame | ⟨hdel, -⟩ := hstep peer name
      · exact hsame.trans hdisk
      · exact absurd hdel he
    · rw [hstep, if_neg]
      · exact hdisk
      · rintro ⟨rfl, rfl⟩
        rw [hnone] at hdisk
        exact absurd hdisk (by simp)

end LiveCluster

end Smoldb
