import Smoldb.Cluster.Sequential

/-!
# Upserts at the same time

An upsert only holds read locks, so any number of them are in progress at a time, and they meet in
the trees of the nodes.  `Traffic` is a cluster with upserts in progress, and `Cluster.act` one
thing that happens in it: a client starts an upsert, or one that is in progress gets on by one step.

The steps of an upsert are those of the code when nothing fails: one insert into a tree, locally or
in the handler at another node, is a step, and so are sending a request, taking it up, and the way
back of the reply.  A call is taken to reach the peer that its remote shard names.  In the code that
depends on the table of addresses in `RemoteShard::get_channel_service`, and so the connection to
the code below is for nodes between which calls get where they are meant to.  What a handler inserts
is what it decodes from the message, so a payload gets to another node as its text is read there.

`Cluster.upsert_alone` is the connection to the code: with nothing else going on, an upsert gets to
its end and has done what `Collection::upsert_points` does, where calls reach the peers they name.

The invariant of an upsert in progress is `Progress.Sound`, and it is stated in terms of what is
`Due`, the points that the upsert has yet to store at a node: each of them is the last one of its id
in the batch, and goes to the shard of its id.  `Progress.step_spec` says what a step can do: it
keeps `Sound` and changes nothing, or it stores one point that was due; everything else that was due
still is.
-/

set_option autoImplicit false

namespace Smoldb

open LastWrite

variable {V : Type} {X : Crates V}

/-! ## The model -/

/-- Insert one point. -/
def Stores.put (X : Crates V) (w : Stores) (pl : Place) (p : Point V) : Stores :=
  Function.update w pl (LocalShard.putAll X [p] (w pl))

/-- What an upsert in progress is doing. -/
inductive Stage (V : Type) where
  /-- Between two calls. -/
  | ready
  /-- Inserting into a shard of its own node. -/
  | localWrite (shard : ShardId) (rest : List (Point V))
  /-- The request of a call is on its way. -/
  | request (peer : PeerId) (message : UpsertPointsRequest)
  /-- The handler at a node is inserting. -/
  | remoteWrite (peer : PeerId) (collection : CollectionName) (rest : List (ShardId × Point V))
  /-- The reply of a call is on its way. -/
  | reply (peer : PeerId)

/-- An upsert in progress: where it was sent, its batch, and the calls it has yet to make. -/
structure Progress (V : Type) where
  peer : PeerId
  points : List (Point V)
  calls : List (Collection.Call V)
  stage : Stage V

/-- All calls have been made, and the last one has returned. -/
def Progress.finished (o : Progress V) : Bool :=
  match o.stage with
  | .ready => o.calls.isEmpty
  | _ => false

/-- What the handler inserts, and in which shards. -/
def Collection.inserts (c : Collection X) (order : IterOrder (ShardId × List PointId))
    (points : List (Point V)) : List (ShardId × Point V) :=
  (c.shardOrder order points).flatMap fun s ↦ (shardPoints c.shardOf points s).map fun p ↦ (s, p)

/-- The next step of an upsert.  A request goes to the peer that the remote shard names, in the code
as in here, but that the node listening at its address is that peer is taken for granted. -/
def Progress.step (cl : Cluster X) (name : CollectionName)
    (order : IterOrder (ShardId × List PointId)) (o : Progress V) (w : Stores) :
    Option (Stores × Progress V) :=
  match o.stage with
  | .ready =>
    match o.calls with
    | [] => none
    | ⟨s, .localShard _, points⟩ :: calls =>
      some (w, { o with calls := calls, stage := .localWrite s points })
    | ⟨_, .remoteShard shard, points⟩ :: calls =>
      some (w, { o with
        calls := calls
        stage := .request shard.peerId
          ⟨shard.collection, points.filterMap (Point.toGrpc X), none⟩ })
  | .localWrite s (p :: rest) =>
    some (w.put X ⟨o.peer, name, s⟩ p, { o with stage := .localWrite s rest })
  | .localWrite _ [] => some (w, { o with stage := .ready })
  | .request m message =>
    match cl.collection m message.collectionName, decodePoints X message.points with
    | some c, some points =>
      some (w, { o with
        stage := .remoteWrite m message.collectionName (c.inserts order points) })
    | _, _ => none
  | .remoteWrite m collection ((s, p) :: rest) =>
    some (w.put X ⟨m, collection, s⟩ p, { o with stage := .remoteWrite m collection rest })
  | .remoteWrite m _ [] => some (w, { o with stage := .reply m })
  | .reply _ => some (w, { o with stage := .ready })

/-- The trees of a cluster and the upserts in progress.  The points of all batches, in the order in
which they were started, are recorded but decide nothing. -/
structure Traffic (V : Type) where
  stores : Stores
  inProgress : List (Progress V)
  started : List (Point V)

/-- Something that happens. -/
inductive Action (V : Type) where
  | start (peer : PeerId) (order : IterOrder (ShardId × List PointId)) (points : List (Point V))
  | step (i : ℕ) (order : IterOrder (ShardId × List PointId))

/-- An upsert that was just started at a node. -/
def Collection.begin (c : Collection X) (peer : PeerId)
    (order : IterOrder (ShardId × List PointId)) (points : List (Point V)) : Progress V :=
  ⟨peer, points, (c.shardOrder order points).flatMap (c.shardCalls points false), .ready⟩

/-- What happens, if it can. -/
def Cluster.act (cl : Cluster X) (name : CollectionName) (t : Traffic V) :
    Action V → Option (Traffic V)
  | .start peer order points =>
    (cl.collection peer name).map fun c ↦
      { t with
        inProgress := t.inProgress ++ [c.begin peer order points]
        started := t.started ++ points }
  | .step i order =>
    t.inProgress[i]?.bind fun o ↦
      if o.finished then some { t with inProgress := t.inProgress.eraseIdx i }
      else (o.step cl name order t.stores).map fun next ↦
        { t with stores := next.1, inProgress := t.inProgress.set i next.2 }

/-- One thing after the other. -/
def Cluster.acts (cl : Cluster X) (name : CollectionName) :
    List (Action V) → Traffic V → Option (Traffic V)
  | [], t => some t
  | a :: as, t => (cl.act name t a).bind (cl.acts name as)

theorem Cluster.acts_append (cl : Cluster X) (name : CollectionName) (as bs : List (Action V))
    (t : Traffic V) : cl.acts name (as ++ bs) t = (cl.acts name as t).bind (cl.acts name bs) := by
  induction as generalizing t with
  | nil => rfl
  | cons a as ih =>
    rw [List.cons_append, acts, acts]
    cases cl.act name t a with
    | none => rfl
    | some t' => exact ih t'

/-! ## What a step can do -/

/-- The node that a call is to. -/
def Replica.target (peer : PeerId) : Replica → PeerId
  | .localShard _ => peer
  | .remoteShard shard => shard.peerId

/-- A point that the current call has yet to store at a node. -/
def Stage.Due (X : Crates V) (peer : PeerId) : Stage V → PeerId → Point V → Prop
  | .ready, _, _ => False
  | .localWrite _ rest, m, p => m = peer ∧ p ∈ rest
  | .request m' message, m, p =>
    m = m' ∧ ∃ points, decodePoints X message.points = some points ∧ p ∈ points
  | .remoteWrite m' _ rest, m, p => m = m' ∧ ∃ s, (s, p) ∈ rest
  | .reply _, _, _ => False

/-- A point that an upsert has yet to store at a node. -/
def Progress.Due (X : Crates V) (o : Progress V) (m : PeerId) (p : Point V) : Prop :=
  (∃ call ∈ o.calls, call.replica.target o.peer = m ∧ p ∈ call.points) ∨ o.stage.Due X o.peer m p

/-- The points of the current call go to their shards, and requests to nodes of the cluster. -/
def Stage.Routed (name : CollectionName) (peers : List PeerId) (f : PointId → ShardId) :
    Stage V → Prop
  | .ready => True
  | .localWrite s rest => ∀ p ∈ rest, f p.id = s
  | .request m message => m ∈ peers ∧ message.collectionName = name
  | .remoteWrite _ collection rest => collection = name ∧ ∀ e ∈ rest, f e.2.id = e.1
  | .reply _ => True

/-- What holds of an upsert as long as it is in progress. -/
structure Progress.Sound (X : Crates V) (name : CollectionName) (peers : List PeerId)
    (f : PointId → ShardId) (o : Progress V) : Prop where
  numeric : ∀ p ∈ o.points, p.id.isId = true
  last : ∀ m p, o.Due X m p → last Point.id o.points p.id = some p
  shard : ∀ call ∈ o.calls, ∀ p ∈ call.points, f p.id = call.shard
  remote : ∀ call ∈ o.calls, ∀ shard, call.replica = .remoteShard shard →
    shard.peerId ∈ peers ∧ shard.collection = name
  stage : o.stage.Routed name peers f

theorem Collection.mem_inserts {c : Collection X} {order : IterOrder (ShardId × List PointId)}
    {points : List (Point V)} {e : ShardId × Point V} :
    e ∈ c.inserts order points ↔
      c.shardOf e.2.id = e.1 ∧ LastWrite.last Point.id points e.2.id = some e.2 := by
  rw [inserts, List.mem_flatMap]
  constructor
  · rintro ⟨s, -, he⟩
    obtain ⟨p, hp, rfl⟩ := List.mem_map.mp he
    exact mem_shardPoints.mp hp
  · intro he
    exact ⟨e.1, mem_shardOrder.mpr ⟨e.2, mem_of_last he.2, he.1⟩,
      List.mem_map.mpr ⟨e.2, mem_shardPoints.mpr he, rfl⟩⟩

/-- A step changes nothing, or it stores a point that was due; everything else that was due still
is, and nothing new is. -/
inductive Progress.Advance (X : Crates V) (name : CollectionName) (f : PointId → ShardId)
    (o o' : Progress V) (w : Stores) : Stores → Prop where
  | idle (h : ∀ m p, o.Due X m p → o'.Due X m p) : Advance X name f o o' w w
  | store (m : PeerId) (p : Point V) (hp : o.Due X m p)
      (h : ∀ m' p', o.Due X m' p' → o'.Due X m' p' ∨ (m' = m ∧ p' = p)) :
      Advance X name f o o' w (w.put X ⟨m, name, f p.id⟩ p)

section Step

variable {name : CollectionName} {peers : List PeerId} {f : PointId → ShardId} {o : Progress V}
  {stage : Stage V} {w : Stores}

/-- Where nothing new is due, most of `Sound` carries over. -/
theorem Progress.Sound.of_due (ho : o.Sound X name peers f) {calls : List (Collection.Call V)}
    (hcalls : ∀ call ∈ calls, call ∈ o.calls)
    (hdue : ∀ m p, ({ o with calls := calls, stage := stage } : Progress V).Due X m p →
      o.Due X m p)
    (hstage : stage.Routed name peers f) :
    ({ o with calls := calls, stage := stage } : Progress V).Sound X name peers f where
  numeric := ho.numeric
  last m p hp := ho.last m p (hdue m p hp)
  shard call hcall := ho.shard call (hcalls call hcall)
  remote call hcall := ho.remote call (hcalls call hcall)
  stage := hstage

/-- The current call goes on, and nothing new is due. -/
theorem Progress.Sound.of_stage (ho : o.Sound X name peers f)
    (hdue : ∀ m p, stage.Due X o.peer m p → o.stage.Due X o.peer m p)
    (hstage : stage.Routed name peers f) :
    ({ o with stage := stage } : Progress V).Sound X name peers f :=
  ho.of_due (fun _ hcall ↦ hcall) (fun m p hp ↦ hp.imp_right (hdue m p)) hstage

/-- The next call begins, and what was due of it still is. -/
theorem Progress.Sound.begin_call (ho : o.Sound X name peers f) {call : Collection.Call V}
    {calls : List (Collection.Call V)} (hcalls : o.calls = call :: calls)
    (hready : o.stage = .ready)
    (hnew : ∀ m p, stage.Due X o.peer m p → call.replica.target o.peer = m ∧ p ∈ call.points)
    (hdue : ∀ p ∈ call.points, p.id.isId = true →
      stage.Due X o.peer (call.replica.target o.peer) p)
    (hstage : stage.Routed name peers f) :
    ({ o with calls := calls, stage := stage } : Progress V).Sound X name peers f ∧
      o.points = o.points ∧ o.Advance X name f { o with calls := calls, stage := stage } w w := by
  have hcall : call ∈ o.calls := by
    rw [hcalls]
    exact List.mem_cons_self
  have hrest : ∀ c ∈ calls, c ∈ o.calls := by
    rw [hcalls]
    exact fun _ ↦ List.mem_cons_of_mem _
  refine ⟨ho.of_due hrest ?_ hstage, rfl, .idle ?_⟩
  · rintro m p (⟨c, hc, hp⟩ | hp)
    · exact Or.inl ⟨c, hrest c hc, hp⟩
    · exact Or.inl ⟨call, hcall, hnew m p hp⟩
  · rintro m p hp
    have hnumeric := ho.numeric p (mem_of_last (ho.last m p hp))
    rcases hp with ⟨c, hc, rfl, hp⟩ | hp
    · rw [hcalls] at hc
      rcases List.mem_cons.mp hc with rfl | hc
      · exact Or.inr (hdue p hp hnumeric)
      · exact Or.inl ⟨c, hc, rfl, hp⟩
    · rw [hready] at hp
      exact hp.elim

/-- The current call goes on without storing a point. -/
theorem Progress.Advance.of_stage
    (hdue : ∀ m p, o.stage.Due X o.peer m p → stage.Due X o.peer m p) :
    o.Advance X name f { o with stage := stage } w w :=
  .idle fun m p hp ↦ hp.imp_right (hdue m p)

/-- The current call stores a point. -/
theorem Progress.Advance.store_of_stage {m : PeerId} {p : Point V}
    (hp : o.stage.Due X o.peer m p)
    (hdue : ∀ m' p', o.stage.Due X o.peer m' p' →
      stage.Due X o.peer m' p' ∨ m' = m ∧ p' = p) :
    o.Advance X name f { o with stage := stage } w (w.put X ⟨m, name, f p.id⟩ p) := by
  refine .store m p (Or.inr hp) ?_
  rintro m' p' (hcalls | hstage)
  · exact Or.inl (Or.inl hcalls)
  · exact (hdue m' p' hstage).imp_left Or.inr

/-- Of the points of a message that are due, the handler inserts all. -/
theorem Progress.Sound.due_inserts {c : Collection X} (order : IterOrder (ShardId × List PointId))
    {points : List (Point V)} {m : PeerId} (ho : o.Sound X name peers f)
    (hdue : ∀ q ∈ points, o.Due X m q) {p : Point V} (hp : p ∈ points) :
    (c.shardOf p.id, p) ∈ c.inserts order points := by
  -- all points of the message with the id of `p` are `p`
  obtain ⟨q, hq⟩ := exists_last_of_mem Point.id hp
  have hqid : q.id = p.id := key_of_last hq
  have hlast := ho.last m q (hdue q (mem_of_last hq))
  rw [hqid, ho.last m p (hdue p hp), Option.some_inj] at hlast
  rw [← hlast] at hq
  exact Collection.mem_inserts.mpr ⟨rfl, hq⟩

/-- **What a step can do.** -/
theorem Progress.step_spec [X.PayloadsRoundTrip] {cl : Cluster X}
    (hroute : ∀ m ∈ peers, ∀ c, cl.collection m name = some c → c.shardOf = f)
    {order : IterOrder (ShardId × List PointId)} {o' : Progress V} {w' : Stores}
    (ho : o.Sound X name peers f) (h : o.step cl name order w = some (w', o')) :
    o'.Sound X name peers f ∧ o'.points = o.points ∧ o.Advance X name f o' w w' := by
  obtain ⟨peer, points, calls, stage⟩ := o
  cases stage with
  | ready =>
    rcases calls with _ | ⟨⟨s, _ | shard, qs⟩, calls⟩
    · exact nomatch h
    · cases h
      exact ho.begin_call rfl rfl (fun m p hp ↦ ⟨hp.1.symm, hp.2⟩) (fun p hp _ ↦ ⟨rfl, hp⟩)
        (ho.shard _ List.mem_cons_self)
    · cases h
      -- the message has the points with numbers for ids, and others are not due
      have hdecode : ∀ p, (∃ ps, decodePoints X (qs.filterMap (Point.toGrpc X)) = some ps ∧
          p ∈ ps) ↔ p ∈ qs ∧ p.id.isId = true := by
        intro p
        rw [decodePoints_toGrpc, resent_eq]
        simp only [Option.some.injEq, exists_eq_left', mem_numeric]
      exact ho.begin_call rfl rfl (fun m p hp ↦ ⟨hp.1.symm, ((hdecode p).mp hp.2).1⟩)
        (fun p hp hid ↦ ⟨rfl, (hdecode p).mpr ⟨hp, hid⟩⟩)
        (ho.remote _ List.mem_cons_self shard rfl)
  | localWrite s rest =>
    cases rest with
    | nil =>
      cases h
      exact ⟨ho.of_stage (fun _ _ hp ↦ hp.elim) trivial, rfl,
        .of_stage fun _ _ hp ↦ absurd hp.2 (by simp)⟩
    | cons q rest =>
      cases h
      have hq : f q.id = s := ho.stage q List.mem_cons_self
      refine ⟨ho.of_stage (fun _ _ hp ↦ ⟨hp.1, List.mem_cons_of_mem _ hp.2⟩)
        fun p hp ↦ ho.stage p (List.mem_cons_of_mem _ hp), rfl, ?_⟩
      rw [← hq]
      refine .store_of_stage ⟨rfl, List.mem_cons_self⟩ fun m p hp ↦ ?_
      rcases List.mem_cons.mp hp.2 with rfl | hmem
      · exact Or.inr ⟨hp.1, rfl⟩
      · exact Or.inl ⟨hp.1, hmem⟩
  | request m message =>
    obtain ⟨hm, hname⟩ := ho.stage
    rw [step] at h
    cases hcoll : cl.collection m message.collectionName with
    | none => simp [hcoll] at h
    | some c =>
      cases hdec : decodePoints X message.points with
      | none => simp [hcoll, hdec] at h
      | some ps =>
        simp only [hcoll, hdec, Option.some.injEq, Prod.mk.injEq] at h
        obtain ⟨rfl, rfl⟩ := h
        have hf : c.shardOf = f := hroute m hm c (by rw [← hname]; exact hcoll)
        refine ⟨ho.of_stage ?_ ⟨hname, fun e he ↦ ?_⟩, rfl, .of_stage ?_⟩
        · rintro m' p ⟨hm', s, hp⟩
          exact ⟨hm', ps, hdec, mem_of_last (Collection.mem_inserts.mp hp).2⟩
        · rw [← hf]
          exact (Collection.mem_inserts.mp he).1
        · rintro m' p ⟨hm', ps', hps', hp⟩
          obtain rfl : ps = ps' := Option.some.inj (hdec.symm.trans hps')
          exact ⟨hm', c.shardOf p.id,
            ho.due_inserts order (fun q hq ↦ Or.inr ⟨hm', ps, hdec, hq⟩) hp⟩
  | remoteWrite m collection rest =>
    obtain ⟨hname, hrest⟩ := ho.stage
    cases rest with
    | nil =>
      cases h
      refine ⟨ho.of_stage (fun _ _ hp ↦ hp.elim) trivial, rfl, .of_stage ?_⟩
      rintro m' p ⟨-, s, hp⟩
      exact absurd hp (by simp)
    | cons e rest =>
      obtain ⟨s, q⟩ := e
      cases h
      have hq : f q.id = s := hrest _ List.mem_cons_self
      refine ⟨ho.of_stage ?_ ⟨hname, fun e he ↦ hrest e (List.mem_cons_of_mem _ he)⟩, rfl, ?_⟩
      · rintro m' p ⟨hm', t, hp⟩
        exact ⟨hm', t, List.mem_cons_of_mem _ hp⟩
      · rw [← hq, hname]
        refine .store_of_stage ⟨rfl, _, List.mem_cons_self⟩ ?_
        rintro m' p ⟨hm', t, hp⟩
        rcases List.mem_cons.mp hp with he | hp
        · exact Or.inr ⟨hm', (Prod.mk.inj he).2⟩
        · exact Or.inl ⟨hm', t, hp⟩
  | reply m =>
    cases h
    exact ⟨ho.of_stage (fun _ _ hp ↦ hp.elim) trivial, rfl, .of_stage fun _ _ hp ↦ hp.elim⟩

end Step

/-! ## An upsert with nothing else going on -/

/-- Insert points at places, one after the other. -/
def Stores.putList (X : Crates V) (l : List (Place × Point V)) (w : Stores) : Stores :=
  l.foldl (fun w e ↦ w.put X e.1 e.2) w

theorem Stores.put_eq_putAll (w : Stores) (pl : Place) (p : Point V) :
    w.put X pl p = Stores.putAll X (WriteLog.single pl [p]) w := by
  funext pl'
  by_cases hpl : pl' = pl
  · subst hpl
    rw [Stores.put, Function.update_self, Stores.putAll, WriteLog.single_self]
  · rw [Stores.put, Function.update_of_ne hpl, Stores.putAll, WriteLog.single, if_neg hpl,
      LocalShard.putAll_nil]

theorem Stores.putList_eq (l : List (Place × Point V)) (w : Stores) : Stores.putList X l w
    = Stores.putAll X (fun pl ↦ (l.filter fun e ↦ e.1 = pl).map Prod.snd) w := by
  induction l generalizing w with
  | nil => exact (Stores.putAll_nil w).symm
  | cons e l ih =>
    have hcons : Stores.putList X (e :: l) w = Stores.putList X l (w.put X e.1 e.2) := rfl
    rw [hcons, ih, Stores.put_eq_putAll, Stores.putAll_putAll]
    congr 1
    funext pl
    by_cases hpl : e.1 = pl
    · rw [List.filter_cons_of_pos (by simpa using hpl), List.map_cons, ← hpl, WriteLog.single_self]
      rfl
    · rw [List.filter_cons_of_neg (by simpa using hpl), WriteLog.single,
        if_neg fun h ↦ hpl h.symm, List.nil_append]

/-- Of points that all go to one place, those that go to a place. -/
theorem WriteLog.filter_map_place (pl pl' : Place) (points : List (Point V)) :
    ((points.map fun p ↦ (pl', p)).filter fun e ↦ e.1 = pl).map Prod.snd
      = WriteLog.single pl' points pl := by
  rw [List.filter_map, List.map_map]
  by_cases hpl : pl = pl'
  · subst hpl
    rw [WriteLog.single_self, List.filter_eq_self.mpr fun p _ ↦ by simp]
    exact List.map_id points
  · rw [WriteLog.single, if_neg hpl, List.filter_eq_nil_iff.mpr fun p _ ↦
      by simpa using Ne.symm hpl]
    rfl

/-- What the handler inserts, as a log. -/
theorem Collection.putList_inserts (c : Collection X) (m : PeerId) (name : CollectionName)
    (order : IterOrder (ShardId × List PointId)) (points : List (Point V)) (w : Stores) :
    Stores.putList X ((c.inserts order points).map fun e ↦ (⟨m, name, e.1⟩, e.2)) w
      = Stores.putAll X (WriteLog.node m name (shardPoints c.shardOf points)) w := by
  rw [Stores.putList_eq]
  congr 1
  funext pl
  have hlog : ∀ l : List ShardId, ((((l.flatMap fun s ↦
      (shardPoints c.shardOf points s).map fun p ↦ (s, p)).map fun e ↦
        ((⟨m, name, e.1⟩ : Place), e.2)).filter fun e ↦ e.1 = pl).map Prod.snd)
      = l.flatMap fun s ↦ WriteLog.single ⟨m, name, s⟩ (shardPoints c.shardOf points s) pl := by
    intro l
    induction l with
    | nil => rfl
    | cons s l ih =>
      rw [List.flatMap_cons, List.map_append, List.filter_append, List.map_append, ih,
        List.flatMap_cons]
      congr 1
      rw [List.map_map]
      exact WriteLog.filter_map_place pl ⟨m, name, s⟩ _
  rw [inserts, hlog, WriteLog.flatMap_single m name _ (shardOrder_nodup order points),
    WriteLog.node, WriteLog.node]
  split
  · split
    · rfl
    · rename_i hs
      exact (shardPoints_eq_nil hs).symm
  · rfl

section Alone

variable {cl : Cluster X} {name : CollectionName} {peer : PeerId} {points : List (Point V)}
  {calls : List (Collection.Call V)} {started : List (Point V)}

/-- One upsert in progress gets from one state to another. -/
def Cluster.Gets (cl : Cluster X) (name : CollectionName) (started : List (Point V)) (w : Stores)
    (o : Progress V) (w' : Stores) (o' : Progress V) : Prop :=
  ∃ as, cl.acts name as ⟨w, [o], started⟩ = some ⟨w', [o'], started⟩

theorem Cluster.Gets.refl (w : Stores) (o : Progress V) : cl.Gets name started w o w o := ⟨[], rfl⟩

theorem Cluster.Gets.trans {w w' w'' : Stores} {o o' o'' : Progress V}
    (h : cl.Gets name started w o w' o') (h' : cl.Gets name started w' o' w'' o'') :
    cl.Gets name started w o w'' o'' := by
  obtain ⟨as, has⟩ := h
  obtain ⟨bs, hbs⟩ := h'
  exact ⟨as ++ bs, by rw [Cluster.acts_append, has]; exact hbs⟩

theorem Cluster.Gets.step {w w' : Stores} {o o' : Progress V} (hfin : o.finished = false)
    (order : IterOrder (ShardId × List PointId)) (h : o.step cl name order w = some (w', o')) :
    cl.Gets name started w o w' o' :=
  ⟨[.step 0 order], by simp [Cluster.acts, Cluster.act, hfin, h]⟩

theorem Cluster.gets_localWrite (s : ShardId) (rest : List (Point V)) (w : Stores) :
    cl.Gets name started w ⟨peer, points, calls, .localWrite s rest⟩
      (Stores.putList X (rest.map fun p ↦ (⟨peer, name, s⟩, p)) w)
        ⟨peer, points, calls, .ready⟩ := by
  induction rest generalizing w with
  | nil => exact .step rfl .insertion rfl
  | cons p rest ih => exact .trans (.step rfl .insertion rfl) (ih _)

theorem Cluster.gets_remoteWrite (m : PeerId) (collection : CollectionName)
    (rest : List (ShardId × Point V)) (w : Stores) :
    cl.Gets name started w ⟨peer, points, calls, .remoteWrite m collection rest⟩
      (Stores.putList X (rest.map fun e ↦ (⟨m, collection, e.1⟩, e.2)) w)
      ⟨peer, points, calls, .reply m⟩ := by
  induction rest generalizing w with
  | nil => exact .step rfl .insertion rfl
  | cons e rest ih => exact .trans (.step rfl .insertion rfl) (ih _)

variable {shards : List ShardId} {peers : List PeerId}

/-- A call gets to its end, and has done what the replica does. -/
theorem Cluster.Replicated.gets_call (h : cl.Replicated name shards peers) {c : Collection X}
    (hc : cl.Hosts peer name c) (hk : c.Knows shards (peers.erase peer)) {env : ClusterWriteEnv}
    (henv : env.Clean cl peers) {s : ShardId} {rs : ReplicaSet}
    (hrs : c.replicaHolder.shards.lookup s = some rs) {r : Replica} (hr : r ∈ rs.replicas false)
    (qs : List (Point V)) (w : Stores) :
    cl.Gets name started w ⟨peer, points, ⟨s, r, qs⟩ :: calls, .ready⟩
      (cl.replicaUpsert peer name env s r qs w).1 ⟨peer, points, calls, .ready⟩ := by
  cases r with
  | localShard shard =>
    obtain rfl : shard = rs.localShard := by simpa [ReplicaSet.replicas] using hr
    have hup : (cl.replicaUpsert peer name env s (.localShard rs.localShard) qs w).1
        = Stores.putList X (qs.map fun p ↦ (⟨peer, name, s⟩, p)) w := by
      have hlog : (fun pl : Place ↦ ((qs.map fun p ↦ ((⟨peer, name, s⟩ : Place), p)).filter
          fun e ↦ e.1 = pl).map Prod.snd) = WriteLog.single ⟨peer, name, s⟩ qs := by
        funext pl
        exact WriteLog.filter_map_place pl ⟨peer, name, s⟩ qs
      obtain ⟨log, r, heq, -, hok⟩ := replicaUpsert_local_spec (X := X) peer name env.sled
        (fun s shard ↦ shard.upsertPoints cl (env.remote s shard.peerId)) s rs.localShard qs
      have hclean := h.replicaUpsert_clean hc hk henv hrs hr qs w
      rw [Cluster.replicaUpsert, heq] at hclean
      rw [Cluster.replicaUpsert, heq, hok hclean, Stores.putList_eq, hlog]
    rw [hup]
    exact .trans (.step rfl .insertion rfl) (Cluster.gets_localWrite s qs w)
  | remoteShard shard =>
    have hshard : shard ∈ rs.remotes := by simpa [ReplicaSet.replicas] using hr
    have hpeer : shard.peerId ∈ peers := List.mem_of_mem_erase
      ((hk.remotes s rs hrs).mem_iff.mp (List.mem_map.mpr ⟨shard, hshard, rfl⟩))
    obtain ⟨c', hc', hk'⟩ := h.hosts _ hpeer
    obtain ⟨s₀, hs₀⟩ := hk'.exists_mem h.nonempty
    have hcoll : cl.collection shard.peerId shard.collection = some c' := by
      rw [(hc.wellFormed.remote s rs hrs shard hshard).2, hc.id]
      exact hc'.collection
    have hup : (cl.replicaUpsert peer name env s (.remoteShard shard) qs w).1
        = Stores.putAll X (received c' shard.peerId shard.collection qs) w :=
      congrArg Prod.fst (RemoteShard.upsertPoints_clean (henv.reaches s shard hpeer)
        (henv.request s _) (henv.reply s _) (henv.handler s _) hcoll hc'.wellFormed hs₀ qs w)
    rw [hup, received, ← Collection.putList_inserts c' _ _ .insertion]
    refine .trans (.step rfl .insertion rfl) (.trans (.step rfl .insertion ?_)
      (.trans (Cluster.gets_remoteWrite _ _ _ w) (.step rfl .insertion rfl)))
    simp only [Progress.step, hcoll, decodePoints_toGrpc]

/-- **With nothing else going on, an upsert gets to its end and has done what the code does.** -/
theorem Cluster.Replicated.upsert_alone (h : cl.Replicated name shards peers) {u : NodeUpsert V}
    (hu : u.peer ∈ peers) (henv : u.env.Clean cl peers) (w : Stores) :
    ∃ as, cl.acts name (.start u.peer u.env.order u.points :: as) ⟨w, [], started⟩
      = some ⟨(cl.clientUpsert name u w).1, [], started ++ u.points⟩ := by
  obtain ⟨c, hc, hk⟩ := h.hosts u.peer hu
  obtain ⟨s₀, hs₀⟩ := hk.exists_mem h.nonempty
  obtain ⟨heq, hiff⟩ := Cluster.clientUpsert_eq (w := w) hc
  have hok := hiff.mp (h.clientUpsert_clean hu henv w)
  rw [heq, (Cluster.upsertPoints_of_ok hs₀ hok).1]
  -- the calls that are yet to be made are calls to replicas of the node's shards
  have hgets : ∀ (cs : List (Collection.Call V)) (w : Stores),
      (∀ call ∈ cs, ∃ rs, c.replicaHolder.shards.lookup call.shard = some rs ∧
        call.replica ∈ rs.replicas false) →
      cl.Gets name (started ++ u.points) w ⟨u.peer, u.points, cs, .ready⟩
        (Collection.runCalls (cl.replicaUpsert u.peer name u.env) cs w)
        ⟨u.peer, u.points, [], .ready⟩ := by
    intro cs
    induction cs with
    | nil => exact fun w _ ↦ .refl w _
    | cons call cs ih =>
      intro w hcs
      obtain ⟨rs, hrs, hr⟩ := hcs call List.mem_cons_self
      exact .trans (h.gets_call hc hk henv hrs hr call.points w)
        (ih _ fun call hcall ↦ hcs call (List.mem_cons_of_mem _ hcall))
  have hcalls : ∀ call ∈ (c.shardOrder u.env.order u.points).flatMap
      (c.shardCalls u.points false), ∃ rs, c.replicaHolder.shards.lookup call.shard = some rs ∧
        call.replica ∈ rs.replicas false := by
    intro call hcall
    obtain ⟨s, -, hcall⟩ := List.mem_flatMap.mp hcall
    obtain ⟨rs, hrs, r, hr, rfl⟩ := mem_shardCalls.mp hcall
    exact ⟨rs, hrs, hr⟩
  obtain ⟨as, has⟩ := hgets _ w hcalls
  refine ⟨as ++ [.step 0 .insertion], ?_⟩
  have hstart : cl.act name ⟨w, [], started⟩ (.start u.peer u.env.order u.points)
      = some ⟨w, [c.begin u.peer u.env.order u.points], started ++ u.points⟩ := by
    rw [Cluster.act, hc.collection]
    rfl
  rw [Cluster.acts, hstart, Option.bind_some, Cluster.acts_append, Collection.begin, has]
  rfl

end Alone

end Smoldb
