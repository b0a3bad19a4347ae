import Smoldb.Cluster.Placement

/-!
# A list asks everybody

A list goes through the shards in the order of the map, and for each through its replicas, and keeps
the first point of every id.  So a shard of the node itself comes before its own remote shards, but
not before those of the shards visited earlier, which may answer with anything.

`Collection.list` is what a list returns when all replicas answer, as a function of the answers and
of the order.  On it stand the two theorems.

* `list_prefers_local_iff` says when the points of the node itself prevail, and when the order of
  the map makes no difference: it is the same.  No two shards may have different points for one id,
  where a shard has what the node itself has stored there, or else what the first of its remote
  shards has answered (`ShardsAgree`).  Remote shards that keep to their shard see to that
  (`Placed.shardsAgree`), since an id is in one shard only.
* `list_complete_iff` says when a list has everything there is: no remote shard may fail, for one
  error is an error of the whole, and no two answers may differ in a point.

What the other nodes answer is arbitrary here, so they say what the code relies on, not what a
well-behaved cluster does.  That the conditions are necessary is shown with an order of the map that
begins with a shard of one's choice, `IterOrder.startingWith`.
-/

set_option autoImplicit false

namespace Smoldb

open LastWrite

variable {V : Type} {X : Crates V} {peer : PeerId} {name : CollectionName} {c : Collection X}
  {w : Stores}

/-! ## The order of the shards -/

/-- The collection, with another order in which the map of its shards is iterated. -/
def Collection.iteratedBy (c : Collection X) (order : IterOrder (Σ _ : ShardId, ReplicaSet)) :
    Collection X :=
  { c with replicaHolder := .new (c.replicaHolder.shards.arrangedBy order) }

theorem Collection.WellFormed.iteratedBy (h : c.WellFormed)
    (order : IterOrder (Σ _ : ShardId, ReplicaSet)) : (c.iteratedBy order).WellFormed := by
  have hlookup : ∀ s, (c.iteratedBy order).replicaHolder.shards.lookup s
      = c.replicaHolder.shards.lookup s := HashMap.lookup_arrangedBy _ order
  refine ⟨fun s rs hrs ↦ h.segment s rs ?_, fun s rs hrs ↦ h.remote s rs ?_⟩
  all_goals rwa [← hlookup]

/-- An iteration that starts with a given element, if it is there. -/
def IterOrder.startingWith {α : Type} [DecidableEq α] (a : α) : IterOrder α where
  arrange l := if a ∈ l then a :: l.erase a else l
  perm l := by
    split
    · rename_i ha
      exact (List.perm_cons_erase ha).symm
    · exact .refl l

/-! ## What a list returns -/

/-- The points of a collection, as they are listed with such answers of the remote shards. -/
def Collection.list (c : Collection X) (peer : PeerId) (name : CollectionName)
    (sled : ShardId → SledReads) (w : Stores)
    (answers : ShardId → RemoteShard → CollectionResult (List (Point V)))
    (shardId : Option ShardId) : Option (CollectionResult (List (Point V))) :=
  c.getPoints (replicaGet X peer name sled w fun s r _ ↦ some (answers s r)) .insertion none shardId
    false

/-- What the replicas of a shard have, in the order in which they are asked. -/
def shardAnswers (X : Crates V) (peer : PeerId) (name : CollectionName) (w : Stores)
    (answers : ShardId → RemoteShard → CollectionResult (List (Point V)))
    (entry : Σ _ : ShardId, ReplicaSet) : List (Point V) :=
  w.points X peer name entry.1 ++
    entry.2.remotes.flatMap fun r ↦ (answers entry.1 r).toOption.getD []

section List

variable {sled : ShardId → SledReads}
  {answers : ShardId → RemoteShard → CollectionResult (List (Point V))} {shardId : Option ShardId}

/-- The shards of the node itself that are asked can be read. -/
def Collection.ReadsLocally (c : Collection X) (peer : PeerId) (name : CollectionName)
    (sled : ShardId → SledReads) (w : Stores) (shardId : Option ShardId) : Prop :=
  ∀ e ∈ Collection.selected shardId c.replicaHolder.shards.entries,
    ∃ ps : List (Point V), e.2.localShard.getPoints X (sled e.1) none (w ⟨peer, name, e.1⟩) = .ok ps

/-- All remote shards that are asked answer. -/
def Collection.AllAnswer (c : Collection X)
    (answers : ShardId → RemoteShard → CollectionResult (List (Point V)))
    (shardId : Option ShardId) : Prop :=
  ∀ e ∈ Collection.selected shardId c.replicaHolder.shards.entries, ∀ r ∈ e.2.remotes,
    ∃ ps, answers e.1 r = .ok ps

/-- **What a list returns**: if all remote shards answer, the first point of every id. -/
theorem Collection.list_eq_ok (hlocal : c.ReadsLocally peer name sled w shardId)
    {ps : List (Point V)} :
    c.list peer name sled w answers shardId = some (.ok ps) ↔ c.AllAnswer answers shardId ∧
      ps = firsts ((Collection.selected shardId c.replicaHolder.shards.entries).flatMap
        (shardAnswers X peer name w answers)) := by
  have hread : ∀ e ∈ Collection.selected shardId c.replicaHolder.shards.entries,
      e.2.localShard.getPoints X (sled e.1) none (w ⟨peer, name, e.1⟩)
        = .ok (w.points X peer name e.1) := by
    intro e he
    obtain ⟨qs, hqs⟩ := hlocal e he
    rw [hqs, (LocalShard.getPoints_eq_ok X hqs).2]
    rfl
  let read := replicaGet X peer name sled w fun s r _ ↦ some (answers s r)
  have hlocalListed : ∀ e ∈ Collection.selected shardId c.replicaHolder.shards.entries,
      read e.1 (.localShard e.2.localShard) none = some (.ok (w.points X peer name e.1)) :=
    fun e he ↦ congrArg some (hread e he)
  have hremote : ∀ (e : Σ _ : ShardId, ReplicaSet) (r : RemoteShard),
      read e.1 (.remoteShard r) none = some (answers e.1 r) := fun _ _ ↦ rfl
  have hlisted : ∀ (e : Σ _ : ShardId, ReplicaSet) (r : RemoteShard),
      Collection.listed read e.1 (.remoteShard r) = (answers e.1 r).toOption.getD [] := by
    intro e r
    rw [Collection.listed, hremote]
    cases answers e.1 r <;> rfl
  have hlists : ∀ e ∈ Collection.selected shardId c.replicaHolder.shards.entries,
      Collection.Lists read false e ↔ ∀ r ∈ e.2.remotes, ∃ qs, answers e.1 r = .ok qs := by
    intro e he
    constructor
    · intro h r hr
      have hmem : Replica.remoteShard r ∈ e.2.replicas false :=
        List.mem_cons_of_mem _ (List.mem_map.mpr ⟨r, hr, rfl⟩)
      exact ⟨_, Option.some.inj (h _ hmem)⟩
    · intro h r hr
      rcases List.mem_cons.mp hr with rfl | hr
      · rw [Collection.listed, hlocalListed e he]
      · obtain ⟨shard, hshard, rfl⟩ := List.mem_map.mp hr
        obtain ⟨qs, hqs⟩ := h shard hshard
        rw [hlisted, hremote, hqs]
        rfl
  have hall : ∀ e ∈ Collection.selected shardId c.replicaHolder.shards.entries,
      Collection.listedAll read false e = shardAnswers X peer name w answers e := by
    intro e he
    have hhome : Collection.listed read e.1 (.localShard e.2.localShard)
        = w.points X peer name e.1 := by rw [Collection.listed, hlocalListed e he]
    rw [Collection.listedAll, ReplicaSet.replicas, List.flatMap_cons, hhome, shardAnswers]
    simp only [Bool.false_eq_true, if_false, List.flatMap_map, hlisted]
  rw [Collection.list, Collection.getPoints_none, Collection.AllAnswer]
  refine and_congr (forall₂_congr hlists) ?_
  rw [List.flatMap_congr hall]

end List

/-! ## The points of the node itself -/

section Order

variable {answers : ShardId → RemoteShard → List (Point V)}

/-- A list prefers what the node itself has, and leaves out nobody. -/
structure PrefersLocal (c : Collection X) (peer : PeerId) (name : CollectionName) (w : Stores)
    (answers : ShardId → RemoteShard → List (Point V)) (ps : List (Point V)) : Prop where
  nodup : (ps.map Point.id).Nodup
  home : ∀ s ∈ c.replicaHolder.shards, ∀ p ∈ w.points X peer name s, p ∈ ps
  remote : ∀ s rs, c.replicaHolder.shards.lookup s = some rs → ∀ r ∈ rs.remotes,
    ∀ p ∈ answers s r, p.id ∈ ps.map Point.id

/-- No two shards have different points for one id.  What a shard has for an id is what the node
itself has stored there, or else what the first of its remote shards has answered. -/
def ShardsAgree (c : Collection X) (peer : PeerId) (name : CollectionName) (w : Stores)
    (answers : ShardId → RemoteShard → List (Point V)) : Prop :=
  FirstAgree Point.id (shardAnswers X peer name w fun s r ↦ .ok (answers s r))
    c.replicaHolder.shards.entries

/-- Everything that is stored in the shards of the node itself can be read. -/
def Collection.Readable (c : Collection X) (peer : PeerId) (name : CollectionName) (w : Stores) :
    Prop :=
  ∀ s ∈ c.replicaHolder.shards, Segment.Readable X (w ⟨peer, name, s⟩ 0)

/-- A list only succeeds if that is so. -/
theorem Collection.readable_of_list {order : IterOrder (Σ _ : ShardId, ReplicaSet)}
    {ps : List (Point V)} (h : (c.iteratedBy order).list peer name (fun _ ↦ .clean) w
      (fun s r ↦ .ok (answers s r)) none = some (.ok ps)) : c.Readable peer name w := by
  intro s hs
  obtain ⟨rs, hrs⟩ := Option.isSome_iff_exists.mp (AList.lookup_isSome.mpr hs)
  have hmem : ⟨s, rs⟩ ∈ Collection.selected none
      (c.iteratedBy order).replicaHolder.shards.entries :=
    List.mem_filter.mpr ⟨(order.perm _).mem_iff.mpr (AList.mem_lookup_iff.mp hrs), rfl⟩
  have hlist := (Collection.getPoints_none.mp h).1 _ hmem (.localShard rs.localShard)
    List.mem_cons_self
  exact (LocalShard.getPoints_eq_ok X (Option.some.inj hlist)).1

variable (hwf : c.WellFormed) (hreadable : c.Readable peer name w)

include hwf hreadable

theorem Collection.readsLocally (shardId : Option ShardId) :
    c.ReadsLocally peer name (fun _ ↦ .clean) w shardId := by
  intro e he
  have hlookup := AList.mem_lookup_iff.mpr (List.mem_filter.mp he).1
  have hmem : e.1 ∈ c.replicaHolder.shards := AList.lookup_isSome.mp (by rw [hlookup]; rfl)
  exact ⟨_, LocalShard.getPoints_clean X (hwf.segment e.1 e.2 hlookup) none
    (hreadable e.1 hmem)⟩

/-- What a list returns when all remote shards answer. -/
theorem Collection.list_iteratedBy (order : IterOrder (Σ _ : ShardId, ReplicaSet)) :
    (c.iteratedBy order).list peer name (fun _ ↦ .clean) w (fun s r ↦ .ok (answers s r)) none
      = some (.ok (firsts ((order.arrange c.replicaHolder.shards.entries).flatMap
          (shardAnswers X peer name w fun s r ↦ .ok (answers s r))))) := by
  have hiterated : (c.iteratedBy order).Readable peer name w :=
    fun s hs ↦ hreadable s (HashMap.mem_arrangedBy.mp hs)
  have hlocal := Collection.readsLocally (hwf.iteratedBy order) hiterated none
  refine (Collection.list_eq_ok hlocal).mpr
    ⟨fun e _ r _ ↦ ⟨_, rfl⟩, ?_⟩
  have hall : Collection.selected none (c.iteratedBy order).replicaHolder.shards.entries
      = order.arrange c.replicaHolder.shards.entries := List.filter_eq_self.mpr fun e _ ↦ rfl
  rw [hall]

/-- Whichever shard has an id can be the first that is asked, so shards agree if a list does not
depend on the order. -/
theorem shardsAgree_of_list {ps : List (Point V)}
    (hps : ∀ order, (c.iteratedBy order).list peer name (fun _ ↦ .clean) w
      (fun s r ↦ .ok (answers s r)) none = some (.ok ps)) : ShardsAgree c peer name w answers := by
  have hlist (order) : (c.iteratedBy order).list peer name (fun _ ↦ .clean) w
      (fun s r ↦ .ok (answers s r)) none = _ := Collection.list_iteratedBy hwf hreadable order
  have hnodup : (ps.map Point.id).Nodup := by
    have hsame := (hlist .insertion).symm.trans (hps .insertion)
    rw [← Except.ok.inj (Option.some.inj hsame)]
    exact (firsts_sorted _).ids_nodup
  have hfirst : ∀ e ∈ c.replicaHolder.shards.entries, ∀ id p,
      first Point.id (shardAnswers X peer name w (fun s r ↦ .ok (answers s r)) e) id = some p →
        p ∈ ps := by
    intro e he id p hp
    have hsame := (hlist (.startingWith e)).symm.trans (hps (.startingWith e))
    rw [← Except.ok.inj (Option.some.inj hsame), mem_firsts, IterOrder.startingWith]
    simp only [if_pos he, List.flatMap_cons]
    rw [first_append, key_of_first hp, hp, Option.some_or]
  intro e he e' he' id p p' hp hp'
  refine List.inj_on_of_nodup_map hnodup (hfirst e he id p hp) (hfirst e' he' id p' hp') ?_
  rw [key_of_first hp, key_of_first hp']

/-- **Shards that agree can be asked in any order**: of every id a list has what one of them has. -/
theorem ShardsAgree.mem_list (hagree : ShardsAgree c peer name w answers)
    (order : IterOrder (Σ _ : ShardId, ReplicaSet)) : ∃ ps,
    (c.iteratedBy order).list peer name (fun _ ↦ .clean) w (fun s r ↦ .ok (answers s r)) none
      = some (.ok ps) ∧ IdSorted ps ∧
    ∀ p, p ∈ ps ↔ ∃ e ∈ c.replicaHolder.shards.entries,
      first Point.id (shardAnswers X peer name w (fun s r ↦ .ok (answers s r)) e) p.id
        = some p := by
  refine ⟨_, Collection.list_iteratedBy hwf hreadable order, firsts_sorted _, fun p ↦ ?_⟩
  have hperm := order.perm c.replicaHolder.shards.entries
  have hagree' : FirstAgree Point.id (shardAnswers X peer name w fun s r ↦ .ok (answers s r))
      (order.arrange c.replicaHolder.shards.entries) :=
    fun e he e' he' ↦ hagree e (hperm.mem_iff.mp he) e' (hperm.mem_iff.mp he')
  rw [mem_firsts, hagree'.first_flatMap]
  simp only [hperm.mem_iff]

omit hreadable in
/-- **When a list prefers the points of the node itself.**  Take any collection, with points in its
shards, and remote shards that answer with anything.  The list has every point of the node itself as
it is there, and an id for everything that was answered, and is the same for every order in which
the shards are iterated, exactly if everything the node has can be read and no two shards have
different points for one id. -/
theorem list_prefers_local_iff (hsound : w.Sound X peer name) :
    (∃ ps, ∀ order, (c.iteratedBy order).list peer name (fun _ ↦ .clean) w
        (fun s r ↦ .ok (answers s r)) none = some (.ok ps) ∧
          PrefersLocal c peer name w answers ps) ↔
      c.Readable peer name w ∧ ShardsAgree c peer name w answers := by
  constructor
  · rintro ⟨ps, hps⟩
    have hreadable := Collection.readable_of_list (hps .insertion).1
    exact ⟨hreadable, shardsAgree_of_list hwf hreadable fun order ↦ (hps order).1⟩
  · rintro ⟨hreadable, hagree⟩
    obtain ⟨ps, hps, hsorted, hmem⟩ := hagree.mem_list hwf hreadable .insertion
    refine ⟨ps, fun order ↦ ⟨?_, hsorted.ids_nodup, fun s hs p hp ↦ ?_,
      fun s rs hrs r hr p hp ↦ ?_⟩⟩
    · obtain ⟨ps', hps', hsorted', hmem'⟩ := hagree.mem_list hwf hreadable order
      rw [hps', hsorted'.eq_of_mem_iff hsorted fun p ↦ (hmem' p).trans (hmem p).symm]
    · obtain ⟨rs, hrs⟩ := Option.isSome_iff_exists.mp (AList.lookup_isSome.mpr hs)
      refine (hmem p).mpr ⟨⟨s, rs⟩, AList.mem_lookup_iff.mp hrs, ?_⟩
      have hunique : first Point.id (w.points X peer name s) p.id = some p :=
        first_of_unique hp fun q hq hid ↦
          List.inj_on_of_nodup_map (hsound s).points_ids_nodup hq hp hid
      rw [shardAnswers, first_append, hunique, Option.some_or]
    · have hmemp : p ∈ shardAnswers X peer name w (fun s r ↦ .ok (answers s r)) ⟨s, rs⟩ :=
        List.mem_append_right _ (List.mem_flatMap.mpr ⟨r, hr, hp⟩)
      obtain ⟨q, hq⟩ := exists_first_of_mem Point.id hmemp
      have hqid : q.id = p.id := key_of_first hq
      rw [← hqid] at hq ⊢
      exact List.mem_map.mpr ⟨q, (hmem q).mpr ⟨⟨s, rs⟩, AList.mem_lookup_iff.mp hrs, hq⟩, rfl⟩

end Order

/-- **Remote shards that keep to their shard agree**, whatever they answer of it. -/
theorem Placed.shardsAgree (h : Placed c peer name w)
    {answers : ShardId → RemoteShard → List (Point V)}
    (hanswers : ∀ s r, ∀ p ∈ answers s r, c.shardOf p.id = s) :
    ShardsAgree c peer name w answers := by
  have hshard : ∀ e, ∀ p ∈ shardAnswers X peer name w (fun s r ↦ .ok (answers s r)) e,
      c.shardOf p.id = e.1 := by
    intro e p hp
    rcases List.mem_append.mp hp with hp | hp
    · exact h.shardOf_of_mem_points hp
    · obtain ⟨r, -, hp⟩ := List.mem_flatMap.mp hp
      exact hanswers e.1 r p hp
  intro e he e' he' id p p' hp hp'
  have hkey : e.1 = e'.1 := by
    rw [← hshard e p (mem_of_first hp), ← hshard e' p' (mem_of_first hp'), key_of_first hp,
      key_of_first hp']
  obtain ⟨s, rs⟩ := e
  obtain ⟨s', rs'⟩ := e'
  obtain rfl : s = s' := hkey
  obtain rfl : rs = rs' := List.NodupKeys.eq_of_mk_mem c.replicaHolder.shards.nodupKeys he he'
  exact Option.some.inj (hp.symm.trans hp')

/-- The collection of a node that knows one other. -/
def Collection.pair : Collection Crates.bool := .joined "c" [101, 102] 101

/-- What the node has: one point, in shard `0`. -/
def Stores.one : Stores :=
  ((Cluster.joined Crates.bool "c" [101, 102]).upsertPoints 101 "c" .pair (.without [])
    [⟨.id 1, true⟩] true .empty).1

theorem Collection.pair_reachable : Reachable Crates.bool 101 "c" (fun _ ↦ True) .pair .one := by
  have hcoll : (Cluster.joined Crates.bool "c" [101, 102]).collection 101 "c" = some .pair :=
    (Cluster.joined_hosts (by decide)).collection
  exact .upsert (.addRemote (.init ⟨""⟩ ["storage", "collections", "c"] .insertion
    (Stores.empty_fresh 101 "c")) 102) hcoll (.without []) [⟨.id 1, true⟩] true
    fun _ _ ↦ ⟨trivial, trivial⟩

theorem Collection.pair_readable : Collection.pair.Readable 101 "c" .one :=
  fun s _ ↦ (Collection.pair_reachable.placed.sound s).readable

/-- The remote shard for one of the shards answers with another payload for the point. -/
def answering (shard : ShardId) (s : ShardId) (_ : RemoteShard) : List (Point Bool) :=
  if s = shard then [⟨.id 1, false⟩] else []

/-- A remote shard that keeps to its shard. -/
theorem list_prefers_local_iff_answering : ∃ ps, ∀ order,
    (Collection.pair.iteratedBy order).list 101 "c" (fun _ ↦ .clean) .one
        (fun s r ↦ .ok (answering 0 s r)) none = some (.ok ps) ∧
      PrefersLocal .pair 101 "c" .one (answering 0) ps := by
  have hreach := Collection.pair_reachable
  refine (list_prefers_local_iff hreach.collection.2.1 hreach.placed.sound).mpr
    ⟨Collection.pair_readable, hreach.placed.shardsAgree fun s r p hp ↦ ?_⟩
  rw [answering] at hp
  split at hp
  · rename_i hs
    rw [List.mem_singleton.mp hp, hs]
    decide +kernel
  · exact absurd hp List.not_mem_nil

/-- **A list does not always prefer the points of the node itself.**  The remote shard for shard `1`
answers with a point that the node has in shard `0`. -/
theorem not_list_prefers_local : ¬ ∀ (c : Collection Crates.bool) (w : Stores),
    Reachable Crates.bool 101 "c" (fun _ ↦ True) c w → ∀ answers, ∃ ps, ∀ order,
      (c.iteratedBy order).list 101 "c" (fun _ ↦ .clean) w (fun s r ↦ .ok (answers s r)) none
          = some (.ok ps) ∧
        PrefersLocal c 101 "c" w answers ps := by
  intro h
  have hreach := Collection.pair_reachable
  obtain ⟨ps, hps⟩ := h .pair .one hreach (answering 1)
  have hagree := shardsAgree_of_list hreach.collection.2.1 Collection.pair_readable
    fun order ↦ (hps order).1
  obtain ⟨rs₀, hrs₀, hfirst₀⟩ : ∃ rs, Collection.pair.replicaHolder.shards.lookup 0 = some rs ∧
      first Point.id (shardAnswers Crates.bool 101 "c" .one
        (fun s r ↦ .ok (answering 1 s r)) ⟨0, rs⟩)
        (.id 1) = some ⟨.id 1, true⟩ := ⟨_, rfl, by decide +kernel⟩
  obtain ⟨rs₁, hrs₁, hfirst₁⟩ : ∃ rs, Collection.pair.replicaHolder.shards.lookup 1 = some rs ∧
      first Point.id (shardAnswers Crates.bool 101 "c" .one
        (fun s r ↦ .ok (answering 1 s r)) ⟨1, rs⟩)
        (.id 1) = some ⟨.id 1, false⟩ := ⟨_, rfl, by decide +kernel⟩
  have hsame := hagree _ (AList.mem_lookup_iff.mp hrs₀) _ (AList.mem_lookup_iff.mp hrs₁) _ _ _
    hfirst₀ hfirst₁
  exact absurd hsame (by decide)

/-! ## Remote shards that fail -/

section Failures

variable {sled : ShardId → SledReads}
  {answers : ShardId → RemoteShard → CollectionResult (List (Point V))} {shardId : Option ShardId}

/-- What a node returns to a client that lists a collection, if nothing panics. -/
theorem Cluster.getPoints_eq_list {cl : Cluster X} {env : ClusterReadEnv}
    (h : ∀ s (r : RemoteShard), r.getPoints cl (env.remote s r.peerId) none w
      = some (answers s r)) :
    cl.getPoints peer name c env none shardId false w
      = c.list peer name env.sled w answers shardId := by
  have hread : ∀ s r, cl.replicaGet peer name env w s r none
      = Smoldb.replicaGet X peer name env.sled w (fun s r _ ↦ some (answers s r)) s r none := by
    intro s r
    cases r with
    | localShard shard => rfl
    | remoteShard shard => exact h s shard
  have hround : Collection.listShard (cl.replicaGet peer name env w) shardId false
      = Collection.listShard (Smoldb.replicaGet X peer name env.sled w fun s r _ ↦
          some (answers s r)) shardId false := by
    funext entry all
    simp only [Collection.listShard, hread]
  rw [Cluster.getPoints, Collection.list, Collection.getPoints, Collection.getPoints, hround]

/-- A list has everything that the shards of the node itself have, and everything that was
answered. -/
def Complete (c : Collection X) (peer : PeerId) (name : CollectionName) (w : Stores)
    (answers : ShardId → RemoteShard → CollectionResult (List (Point V))) (shardId : Option ShardId)
    (ps : List (Point V)) : Prop :=
  ∀ e ∈ Collection.selected shardId c.replicaHolder.shards.entries,
    (∀ p ∈ w.points X peer name e.1, p ∈ ps) ∧
    ∀ r ∈ e.2.remotes, ∀ qs, answers e.1 r = .ok qs → ∀ q ∈ qs, q ∈ ps

/-- **When a list succeeds and is complete.**  Take any collection, shard to be listed, and pattern
of failing remote shards, where the shards of the node itself can be read.  The list succeeds and
has everything that it can have exactly if no remote shard fails that is asked, and there are no two
different points with one id in what is answered. -/
theorem list_complete_iff (hlocal : c.ReadsLocally peer name sled w shardId) :
    (∃ ps, c.list peer name sled w answers shardId = some (.ok ps) ∧
        Complete c peer name w answers shardId ps) ↔
      c.AllAnswer answers shardId ∧
        ∀ e ∈ Collection.selected shardId c.replicaHolder.shards.entries,
        ∀ e' ∈ Collection.selected shardId c.replicaHolder.shards.entries,
        ∀ p ∈ shardAnswers X peer name w answers e, ∀ q ∈ shardAnswers X peer name w answers e',
          p.id = q.id → p = q := by
  constructor
  · rintro ⟨ps, hlist, hcomplete⟩
    obtain ⟨hall, hps⟩ := (Collection.list_eq_ok hlocal).mp hlist
    have hmem : ∀ e ∈ Collection.selected shardId c.replicaHolder.shards.entries,
        ∀ p ∈ shardAnswers X peer name w answers e, p ∈ ps := by
      intro e he p hp
      rcases List.mem_append.mp hp with hp | hp
      · exact (hcomplete e he).1 p hp
      · obtain ⟨r, hr, hp⟩ := List.mem_flatMap.mp hp
        obtain ⟨qs, hqs⟩ := hall e he r hr
        rw [hqs] at hp
        exact (hcomplete e he).2 r hr qs hqs p hp
    refine ⟨hall, fun e he e' he' p hp q hq hid ↦ ?_⟩
    have hnodup : (ps.map Point.id).Nodup := by
      rw [hps]
      exact (firsts_sorted _).ids_nodup
    exact List.inj_on_of_nodup_map hnodup (hmem e he p hp) (hmem e' he' q hq) hid
  · rintro ⟨hall, hunique⟩
    refine ⟨_, (Collection.list_eq_ok hlocal).mpr ⟨hall, rfl⟩, ?_⟩
    have hmem : ∀ e ∈ Collection.selected shardId c.replicaHolder.shards.entries,
        ∀ p ∈ shardAnswers X peer name w answers e,
        p ∈ firsts ((Collection.selected shardId c.replicaHolder.shards.entries).flatMap
          (shardAnswers X peer name w answers)) := by
      intro e he p hp
      refine mem_firsts.mpr (first_of_unique (List.mem_flatMap.mpr ⟨e, he, hp⟩) fun q hq hid ↦ ?_)
      obtain ⟨e', he', hq⟩ := List.mem_flatMap.mp hq
      exact hunique e' he' e he q hq p hp hid
    refine fun e he ↦ ⟨fun p hp ↦ hmem e he p (List.mem_append_left _ hp),
      fun r hr qs hqs q hq ↦ hmem e he q (List.mem_append_right _
        (List.mem_flatMap.mpr ⟨r, hr, ?_⟩))⟩
    rw [hqs]
    exact hq

end Failures

/-- A list in which no remote shard fails. -/
theorem list_complete_iff_answering : ∃ ps,
    Collection.pair.list 101 "c" (fun _ ↦ .clean) .one (fun _ _ ↦ .ok [⟨.id 3, true⟩]) (some 0)
        = some (.ok ps) ∧
      Complete .pair 101 "c" .one (fun _ _ ↦ .ok [⟨.id 3, true⟩]) (some 0) ps := by
  have hreach := Collection.pair_reachable
  refine (list_complete_iff (Collection.readsLocally hreach.collection.2.1
      Collection.pair_readable _)).mpr
    ⟨fun _ _ _ _ ↦ ⟨_, rfl⟩, ?_⟩
  decide +kernel

/-- **A remote shard that fails breaks a list.** -/
theorem not_list_complete : ¬ ∀ (c : Collection Crates.bool) (w : Stores),
    Reachable Crates.bool 101 "c" (fun _ ↦ True) c w → ∀ shardId,
    c.ReadsLocally 101 "c" (fun _ ↦ .clean) w shardId → ∀ answers,
      ∃ ps, c.list 101 "c" (fun _ ↦ .clean) w answers shardId = some (.ok ps) ∧
        Complete c 101 "c" w answers shardId ps := by
  intro h
  have hreach := Collection.pair_reachable
  have hlocal := Collection.readsLocally hreach.collection.2.1 Collection.pair_readable none
  obtain ⟨ps, hlist, -⟩ := h .pair .one hreach none hlocal fun _ _ ↦
    .error (.serviceError "Failed to execute operation on remote shard 0: transport error")
  have hall := ((Collection.list_eq_ok hlocal).mp hlist).1
  obtain ⟨rs, hrs, r, hr⟩ : ∃ rs, Collection.pair.replicaHolder.shards.lookup 0 = some rs ∧
      ∃ r, r ∈ rs.remotes := ⟨_, rfl, ⟨0, "c", 102⟩, by decide +kernel⟩
  have hmem : ⟨0, rs⟩ ∈ Collection.selected none Collection.pair.replicaHolder.shards.entries :=
    List.mem_filter.mpr ⟨AList.mem_lookup_iff.mp hrs, rfl⟩
  obtain ⟨qs, hqs⟩ := hall _ hmem r hr
  exact nomatch hqs

end Smoldb
