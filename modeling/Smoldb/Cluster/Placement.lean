import Smoldb.Cluster.Outcome
import Smoldb.Cluster.Reads

/-!
# Every point is where its id says

The place of a point is worked out three times: the ring gives the shard, the text of the id is the
key, and the id is in the stored text again.  `Placed` says that the three agree for everything that
is stored in a collection of a node.

`Stores.All` is the general form of such an invariant: everything stored is a point under its own
key, and has a relation to its shard.  An upsert keeps it whatever fails in it, and however it comes
in, if the points it may write have the relation (`OnlyWrites.all`, `Stores.All.internal`).  So it
holds in every state a collection can get into, of the place of the points as of what they are like
when they are sent (`Reachable.all`).

If the texts of all points that are sent can be read, then so can everything that is stored, and the
three ways of looking at a collection, counting, listing and reading by id, are views of the same
set of points (`store_wellFormed`).  That is not so for all points that are accepted.  A payload is
read by itself when it comes from another node and in the text of its point when it comes from sled,
one level deeper, and `serde_json` has a limit for the depth (`store_refuses_nested`).
-/

set_option autoImplicit false

namespace Smoldb

open LastWrite

variable {V : Type} {X : Crates V}

/-- Everything stored in the collection of a node is a point, under the text of its id, that has to
its shard the relation `R`. -/
def Stores.All (X : Crates V) (w : Stores) (peer : PeerId) (name : CollectionName)
    (R : ShardId → Point V → Prop) : Prop :=
  ∀ s k v, (w ⟨peer, name, s⟩ 0)[k]? = some v → ∃ p, v = X.encode p ∧ Segment.keyOf p = k ∧ R s p

/-- Everything stored in the collection of a node is in the shard the ring gives its id. -/
def Placed (c : Collection X) (peer : PeerId) (name : CollectionName) (w : Stores) : Prop :=
  w.All X peer name fun s p ↦ c.shardOf p.id = s

/-- Nothing is stored in the collection of a node. -/
def Stores.Fresh (w : Stores) (peer : PeerId) (name : CollectionName) : Prop :=
  ∀ s g, w ⟨peer, name, s⟩ g = ∅

theorem Stores.empty_fresh (peer : PeerId) (name : CollectionName) :
    Stores.empty.Fresh peer name := fun _ _ ↦ rfl

theorem Stores.Fresh.all {w : Stores} {peer : PeerId} {name : CollectionName}
    (h : w.Fresh peer name) (R : ShardId → Point V → Prop) : w.All X peer name R := by
  intro s k v hv
  rw [h s 0] at hv
  simp at hv

theorem Stores.Fresh.placed {w : Stores} {peer : PeerId} {name : CollectionName}
    (h : w.Fresh peer name) (c : Collection X) : Placed c peer name w := h.all _

section All

variable {peer : PeerId} {name : CollectionName} {R : ShardId → Point V → Prop} {w : Stores}

/-- **An upsert keeps what holds of all that is stored**, if it holds of all it may store. -/
theorem OnlyWrites.all {cl : Cluster X} {points : List (Point V)} {w' : Stores}
    (h : OnlyWrites cl name points w w') (hw : w.All X peer name R)
    (hR : ∀ s p, Storable cl name points ⟨peer, name, s⟩ p → R s p) : w'.All X peer name R := by
  intro s k v hv
  rcases h ⟨peer, name, s⟩ 0 k with hsame | ⟨-, p, hstorable, hk, hholds⟩
  · rw [hsame] at hv
    exact hw s k v hv
  · rw [Stores.Holds, hk, hv, Option.some.injEq] at hholds
    exact ⟨p, hholds, hk, hR s p hstorable⟩

/-- Storing points keeps what holds of all that is stored, if it holds of them. -/
theorem Stores.All.putAll (h : w.All X peer name R) {log : WriteLog V}
    (hlog : ∀ s, ∀ p ∈ log ⟨peer, name, s⟩, R s p) : (Stores.putAll X log w).All X peer name R := by
  intro s k v hv
  rw [Stores.putAll, LocalShard.putAll_zero, Segment.getElem?_putAll] at hv
  cases hl : last Segment.keyOf (log ⟨peer, name, s⟩) k with
  | none =>
    rw [hl, Option.map_none, Option.none_or] at hv
    exact h s k v hv
  | some p =>
    rw [hl, Option.map_some, Option.some_or, Option.some_inj] at hv
    exact ⟨p, hv.symm, key_of_last hl, hlog s p (mem_of_last hl)⟩

/-- A local write keeps what holds of all that is stored, if it holds of its points in their
shards. -/
theorem Stores.All.local (h : w.All X peer name R) {c : Collection X}
    (sled : ShardId → SledWrites)
    (remote : ShardId → RemoteShard → List (Point V) → Stores → Stores × CollectionResult Unit)
    (order : IterOrder (ShardId × List PointId)) {points : List (Point V)}
    (hR : ∀ p ∈ points, R (c.shardOf p.id) p) :
    (c.upsertPoints (replicaUpsert X peer name sled remote) order points true w).1.All X peer name
      R := by
  obtain ⟨log, result, heq, hpre, -⟩ := c.upsertPoints_local_spec peer name sled remote order points
  rw [heq]
  refine h.putAll fun s p hp ↦ ?_
  have hmem := (hpre ⟨peer, name, s⟩).subset hp
  rw [WriteLog.node_self] at hmem
  obtain ⟨rfl, hlast⟩ := mem_shardPoints.mp hmem
  exact hR p (mem_of_last hlast)

/-- A request that comes in from another node keeps what holds of all that is stored, if it holds of
the points that are read from it, in their shards. -/
theorem Stores.All.internal (h : w.All X peer name R) {c : Collection X} {toc : TableOfContent X}
    (hc : toc.collections.lookup name = some c)
    (remote : ShardId → RemoteShard → List (Point V) → Stores → Stores × CollectionResult Unit)
    (env : WriteEnv) {request : UpsertPointsRequest} (hname : request.collectionName = name)
    (hR : ∀ points, decodePoints X request.points = some points →
      ∀ p ∈ points, R (c.shardOf p.id) p) :
    (PointsInternalService.upsertPoints toc peer remote env request w).1.All X peer name R := by
  rw [PointsInternalService.upsertPoints, hname, hc]
  cases hdec : decodePoints X request.points with
  | none => exact h
  | some points =>
    have hlocal := h.local env.sled remote env.order (hR points hdec)
    cases hup : c.upsertPoints (replicaUpsert X peer name env.sled remote) env.order points true
        w with
    | mk w' result =>
      rw [hup] at hlocal
      simp only [hup]
      cases result with
      | none => exact hlocal
      | some r => cases r <;> exact hlocal

/-- Writing keeps points in their places. -/
theorem OnlyWrites.placed {cl : Cluster X} {points : List (Point V)} {w' : Stores}
    (h : OnlyWrites cl name points w w') {c : Collection X} (hc : cl.collection peer name = some c)
    (hp : Placed c peer name w) : Placed c peer name w' :=
  h.all hp fun s p hstorable ↦ by
    obtain ⟨c', hc', hs⟩ := hstorable.home
    rwa [Option.some.inj (hc.symm.trans hc')]

/-- Storing points in their shards keeps points in their places. -/
theorem Placed.putAll {c : Collection X} (h : Placed c peer name w) {log : WriteLog V}
    (hlog : ∀ s, ∀ p ∈ log ⟨peer, name, s⟩, c.shardOf p.id = s) :
    Placed c peer name (Stores.putAll X log w) := Stores.All.putAll h hlog

theorem shardOf_of_mem_log {c : Collection X} {points : List (Point V)} {log : WriteLog V}
    (hpre : ∀ pl, log pl <+: WriteLog.node peer name (shardPoints c.shardOf points) pl) :
    ∀ s, ∀ p ∈ log ⟨peer, name, s⟩, c.shardOf p.id = s := by
  intro s p hp
  have hmem := (hpre ⟨peer, name, s⟩).subset hp
  rw [WriteLog.node_self] at hmem
  exact (mem_shardPoints.mp hmem).1

end All

/-! ## The points of a collection -/

namespace Placed

variable {c : Collection X} {peer : PeerId} {name : CollectionName} {w : Stores}
  (h : Placed c peer name w)

include h

theorem sound : w.Sound X peer name := by
  intro s k v hv
  obtain ⟨p, hp, hk, -⟩ := h s k v hv
  exact ⟨p, hp, hk⟩

/-- What is read in a shard has the key it is read under, and belongs to the shard. -/
theorem of_read {s : ShardId} {k : String} {p : Point V}
    (hp : Segment.read X (w ⟨peer, name, s⟩ 0) k = some p) :
    Segment.keyOf p = k ∧ c.shardOf p.id = s := by
  obtain ⟨v, hv, hdec⟩ := (Segment.read_eq_some_iff X).mp hp
  obtain ⟨q, rfl, hk, hs⟩ := h s k v hv
  rw [Segment.keyOf, X.id_of_read hdec]
  exact ⟨hk, hs⟩

theorem mem_points_iff_read {s : ShardId} {p : Point V} :
    p ∈ w.points X peer name s ↔ w.read X peer name s p.id = some p := (h.sound s).mem_points

theorem shardOf_of_mem_points {s : ShardId} {p : Point V} (hp : p ∈ w.points X peer name s) :
    c.shardOf p.id = s := (h.of_read (h.mem_points_iff_read.mp hp)).2

theorem points_ids_nodup (s : ShardId) : ((w.points X peer name s).map Point.id).Nodup :=
  (h.sound s).points_ids_nodup

/-- The points of all shards have different ids. -/
theorem localPoints_ids_nodup : ((c.localPoints none peer name w).map Point.id).Nodup := by
  rw [Collection.localPoints, List.map_flatMap, List.nodup_flatMap]
  refine ⟨fun e _ ↦ h.points_ids_nodup e.1, ?_⟩
  have hkeys : (Collection.selected none c.replicaHolder.shards.entries).Pairwise
      fun e e' ↦ e.1 ≠ e'.1 :=
    (List.nodupKeys_iff_pairwise.mp c.replicaHolder.shards.nodupKeys).filter _
  refine hkeys.imp fun {e e'} hne id hid hid' ↦ hne ?_
  obtain ⟨p, hp, rfl⟩ := List.mem_map.mp hid
  obtain ⟨q, hq, hqp⟩ := List.mem_map.mp hid'
  rw [← h.shardOf_of_mem_points hp, ← h.shardOf_of_mem_points hq, hqp]

/-- A list has every point that is read in its shard. -/
theorem mem_localPoints_iff_read {s₀ : ShardId} (hs₀ : s₀ ∈ c.replicaHolder.shards) {p : Point V} :
    p ∈ c.localPoints none peer name w ↔ w.read X peer name (c.shardOf p.id) p.id = some p := by
  have hall : Collection.selected none c.replicaHolder.shards.entries
      = c.replicaHolder.shards.entries := List.filter_eq_self.mpr fun e _ ↦ rfl
  rw [Collection.localPoints, hall, List.mem_flatMap]
  constructor
  · rintro ⟨e, -, hp⟩
    rw [h.shardOf_of_mem_points hp]
    exact h.mem_points_iff_read.mp hp
  · intro hp
    obtain ⟨rs, hrs⟩ := ReplicaHolder.exists_lookup_shardOf hs₀ p.id
    exact ⟨⟨_, rs⟩, AList.mem_lookup_iff.mp hrs, h.mem_points_iff_read.mpr hp⟩

/-! If points are read as they were written, what is read is what is held. -/

variable [X.PointsRoundTrip]

/-- A read by id sees what is held. -/
theorem read_eq_some_iff {s : ShardId} {id : PointId} {p : Point V} :
    w.read X peer name s id = some p ↔
      p.id.intoString = id.intoString ∧ w.Holds X ⟨peer, name, s⟩ p := by
  rw [Stores.read, Stores.Holds]
  constructor
  · intro hr
    have hk : Segment.keyOf p = id.intoString := (h.sound s).key_of_read hr
    rw [hk]
    exact ⟨hk, (h.sound s).getElem?_iff.mpr hr⟩
  · rintro ⟨hk, hp⟩
    rw [← hk]
    exact (h.sound s).getElem?_iff.mp hp

/-- A point is in no other shard than its own. -/
theorem shardOf_eq {s : ShardId} {p : Point V} (hp : w.Holds X ⟨peer, name, s⟩ p) :
    c.shardOf p.id = s := (h.of_read (h.read_eq_some_iff.mpr ⟨rfl, hp⟩)).2

theorem mem_points {s : ShardId} {p : Point V} :
    p ∈ w.points X peer name s ↔ w.Holds X ⟨peer, name, s⟩ p := by
  rw [h.mem_points_iff_read, h.read_eq_some_iff]
  exact and_iff_right rfl

/-- A list has every point that is held in its shard. -/
theorem mem_localPoints {s₀ : ShardId} (hs₀ : s₀ ∈ c.replicaHolder.shards) {p : Point V} :
    p ∈ c.localPoints none peer name w ↔ w.Holds X ⟨peer, name, c.shardOf p.id⟩ p := by
  rw [h.mem_localPoints_iff_read hs₀, h.read_eq_some_iff]
  exact and_iff_right rfl

end Placed

/-- Of points with different ids, each is the first one of its id. -/
theorem mem_firsts_of_nodup {ps : List (Point V)} (h : (ps.map Point.id).Nodup) {p : Point V} :
    p ∈ firsts ps ↔ p ∈ ps := by
  rw [mem_firsts]
  refine ⟨mem_of_first, fun hp ↦ first_of_unique hp fun q hq hid ↦ ?_⟩
  exact List.inj_on_of_nodup_map h hq hp hid

theorem firsts_perm {ps : List (Point V)} (h : (ps.map Point.id).Nodup) : (firsts ps).Perm ps :=
  (List.perm_ext_iff_of_nodup (firsts_sorted ps).nodup h.of_map).mpr fun _ ↦ mem_firsts_of_nodup h

/-! ## Every state of a collection -/

/-- The states a collection of a node can get into: it is made, hears of peers, and is written to
over HTTP or by other nodes, with anything failing that can.  All points that are written are `P`,
and so is what another node makes of those that come in over HTTP. -/
inductive Reachable (X : Crates V) (peer : PeerId) (name : CollectionName) (P : Point V → Prop) :
    Collection X → Stores → Prop
  | init (config : CollectionConfig) (path : Path) (order : IterOrder (Σ _ : ShardId, ReplicaSet))
      {w : Stores} (hw : w.Fresh peer name) :
      Reachable X peer name P (.init name config path order) w
  | addRemote {c : Collection X} {w : Stores} (h : Reachable X peer name P c w) (other : PeerId) :
      Reachable X peer name P (c.addRemoteShards other) w
  | upsert {c : Collection X} {w : Stores} (h : Reachable X peer name P c w) {cl : Cluster X}
      (hc : cl.collection peer name = some c) (env : ClusterWriteEnv) (points : List (Point V))
      (localOnly : Bool) (hpoints : ∀ p ∈ points, P p ∧ P (X.resend p)) :
      Reachable X peer name P c (cl.upsertPoints peer name c env points localOnly w).1
  | internal {c : Collection X} {w : Stores} (h : Reachable X peer name P c w)
      {toc : TableOfContent X} (hc : toc.collections.lookup name = some c)
      (remote : ShardId → RemoteShard → List (Point V) → Stores → Stores × CollectionResult Unit)
      (env : WriteEnv) {request : UpsertPointsRequest} (hname : request.collectionName = name)
      (hpoints : ∀ points, decodePoints X request.points = some points → ∀ p ∈ points, P p) :
      Reachable X peer name P c (PointsInternalService.upsertPoints toc peer remote env request w).1

namespace Reachable

variable {peer : PeerId} {name : CollectionName} {P : Point V → Prop} {c : Collection X}
  {w : Stores} (h : Reachable X peer name P c w)

include h

/-- The collection stays the one that was made, with remotes added. -/
theorem collection : c.id = name ∧ c.WellFormed ∧ (0 : ShardId) ∈ c.replicaHolder.shards := by
  induction h with
  | init config path order hw =>
    exact ⟨rfl, Collection.init_wellFormed _ _ _ _, Collection.mem_init.mpr (Or.inl rfl)⟩
  | addRemote h other ih =>
    obtain ⟨hid, hwf, h0⟩ := ih
    exact ⟨hid, hwf.addRemoteShards other, ReplicaHolder.mem_addRemoteShards.mpr h0⟩
  | upsert h hc env points localOnly hpoints ih => exact ih
  | internal h hc remote env hname hpoints ih => exact ih

/-- **In every state, what is stored is `P` and in its place.** -/
theorem all : w.All X peer name fun s p ↦ c.shardOf p.id = s ∧ P p := by
  induction h with
  | init config path order hw => exact hw.all _
  | @addRemote c w h other ih =>
    -- remotes are not on the ring
    have hshard : (c.addRemoteShards other).shardOf = c.shardOf :=
      ReplicaHolder.shardOf_congr fun s ↦ ReplicaHolder.mem_addRemoteShards
    rwa [hshard]
  | @upsert c w h cl hc env points localOnly hpoints ih =>
    obtain ⟨hid, hwf, -⟩ := h.collection
    refine (cl.upsertPoints_onlyWrites ⟨hc, hid, hwf⟩ env points localOnly w).all ih
      fun s p hstorable ↦ ?_
    obtain ⟨c', hc', hs⟩ := hstorable.home
    obtain rfl : c = c' := Option.some.inj (hc.symm.trans hc')
    obtain ⟨q, hq, rfl | ⟨-, rfl⟩⟩ := hstorable.source
    · exact ⟨hs, (hpoints p (mem_of_last hq)).1⟩
    · exact ⟨hs, (hpoints q (mem_of_last hq)).2⟩
  | internal h hc remote env hname hpoints ih =>
    exact ih.internal hc remote env hname fun points hdec p hp ↦ ⟨rfl, hpoints points hdec p hp⟩

theorem placed : Placed c peer name w := by
  intro s k v hv
  obtain ⟨p, hp, hk, hs, -⟩ := h.all s k v hv
  exact ⟨p, hp, hk, hs⟩

end Reachable

/-- The number of points of a collection, as the shards count them. -/
def Collection.countPoints (c : Collection X) (peer : PeerId) (name : CollectionName) (w : Stores) :
    ℕ := (c.replicaHolder.shards.entries.map fun e ↦
      e.2.localShard.countPoints (w ⟨peer, name, e.1⟩)).sum

theorem Stores.Readable.countPoints_eq {c : Collection X} {peer : PeerId} {name : CollectionName}
    {w : Stores} (h : w.Readable X peer name) (hc : c.WellFormed) :
    c.countPoints peer name w = (c.localPoints none peer name w).length := by
  have hall : Collection.selected none c.replicaHolder.shards.entries
      = c.replicaHolder.shards.entries := List.filter_eq_self.mpr fun e _ ↦ rfl
  rw [Collection.countPoints, Collection.localPoints, hall, List.length_flatMap]
  congr 1
  refine List.map_congr_left fun e he ↦ ?_
  have h0 : 0 ∈ e.2.localShard.segments := hc.segment e.1 e.2 (AList.mem_lookup_iff.mpr he)
  rw [LocalShard.countPoints, if_pos h0, Segment.countPoints, Stores.points,
    (h e.1).length_points]

/-- In every state that is reached with points that can be read, everything can be read. -/
theorem Reachable.readable {peer : PeerId} {name : CollectionName} {c : Collection X} {w : Stores}
    (h : Reachable X peer name X.Readable c w) : w.Readable X peer name := by
  intro s k v hv
  obtain ⟨p, rfl, -, -, hp⟩ := h.all s k v hv
  exact hp

/-- **The store of a collection is well formed**, in every state it can get into with points that
can be read, whatever fails on the way.  Every entry is a point under its own key in the shard of
its id; so no id is stored twice; and the count, the list and the reads by id are about the same
points. -/
theorem store_wellFormed {peer : PeerId} {name : CollectionName} {c : Collection X} {w : Stores}
    (h : Reachable X peer name X.Readable c w) :
    (∀ (s : ShardId) (k v : String), (w ⟨peer, name, s⟩ 0)[k]? = some v →
      ∃ p, X.pointFromSlice v = .ok p ∧ k = p.id.intoString ∧
        c.replicaHolder.route p.id = some s) ∧
    (∀ (s s' : ShardId) (k v k' v' : String) (p p' : Point V),
      (w ⟨peer, name, s⟩ 0)[k]? = some v → X.pointFromSlice v = .ok p →
      (w ⟨peer, name, s'⟩ 0)[k']? = some v' → X.pointFromSlice v' = .ok p' →
      p.id = p'.id → s = s' ∧ k = k') ∧
    ∀ (cl : Cluster X) (env : ClusterReadEnv), (∀ s, env.sled s = .clean) → ∃ list,
      cl.getPoints peer name c env none none true w = some (.ok list) ∧
      c.countPoints peer name w = list.length ∧
      IdSorted list ∧
      ∀ p, ∃ found, cl.getPoints peer name c env (some [p.id]) none true w = some (.ok found) ∧
        (p ∈ list ↔ p ∈ found) := by
  obtain ⟨-, hwf, h0⟩ := h.collection
  have hp := h.placed
  have hreadable := h.readable
  have hentry : ∀ (s : ShardId) (k v : String), (w ⟨peer, name, s⟩ 0)[k]? = some v →
      ∃ p, X.pointFromSlice v = .ok p ∧ k = p.id.intoString ∧
        c.replicaHolder.route p.id = some s := by
    intro s k v hv
    obtain ⟨p, hdec⟩ := hreadable s k v hv
    obtain ⟨hk, hs⟩ := hp.of_read ((Segment.read_eq_some_iff X).mpr ⟨v, hv, hdec⟩)
    refine ⟨p, hdec, hk.symm, ?_⟩
    rw [← hs]
    exact ReplicaHolder.route_eq h0 p.id
  refine ⟨hentry, ?_, ?_⟩
  · intro s s' k v k' v' p p' hv hdec hv' hdec' hid
    obtain ⟨q, hq, hk, hs⟩ := hentry s k v hv
    obtain ⟨q', hq', hk', hs'⟩ := hentry s' k' v' hv'
    have hpq : p = q := Except.ok.inj (hdec.symm.trans hq)
    have hpq' : p' = q' := Except.ok.inj (hdec'.symm.trans hq')
    rw [← hpq] at hk hs
    rw [← hpq', ← hid] at hk' hs'
    exact ⟨Option.some.inj (hs.symm.trans hs'), hk.trans hk'.symm⟩
  · intro cl env hsled
    have hlist : cl.getPoints peer name c env none none true w
        = some (.ok (firsts (c.localPoints none peer name w))) :=
      Collection.getPoints_list_local_clean hwf env.order hsled fun e _ ↦ hreadable e.1
    refine ⟨_, hlist, ?_, firsts_sorted _, fun p ↦ ?_⟩
    · rw [hreadable.countPoints_eq hwf, (firsts_perm hp.localPoints_ids_nodup).length_eq]
    · obtain ⟨found, hfound, hperm⟩ :=
        cl.getPoints_ids_clean hwf h0 hsled [p.id] (fun id _ ↦ hreadable _ _) true
      refine ⟨found, hfound, ?_⟩
      rw [mem_firsts_of_nodup hp.localPoints_ids_nodup, hp.mem_localPoints_iff_read h0,
        hperm.mem_iff, List.mem_filterMap]
      constructor
      · exact fun hread ↦ ⟨p.id, List.mem_singleton_self _, hread⟩
      · rintro ⟨id, hid, hread⟩
        rwa [List.mem_singleton.mp hid] at hread

/-- One point: its payload is 127 arrays, each in the one before. -/
def Point.nested : Point Json.Uneven := ⟨.id 1, .arrays 126⟩

/-- A payload that can be read by itself, and not in the text of its point. -/
theorem Point.not_readable_nested :
    Crates.uneven.pointFromSlice (Crates.uneven.encode .nested)
      = .error "recursion limit exceeded" := Json.uneven.pointFromSlice_encode .nested

theorem decodePoints_nested :
    decodePoints Crates.uneven [⟨1, (Json.Uneven.arrays 126).text⟩] = some [.nested] := by
  have hresend : Crates.uneven.resend .nested = .nested := Json.uneven.resend_eq .nested
  have hresent : resent Crates.uneven [.nested] = [.nested] := by
    rw [resent, show numeric [Point.nested] = [.nested] from rfl, List.map_singleton, hresend]
  rw [← hresent]
  exact decodePoints_toGrpc [.nested]

/-- A node with one collection and no remotes. -/
def TableOfContent.alone : TableOfContent Crates.uneven :=
  ⟨[⟨"c", .joined "c" [101] 101⟩].toAList⟩

/-- A request from another node with a payload of 127 nested arrays is accepted, and what is stored
cannot be read: the entry does not decode, and no list succeeds. -/
theorem store_refuses_nested : ∃ w,
    PointsInternalService.upsertPoints .alone 101 noRemote .clean
      ⟨"c", [⟨1, (Json.Uneven.arrays 126).text⟩], none⟩ .empty
        = (w, some (.ok ⟨"Upsert operation completed"⟩)) ∧
    Reachable Crates.uneven 101 "c" (fun _ ↦ True) (.joined "c" [101] 101) w ∧
    (∃ v, (w ⟨101, "c", 0⟩ 0)["1"]? = some v ∧
      Crates.uneven.pointFromSlice v = .error "recursion limit exceeded") ∧
    ∀ ps, (Cluster.joined Crates.uneven "c" [101]).getPoints 101 "c" (.joined "c" [101] 101)
      (.without []) none none true w ≠ some (.ok ps) := by
  have hlookup : TableOfContent.alone.collections.lookup "c" = some (.joined "c" [101] 101) := rfl
  have hwf : (Collection.joined (X := Crates.uneven) "c" [101] 101).WellFormed :=
    (Cluster.joined_hosts (by decide)).wellFormed
  have h0 : (0 : ShardId) ∈
      (Collection.joined (X := Crates.uneven) "c" [101] 101).replicaHolder.shards := by decide
  have hup := Collection.upsertPoints_local_clean hwf h0 101 "c" (fun _ ↦ rfl) noRemote .insertion
    [.nested] .empty
  obtain ⟨w, hw⟩ : ∃ w, w = Stores.putAll Crates.uneven (WriteLog.node 101 "c" (shardPoints
      (Collection.joined (X := Crates.uneven) "c" [101] 101).shardOf [.nested])) .empty := ⟨_, rfl⟩
  rw [← hw] at hup
  have hcall : PointsInternalService.upsertPoints .alone 101 noRemote .clean
      ⟨"c", [⟨1, (Json.Uneven.arrays 126).text⟩], none⟩ .empty
        = (w, some (.ok ⟨"Upsert operation completed"⟩)) := by
    rw [PointsInternalService.upsertPoints]
    simp only [hlookup, decodePoints_nested, WriteEnv.clean, hup]
  have hstored : (w ⟨101, "c", 0⟩ 0)["1"]? = some (Crates.uneven.encode .nested) := by
    have hlast : last Segment.keyOf (shardPoints
        (Collection.joined (X := Crates.uneven) "c" [101] 101).shardOf [.nested] 0) "1"
          = some .nested := by decide
    rw [hw, Stores.putAll, LocalShard.putAll_zero, Segment.getElem?_putAll, WriteLog.node_self,
      hlast]
    rfl
  refine ⟨w, hcall, ?_, ⟨_, hstored, Point.not_readable_nested⟩, fun ps hlist ↦ ?_⟩
  · have hreach : Reachable Crates.uneven 101 "c" (fun _ ↦ True) (.joined "c" [101] 101) .empty :=
      .init ⟨""⟩ ["storage", "collections", "c"] .insertion (Stores.empty_fresh 101 "c")
    have hafter := hreach.internal hlookup noRemote .clean
      (show (⟨"c", [⟨1, (Json.Uneven.arrays 126).text⟩], none⟩ : UpsertPointsRequest).collectionName
        = "c" from rfl) fun _ _ _ _ ↦ trivial
    rwa [hcall] at hafter
  · obtain ⟨rs, hrs⟩ : ∃ rs, (Collection.joined (X := Crates.uneven) "c" [101]
        101).replicaHolder.shards.lookup 0 = some rs := ⟨_, rfl⟩
    obtain ⟨p, hp⟩ := Collection.readable_of_getPoints_list_local hlist ⟨0, rs⟩
      (List.mem_filter.mpr ⟨AList.mem_lookup_iff.mp hrs, rfl⟩) "1" _ hstored
    rw [Point.not_readable_nested] at hp
    cases hp

/-- A batch that reached no remote, read back. -/
theorem store_wellFormed_joined : ∃ list,
    (Cluster.joined Crates.bool "c" [101, 102]).getPoints 101 "c" (.joined "c" [101, 102] 101)
      (.without []) none none true
      ((Cluster.joined Crates.bool "c" [101, 102]).upsertPoints 101 "c" (.joined "c" [101, 102] 101)
        (.without [102]) [⟨.id 1, true⟩, ⟨.uuid "1", false⟩, ⟨.id 2, true⟩] false .empty).1
      = some (.ok list) ∧ IdSorted list := by
  have hhosts : (Cluster.joined Crates.bool "c" [101, 102]).Hosts 101 "c"
      (.joined "c" [101, 102] 101) := Cluster.joined_hosts (by decide)
  have hreach : Reachable Crates.bool 101 "c" Crates.bool.Readable (.joined "c" [101, 102] 101)
      .empty :=
    .addRemote (.init ⟨""⟩ ["storage", "collections", "c"] .insertion
      (Stores.empty_fresh 101 "c")) 102
  have hup := hreach.upsert hhosts.collection (.without [102])
    [⟨.id 1, true⟩, ⟨.uuid "1", false⟩, ⟨.id 2, true⟩] false fun p _ ↦
      ⟨Crates.bool.readable p, Crates.bool.readable _⟩
  obtain ⟨-, -, hviews⟩ := store_wellFormed hup
  obtain ⟨list, hlist, -, hsorted, -⟩ :=
    hviews (Cluster.joined Crates.bool "c" [101, 102]) (.without []) fun _ ↦ rfl
  exact ⟨list, hlist, hsorted⟩

end Smoldb
