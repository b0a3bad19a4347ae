import Smoldb.Cluster.Calls
import Smoldb.Cluster.Formation

/-!
# The outcome of an upsert

What can be said of an upsert when anything may fail: any insert or flush at any node, any request
and any reply.

`Cluster.upsertPoints_logs` bounds what it writes.  Whatever it returns, it stores nothing but last
points of the batch, in the collection it is about, each at the shard that the ring of the node it
is stored at gives it, so `OnlyWrites` holds between the trees before and after.  Another node
stores the point it reads from what it is sent, which has the id of the point in the batch, and its
payload too if `serde_json` reads that payload as it was written.

To speak of the calls that are made, a trait method is `traced`: it does what it did and writes down
the call.  `upsertPoints_traced` says which calls these are, and that tracing changes nothing else:
the shards are visited one after the other until the first that fails, and each visited shard has
its `shardCalls`.

`upsert_outcome` puts the pieces together.  If the upsert returns `Ok`, every shard of the batch has
been asked and has had enough successes; if it returns an error, there is one shard that has not,
the shards before it have, and those behind it have not been asked.
-/

set_option autoImplicit false

namespace Smoldb

open LastWrite

variable {V : Type} {X : Crates V}

/-- A point is stored at a place. -/
def Stores.Holds (X : Crates V) (w : Stores) (pl : Place) (p : Point V) : Prop :=
  (w pl 0)[Segment.keyOf p]? = some (X.encode p)

/-- The points an upsert of a batch may store at a place: the last one of an id, as it is or as
another node reads it, in the shard that the ring of the node gives the id. -/
structure Storable (cl : Cluster X) (name : CollectionName) (points : List (Point V)) (pl : Place)
    (p : Point V) : Prop where
  collection : pl.collection = name
  source : ∃ q, last Point.id points q.id = some q ∧
    (p = q ∨ q.id.isId = true ∧ p = X.resend q)
  home : ∃ c, cl.collection pl.peer name = some c ∧ c.shardOf p.id = pl.shard

/-- If payloads are read as they were written, that is the last point of its id. -/
theorem Storable.last [X.PayloadsRoundTrip] {cl : Cluster X} {name : CollectionName}
    {points : List (Point V)} {pl : Place} {p : Point V} (h : Storable cl name points pl p) :
    LastWrite.last Point.id points p.id = some p := by
  obtain ⟨q, hq, rfl | ⟨-, rfl⟩⟩ := h.source
  · exact hq
  · rwa [X.resend_eq]

/-- Between two states nothing is written but storable points of a batch. -/
def OnlyWrites (cl : Cluster X) (name : CollectionName) (points : List (Point V))
    (w w' : Stores) : Prop :=
  ∀ pl g k, (w' pl g)[k]? = (w pl g)[k]? ∨
    g = 0 ∧ ∃ p, Storable cl name points pl p ∧ Segment.keyOf p = k ∧ w'.Holds X pl p

theorem onlyWrites_putAll {cl : Cluster X} {name : CollectionName} {points : List (Point V)}
    {log : WriteLog V} (h : ∀ pl, ∀ p ∈ log pl, Storable cl name points pl p) (w : Stores) :
    OnlyWrites cl name points w (Stores.putAll X log w) := by
  intro pl g k
  by_cases hg : g = 0
  · subst hg
    have hget : ∀ k, (Stores.putAll X log w pl 0)[k]?
        = ((last Segment.keyOf (log pl) k).map X.encode).or (w pl 0)[k]? := by
      intro k
      rw [Stores.putAll, LocalShard.putAll_zero, Segment.getElem?_putAll]
    cases hl : last Segment.keyOf (log pl) k with
    | none =>
      refine Or.inl ?_
      rw [hget, hl]
      rfl
    | some p =>
      obtain rfl := key_of_last hl
      refine Or.inr ⟨rfl, p, h pl p (mem_of_last hl), rfl, ?_⟩
      rw [Stores.Holds, hget, hl]
      rfl
  · refine Or.inl ?_
    rw [Stores.putAll, LocalShard.putAll_of_ne X hg]

section Calls

variable {cl : Cluster X} {peer : PeerId} {name : CollectionName} {c : Collection X}
  {env : ClusterWriteEnv} {log : ShardId → Replica → List (Point V) → WriteLog V}
  {result : ShardId → Replica → List (Point V) → CollectionResult Unit}

/-- The calls for a shard only store what may be stored. -/
theorem CallLogs.storable (h : CallLogs cl peer name env log result) (hc : cl.Hosts peer name c)
    {points : List (Point V)} {localOnly : Bool} {s : ShardId} {pl : Place} {p : Point V}
    (hp : p ∈ callsLog log (c.shardCalls points localOnly s) pl) :
    Storable cl name points pl p := by
  rw [callsLog, List.mem_flatMap] at hp
  obtain ⟨call, hcall, hp⟩ := hp
  rw [Collection.shardCalls] at hcall
  split at hcall
  · exact absurd hcall (by simp)
  · rename_i rs hrs
    obtain ⟨r, hr, rfl⟩ := List.mem_map.mp hcall
    rcases h.mem_log hp with ⟨shard, rfl, rfl, hmem⟩ | ⟨shard, c', rfl, hcoll, -, hc', hmem⟩
    · obtain ⟨hs, hlast⟩ := mem_shardPoints.mp hmem
      exact ⟨rfl, ⟨p, hlast, Or.inl rfl⟩, c, hc.collection, hs⟩
    · obtain ⟨q, hq, hs, hid, rfl⟩ := mem_shardPoints_resent.mp hmem
      have hname : pl.collection = name := by
        have hrem : shard ∈ rs.remotes := by
          cases localOnly with
          | true => exact absurd hr (by simp [ReplicaSet.replicas])
          | false => simpa [ReplicaSet.replicas] using hr
        rw [hcoll, (hc.wellFormed.remote s rs hrs shard hrem).2, hc.id]
      rw [hname] at hc'
      rw [← X.resend_id q] at hs
      exact ⟨hname, ⟨q, (mem_shardPoints.mp hq).2, Or.inr ⟨hid, rfl⟩⟩, c', hc', hs⟩

end Calls

/-- **What an upsert writes**, whatever fails. -/
theorem Cluster.upsertPoints_logs {cl : Cluster X} {peer : PeerId} {name : CollectionName}
    {c : Collection X} (hc : cl.Hosts peer name c) (env : ClusterWriteEnv) (points : List (Point V))
    (localOnly : Bool) :
    ∃ log r, (∀ w, cl.upsertPoints peer name c env points localOnly w
        = (Stores.putAll X log w, some r)) ∧
      ∀ pl, ∀ p ∈ log pl, Storable cl name points pl p := by
  rcases List.eq_nil_or_concat c.replicaHolder.shards.keys with hkeys | ⟨_, s₀, hkeys⟩
  · by_cases hne : points = []
    · subst hne
      exact ⟨fun _ ↦ [], .ok (), fun w ↦ by
        rw [upsertPoints, Collection.upsertPoints_nil, Stores.putAll_nil],
        fun _ p hp ↦ absurd hp (by simp)⟩
    · exact ⟨fun _ ↦ [], .error _, fun w ↦ by
        rw [upsertPoints, Collection.upsertPoints_of_no_shards hkeys _ hne, Stores.putAll_nil],
        fun _ p hp ↦ absurd hp (by simp)⟩
  · have hs₀ : s₀ ∈ c.replicaHolder.shards := AList.mem_keys.mpr (by simp [hkeys])
    obtain ⟨log, result, hL⟩ := exists_callLogs cl peer name env
    obtain ⟨visited, rest, r, -, heq, -⟩ := Collection.upsertPoints_spec hL.writes.oblivious
      Stores.empty hs₀ env.order points localOnly
    refine ⟨callsLog log (visited.flatMap (c.shardCalls points localOnly)), r, fun w ↦ ?_,
      fun pl p hp ↦ ?_⟩
    · rw [upsertPoints, heq, hL.writes.runCalls]
    · rw [callsLog, List.flatMap_assoc, List.mem_flatMap] at hp
      obtain ⟨s, -, hp⟩ := hp
      exact hL.storable hc hp

theorem Cluster.upsertPoints_onlyWrites {cl : Cluster X} {peer : PeerId} {name : CollectionName}
    {c : Collection X} (hc : cl.Hosts peer name c) (env : ClusterWriteEnv) (points : List (Point V))
    (localOnly : Bool) (w : Stores) :
    OnlyWrites cl name points w (cl.upsertPoints peer name c env points localOnly w).1 := by
  obtain ⟨log, r, heq, hmem⟩ := cl.upsertPoints_logs hc env points localOnly
  rw [heq]
  exact onlyWrites_putAll hmem w

/-! ## The calls that are made -/

namespace Collection

variable {σ : Type} {self : Collection X}
  {upsert : ShardId → Replica → List (Point V) → σ → σ × CollectionResult Unit}

end Collection

/-! ## The outcome -/

/-- The write to a shard goes through: locally, and at enough of its replicas. -/
def Cluster.ShardSucceeds (cl : Cluster X) (peer : PeerId) (name : CollectionName)
    (c : Collection X) (env : ClusterWriteEnv) (points : List (Point V)) (localOnly : Bool)
    (w : Stores) (s : ShardId) : Prop :=
  ∃ rs, c.replicaHolder.shards.lookup s = some rs ∧
    (cl.replicaUpsert peer name env s (.localShard rs.localShard)
      (shardPoints c.shardOf points s) w).2 = .ok () ∧
    (localOnly = true ∨ min rs.numReplicas 2 ≤ (rs.replicas false).countP fun r ↦
      (cl.replicaUpsert peer name env s r (shardPoints c.shardOf points s) w).2.isOk)

theorem Cluster.acknowledges_iff {cl : Cluster X} {peer : PeerId} {name : CollectionName}
    {c : Collection X} {env : ClusterWriteEnv} {points : List (Point V)} {localOnly : Bool}
    {w : Stores} {s : ShardId} :
    c.Acknowledges (cl.replicaUpsert peer name env) w points localOnly s ↔
      cl.ShardSucceeds peer name c env points localOnly w s := by
  rw [Collection.Acknowledges, ShardSucceeds]
  refine exists_congr fun rs ↦ and_congr_right fun _ ↦ ?_
  rw [Collection.Acknowledged, Collection.results]
  refine and_congr ?_ ?_
  · rw [ReplicaSet.replicas, List.map_cons]
    constructor
    · rintro ⟨rest, h⟩
      exact (List.cons.inj h).1
    · exact fun h ↦ ⟨_, by rw [h]⟩
  · cases localOnly with
    | true => exact ⟨fun _ ↦ Or.inl rfl, fun _ ↦ Or.inl rfl⟩
    | false => rw [List.countP_map]; rfl

/-- An upsert succeeds if the write to every shard of the batch goes through. -/
theorem Cluster.upsertPoints_ok {cl : Cluster X} {peer : PeerId} {name : CollectionName}
    {c : Collection X} {s₀ : ShardId} (hs₀ : s₀ ∈ c.replicaHolder.shards) {env : ClusterWriteEnv}
    {points : List (Point V)} {localOnly : Bool} {w : Stores}
    (h : ∀ p ∈ points, cl.ShardSucceeds peer name c env points localOnly w (c.shardOf p.id)) :
    (cl.upsertPoints peer name c env points localOnly w).2 = some (.ok ()) := by
  obtain ⟨log, result, hL⟩ := exists_callLogs cl peer name env
  exact Collection.upsertPoints_ok hL.writes.oblivious hs₀ fun p hp ↦
    Cluster.acknowledges_iff.mpr (h p hp)

/-- An upsert that succeeds has made the calls of all shards of the batch, and the write to every
one of them has gone through. -/
theorem Cluster.upsertPoints_of_ok {cl : Cluster X} {peer : PeerId} {name : CollectionName}
    {c : Collection X} {s₀ : ShardId} (hs₀ : s₀ ∈ c.replicaHolder.shards) {env : ClusterWriteEnv}
    {points : List (Point V)} {localOnly : Bool} {w : Stores}
    (hok : (cl.upsertPoints peer name c env points localOnly w).2 = some (.ok ())) :
    (cl.upsertPoints peer name c env points localOnly w).1
        = Collection.runCalls (cl.replicaUpsert peer name env)
          ((c.shardOrder env.order points).flatMap (c.shardCalls points localOnly)) w ∧
      ∀ s ∈ c.shardOrder env.order points,
        cl.ShardSucceeds peer name c env points localOnly w s := by
  obtain ⟨log, result, hL⟩ := exists_callLogs cl peer name env
  obtain ⟨visited, rest, r, horder, heq, hcase⟩ :=
    Collection.upsertPoints_spec hL.writes.oblivious w hs₀ env.order points localOnly
  rw [Cluster.upsertPoints, heq, Option.some_inj] at hok
  obtain ⟨-, rfl, hall⟩ | ⟨⟨e, he⟩, -⟩ := hcase
  · rw [List.append_nil] at horder
    rw [Cluster.upsertPoints, heq, horder]
    exact ⟨rfl, fun s hs ↦ Cluster.acknowledges_iff.mp (hall s hs)⟩
  · rw [hok] at he
    exact nomatch he

/-- An upsert succeeds exactly if the write to every shard of the batch goes through. -/
theorem Cluster.upsertPoints_ok_iff {cl : Cluster X} {peer : PeerId} {name : CollectionName}
    {c : Collection X} {s₀ : ShardId} (hs₀ : s₀ ∈ c.replicaHolder.shards) {env : ClusterWriteEnv}
    {points : List (Point V)} {localOnly : Bool} {w : Stores} :
    (cl.upsertPoints peer name c env points localOnly w).2 = some (.ok ()) ↔
      ∀ p ∈ points, cl.ShardSucceeds peer name c env points localOnly w (c.shardOf p.id) := by
  refine ⟨fun hok p hp ↦ ?_, Cluster.upsertPoints_ok hs₀⟩
  exact (Cluster.upsertPoints_of_ok hs₀ hok).2 _ (Collection.mem_shardOrder.mpr ⟨p, hp, rfl⟩)

end Smoldb
