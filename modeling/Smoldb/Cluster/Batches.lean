import Smoldb.Cluster.Interleaving
import Smoldb.Lib.Interleave

/-!
# Batches at the same time

Upserts only take read locks, so any number of them write to the trees of a node at a time.  What
one of them does to these trees is a list of inserts, `Collection.inserts`, and what several of them
do is an interleaving of their lists (`Lib/Interleave.lean`).  Calls of other nodes are upserts like
any other here, and so is a call of a remote shard that leads back to the node.

`upsertPoints_noteInserts` and `upsertPoints_node` are the connection to the code: these are the
inserts of `upsert_points`, in this order, and nothing else happens to the trees of the collection.

After any interleaving, a tree has for each key what was inserted last under it.  Which batch that
is from is open, but in that batch it is the last insert under the key, and so a point that is the
last of its id there, in the shard of its id.  Hence no key is lost, and none is made up; and if no
two batches have a key in common (`Collection.Apart`), the interleaving makes no difference at all.
-/

set_option autoImplicit false

namespace Smoldb

open LastWrite

variable {V : Type} {X : Crates V}

/-- The batch of a call of `upsert_points`, and the order in which its shards are visited. -/
structure Batch (V : Type) where
  order : IterOrder (ShardId × List PointId)
  points : List (Point V)
  localOnly : Bool

/-- Where an insert goes: the shard and the key. -/
def insertKey (e : ShardId × Point V) : ShardId × String := (e.1, Segment.keyOf e.2)

/-- Inserts into the trees of a collection at a node. -/
def Stores.insertAll (X : Crates V) (peer : PeerId) (name : CollectionName)
    (ops : List (ShardId × Point V)) (w : Stores) : Stores :=
  Stores.putList X (ops.map fun e ↦ (⟨peer, name, e.1⟩, e.2)) w

namespace Stores

variable {peer : PeerId} {name : CollectionName} {w w' : Stores}

theorem insertAll_append (as bs : List (ShardId × Point V)) (w : Stores) :
    w.insertAll X peer name (as ++ bs) = (w.insertAll X peer name as).insertAll X peer name bs := by
  rw [insertAll, List.map_append, putList, List.foldl_append]
  rfl

/-- The points that inserts store at a place, one after the other. -/
theorem insertAll_apply (ops : List (ShardId × Point V)) (w : Stores) (s : ShardId) :
    w.insertAll X peer name ops ⟨peer, name, s⟩
      = LocalShard.putAll X ((ops.filter fun e ↦ e.1 = s).map Prod.snd) (w ⟨peer, name, s⟩) := by
  rw [insertAll, putList_eq, putAll, List.filter_map, List.map_map]
  congr 2
  exact List.filter_congr fun e _ ↦ by simp

/-- Inserts into one shard. -/
theorem insertAll_shard (points : List (Point V)) (w : Stores) (s : ShardId) :
    w.insertAll X peer name (points.map fun p ↦ (s, p))
      = Function.update w ⟨peer, name, s⟩ (LocalShard.putAll X points (w ⟨peer, name, s⟩)) := by
  have hmap : (points.map fun p ↦ (s, p)).map (fun e ↦ ((⟨peer, name, e.1⟩ : Place), e.2))
      = points.map fun p ↦ (⟨peer, name, s⟩, p) := List.map_map ..
  funext pl
  rw [insertAll, hmap, putList_eq, putAll, WriteLog.filter_map_place]
  by_cases hpl : pl = ⟨peer, name, s⟩
  · rw [hpl, WriteLog.single_self, Function.update_self]
  · rw [WriteLog.single, if_neg hpl, Function.update_of_ne hpl, LocalShard.putAll_nil]

/-- What a place has after some inserts depends on what it had before, and on nothing else. -/
theorem insertAll_congr (ops : List (ShardId × Point V)) {s : ShardId}
    (h : w ⟨peer, name, s⟩ = w' ⟨peer, name, s⟩) :
    w.insertAll X peer name ops ⟨peer, name, s⟩ = w'.insertAll X peer name ops ⟨peer, name, s⟩ := by
  rw [insertAll_apply, insertAll_apply, h]

/-- **What a tree holds** after some inserts: the last one of each key. -/
theorem getElem?_insertAll (ops : List (ShardId × Point V)) (w : Stores) (s : ShardId)
    (k : String) :
    (w.insertAll X peer name ops ⟨peer, name, s⟩ 0)[k]?
      = ((last insertKey ops (s, k)).map fun e ↦ X.encode e.2).or (w ⟨peer, name, s⟩ 0)[k]? := by
  rw [insertAll_apply, LocalShard.putAll_zero, Segment.getElem?_putAll, last_map, Option.map_map]
  have hkey : ∀ e ∈ ops.filter fun e ↦ e.1 = s, Segment.keyOf e.2 = k ↔ insertKey e = (s, k) := by
    intro e he
    have hs : e.1 = s := by simpa using (List.mem_filter.mp he).2
    simp [insertKey, hs]
  rw [last_congr hkey, last_filter]
  · rfl
  · rintro e he
    simp [(Prod.mk.inj he).1]

end Stores

/-! ## The inserts of one upsert -/

namespace Collection

variable {c : Collection X} {order : IterOrder (ShardId × List PointId)} {points : List (Point V)}

/-- The inserts into one shard. -/
theorem filter_inserts (c : Collection X) (order : IterOrder (ShardId × List PointId))
    (points : List (Point V)) (s : ShardId) : (c.inserts order points).filter (fun e ↦ e.1 = s)
      = (shardPoints c.shardOf points s).map fun p ↦ (s, p) := by
  have hone : ∀ t, ((shardPoints c.shardOf points t).map fun p ↦ (t, p)).filter (fun e ↦ e.1 = s)
      = if t = s then (shardPoints c.shardOf points s).map fun p ↦ (s, p) else [] := by
    intro t
    split
    · rename_i hts
      rw [hts, List.filter_eq_self]
      simp
    · rename_i hts
      rw [List.filter_eq_nil_iff]
      simp [hts]
  have hall : ∀ l : List ShardId, l.Nodup →
      (l.flatMap fun s ↦ (shardPoints c.shardOf points s).map fun p ↦ (s, p)).filter
        (fun e ↦ e.1 = s)
      = if s ∈ l then (shardPoints c.shardOf points s).map fun p ↦ (s, p) else [] := by
    intro l hl
    induction l with
    | nil => rfl
    | cons t l ih =>
      obtain ⟨ht, hl⟩ := List.nodup_cons.mp hl
      rw [List.flatMap_cons, List.filter_append, hone, ih hl]
      by_cases hts : t = s
      · subst hts
        simp [ht]
      · simp [hts, Ne.symm hts]
  rw [inserts, hall _ (shardOrder_nodup order points)]
  split
  · rfl
  · rename_i hs
    rw [shardPoints_eq_nil hs, List.map_nil]

/-- **The last insert of a key** is the last point of the batch that belongs there. -/
theorem last_inserts (c : Collection X) (order : IterOrder (ShardId × List PointId))
    (points : List (Point V)) (s : ShardId) (k : String) :
    last insertKey (c.inserts order points) (s, k)
      = (last (fun p ↦ (c.shardOf p.id, Segment.keyOf p)) points (s, k)).map fun p ↦ (s, p) := by
  have hfilter : last insertKey ((c.inserts order points).filter fun e ↦ e.1 = s) (s, k)
      = last insertKey (c.inserts order points) (s, k) :=
    last_filter (fun e he ↦ by simp [(Prod.mk.inj he).1]) _
  rw [← hfilter, filter_inserts, last_map, ← last_shardPoints]
  congr 1
  exact last_congr fun p _ ↦ by simp [insertKey]

/-! ## The inserts are those of the code -/

/-- The calls of a batch whose replicas all succeed. -/
theorem upsertPoints_eq_runCalls {σ : Type}
    {upsert : ShardId → Replica → List (Point V) → σ → σ × CollectionResult Unit}
    (hu : Oblivious upsert) {s₀ : ShardId} (hs₀ : s₀ ∈ c.replicaHolder.shards) {localOnly : Bool}
    (hok : ∀ s rs, c.replicaHolder.shards.lookup s = some rs → ∀ r ∈ rs.replicas localOnly,
      ∀ points w, (upsert s r points w).2 = .ok ())
    (order : IterOrder (ShardId × List PointId)) (points : List (Point V)) (w : σ) :
    c.upsertPoints upsert order points localOnly w =
      (runCalls upsert ((c.shardOrder order points).flatMap (c.shardCalls points localOnly)) w,
        some (.ok ())) := by
  obtain ⟨visited, rest, r, horder, heq, hcase⟩ := upsertPoints_spec hu w hs₀ order points localOnly
  rw [heq]
  obtain ⟨rfl, rfl, -⟩ | ⟨-, acked, s, rfl, -, hs⟩ := hcase
  · rw [horder, List.append_nil]
  · -- no shard can have been the one that did not acknowledge
    have hmem : s ∈ c.shardOrder order points := by rw [horder]; simp
    obtain ⟨p, hp, rfl⟩ := mem_shardOrder.mp hmem
    obtain ⟨rs, hrs⟩ := ReplicaHolder.exists_lookup_shardOf hs₀ p.id
    refine absurd ⟨rs, hrs, ?_⟩ hs
    have hresults : results upsert w rs localOnly (c.shardOf p.id)
        (shardPoints c.shardOf points (c.shardOf p.id))
        = (rs.replicas localOnly).map fun _ ↦ .ok () :=
      List.map_congr_left fun r hr ↦ hok _ rs hrs r hr _ w
    rw [hresults]
    cases localOnly with
    | true => exact ⟨⟨_, rfl⟩, Or.inl rfl⟩
    | false =>
      refine ⟨⟨_, rfl⟩, Or.inr ?_⟩
      rw [List.countP_eq_length.mpr fun result hresult ↦ ?_]
      · simp [ReplicaSet.replicas, ReplicaSet.numReplicas]
      · obtain ⟨r, -, rfl⟩ := List.mem_map.mp hresult
        rfl

/-- What is inserted in the trees of the node by some calls. -/
def nodeInserts (calls : List (Call V)) : List (ShardId × Point V) :=
  calls.flatMap fun call ↦
    match call.replica with
    | .localShard _ => call.points.map fun p ↦ (call.shard, p)
    | .remoteShard _ => []

/-- The calls of an upsert insert what they should. -/
theorem nodeInserts_shardCalls {s₀ : ShardId} (hs₀ : s₀ ∈ c.replicaHolder.shards)
    (order : IterOrder (ShardId × List PointId)) (points : List (Point V)) (localOnly : Bool) :
    nodeInserts ((c.shardOrder order points).flatMap (c.shardCalls points localOnly))
      = c.inserts order points := by
  rw [nodeInserts, List.flatMap_assoc, inserts]
  refine List.flatMap_congr fun s hs ↦ ?_
  obtain ⟨p, hp, rfl⟩ := mem_shardOrder.mp hs
  obtain ⟨rs, hrs⟩ := ReplicaHolder.exists_lookup_shardOf hs₀ p.id
  have hcalls : c.shardCalls points localOnly (c.shardOf p.id) = (rs.replicas localOnly).map
      fun r ↦ ⟨c.shardOf p.id, r, shardPoints c.shardOf points (c.shardOf p.id)⟩ := by
    rw [shardCalls, shardOf, hrs]
  rw [hcalls, ReplicaSet.replicas, List.map_cons, List.flatMap_cons, List.flatMap_eq_nil_iff.mpr]
  · rw [List.append_nil]
  · intro call hcall
    obtain ⟨r, hr, rfl⟩ := List.mem_map.mp hcall
    cases localOnly with
    | true => cases hr
    | false =>
      obtain ⟨shard, -, rfl⟩ := List.mem_map.mp hr
      rfl

/-- A replica is the shard of the node or a remote shard. -/
theorem replica_cases {rs : ReplicaSet} {localOnly : Bool} {r : Replica}
    (hr : r ∈ rs.replicas localOnly) :
    r = .localShard rs.localShard ∨ ∃ shard, r = .remoteShard shard := by
  obtain hr | hr := List.mem_cons.mp hr
  · exact Or.inl hr
  · cases localOnly with
    | true => exact nomatch hr
    | false =>
      obtain ⟨shard, -, rfl⟩ := List.mem_map.mp hr
      exact Or.inr ⟨shard, rfl⟩

/-- A trait method that notes the points the shard of the node is given. -/
def noteInserts (s : ShardId) (replica : Replica) (points : List (Point V))
    (done : List (ShardId × Point V)) : List (ShardId × Point V) × CollectionResult Unit :=
  match replica with
  | .localShard _ => (done ++ points.map fun p ↦ (s, p), .ok ())
  | .remoteShard _ => (done, .ok ())

/-- **These are the inserts of `upsert_points`**, in the order in which it makes them. -/
theorem upsertPoints_noteInserts {s₀ : ShardId} (hs₀ : s₀ ∈ c.replicaHolder.shards)
    (order : IterOrder (ShardId × List PointId)) (points : List (Point V)) (localOnly : Bool) :
    c.upsertPoints noteInserts order points localOnly [] =
      (c.inserts order points, some (.ok ())) := by
  have hok : ∀ s r (points : List (Point V)) w, (noteInserts s r points w).2 = .ok () := by
    intro s r points w
    cases r <;> rfl
  have hrun : ∀ (calls : List (Call V)) done, runCalls noteInserts calls done
      = done ++ nodeInserts calls := by
    intro calls
    induction calls with
    | nil => exact fun done ↦ (List.append_nil done).symm
    | cons call calls ih =>
      intro done
      have hcons : runCalls noteInserts (call :: calls) done
          = runCalls noteInserts calls
            (noteInserts call.shard call.replica call.points done).1 := rfl
      rw [hcons, ih, nodeInserts, nodeInserts, List.flatMap_cons]
      cases call.replica with
      | localShard shard => exact List.append_assoc ..
      | remoteShard shard => rfl
  rw [upsertPoints_eq_runCalls (fun s r points w w' ↦ by rw [hok, hok]) hs₀
    fun s rs _ r _ points w ↦ hok s r points w]
  rw [hrun, nodeInserts_shardCalls hs₀, List.nil_append]

/-- Calls of remote shards that succeed, and leave the trees of the collection at the node alone. -/
def Aside (peer : PeerId) (name : CollectionName)
    (remote : ShardId → RemoteShard → List (Point V) → Stores → Stores × CollectionResult Unit) :
    Prop :=
  ∀ s shard points w, (remote s shard points w).2 = .ok () ∧
    ∀ t, (remote s shard points w).1 ⟨peer, name, t⟩ = w ⟨peer, name, t⟩

variable {peer : PeerId} {name : CollectionName}
  {remote : ShardId → RemoteShard → List (Point V) → Stores → Stores × CollectionResult Unit}

/-- What a sequence of calls does to the trees of the node. -/
theorem runCalls_node {upsert : ShardId → Replica → List (Point V) → Stores →
      Stores × CollectionResult Unit} {calls : List (Call V)}
    (h : ∀ call ∈ calls, ∀ w t, (upsert call.shard call.replica call.points w).1 ⟨peer, name, t⟩
      = w.insertAll X peer name (nodeInserts [call]) ⟨peer, name, t⟩) (w : Stores) (t : ShardId) :
    runCalls upsert calls w ⟨peer, name, t⟩
      = w.insertAll X peer name (nodeInserts calls) ⟨peer, name, t⟩ := by
  induction calls generalizing w with
  | nil => rfl
  | cons call calls ih =>
    have hcons : runCalls upsert (call :: calls) w
        = runCalls upsert calls (upsert call.shard call.replica call.points w).1 := rfl
    have hinserts : nodeInserts (call :: calls) = nodeInserts [call] ++ nodeInserts calls := by
      rw [nodeInserts, List.flatMap_cons, nodeInserts, List.flatMap_singleton, nodeInserts]
    rw [hcons, ih (fun call' hcall ↦ h call' (List.mem_cons_of_mem _ hcall)), hinserts,
      Stores.insertAll_append]
    exact Stores.insertAll_congr _ (h call List.mem_cons_self w t)

/-- **What an upsert does to the trees of its node**, as long as nothing fails. -/
theorem upsertPoints_node (hc : c.WellFormed) {s₀ : ShardId} (hs₀ : s₀ ∈ c.replicaHolder.shards)
    {sled : ShardId → SledWrites} (hsled : ∀ s, sled s = .clean) (hremote : Aside peer name remote)
    (b : Batch V) (w : Stores) :
    (c.upsertPoints (replicaUpsert X peer name sled remote) b.order b.points b.localOnly w).2
      = some (.ok ()) ∧
    ∀ t, (c.upsertPoints (replicaUpsert X peer name sled remote) b.order b.points b.localOnly w).1
        ⟨peer, name, t⟩ = w.insertAll X peer name (c.inserts b.order b.points) ⟨peer, name, t⟩ := by
  have hlocal : ∀ s rs, c.replicaHolder.shards.lookup s = some rs → ∀ points w,
      replicaUpsert X peer name sled remote s (.localShard rs.localShard) points w
        = (w.insertAll X peer name (points.map fun p ↦ (s, p)), .ok ()) := by
    intro s rs hrs points w
    rw [replicaUpsert, hsled, Stores.insertAll_shard]
    simp only [LocalShard.upsertPoints_clean X (hc.segment s rs hrs)]
  have hobl : Oblivious (replicaUpsert X peer name sled remote) := by
    intro s r points w w'
    cases r with
    | localShard shard =>
      obtain ⟨log, result, heq, -⟩ :=
        replicaUpsert_local_spec (X := X) peer name sled remote s shard
        points
      rw [heq, heq]
    | remoteShard shard =>
      exact (hremote s shard points w).1.trans (hremote s shard points w').1.symm
  have hok : ∀ s rs, c.replicaHolder.shards.lookup s = some rs → ∀ r ∈ rs.replicas b.localOnly,
      ∀ points w, (replicaUpsert X peer name sled remote s r points w).2 = .ok () := by
    intro s rs hrs r hr points w
    obtain rfl | ⟨shard, rfl⟩ := replica_cases hr
    · rw [hlocal s rs hrs]
    · exact (hremote s shard points w).1
  have hcall : ∀ call ∈ (c.shardOrder b.order b.points).flatMap (c.shardCalls b.points b.localOnly),
      ∀ w t, (replicaUpsert X peer name sled remote call.shard call.replica call.points w).1
        ⟨peer, name, t⟩ = w.insertAll X peer name (nodeInserts [call]) ⟨peer, name, t⟩ := by
    intro call hcall w t
    obtain ⟨s, -, hcall⟩ := List.mem_flatMap.mp hcall
    obtain ⟨rs, hrs, r, hr, rfl⟩ := mem_shardCalls.mp hcall
    obtain rfl | ⟨shard, rfl⟩ := replica_cases hr
    · rw [hlocal s rs hrs, nodeInserts, List.flatMap_singleton]
    · exact (hremote s shard _ w).2 t
  rw [upsertPoints_eq_runCalls hobl hs₀ hok]
  refine ⟨rfl, fun t ↦ (runCalls_node hcall w t).trans ?_⟩
  rw [nodeInserts_shardCalls hs₀]

/-- Batches one after the other. -/
theorem foldl_upsertPoints_node (hc : c.WellFormed) {s₀ : ShardId}
    (hs₀ : s₀ ∈ c.replicaHolder.shards) (hremote : Aside peer name remote)
    (batches : List (Batch V)) (w : Stores) (t : ShardId) :
    batches.foldl (fun w b ↦ (c.upsertPoints (replicaUpsert X peer name (fun _ ↦ .clean) remote)
        b.order b.points b.localOnly w).1) w ⟨peer, name, t⟩
      = w.insertAll X peer name (batches.map fun b ↦ c.inserts b.order b.points).flatten
        ⟨peer, name, t⟩ := by
  induction batches generalizing w with
  | nil => rfl
  | cons b batches ih =>
    rw [List.foldl_cons, ih, List.map_cons, List.flatten_cons, Stores.insertAll_append]
    exact Stores.insertAll_congr _ ((upsertPoints_node hc hs₀ (fun _ ↦ rfl) hremote b w).2 t)

end Collection

/-! ## The inserts of many -/

/-- The points of a batch that go to a shard under a key. -/
def Collection.Touches (c : Collection X) (points : List (Point V)) (s : ShardId) (k : String) :
    Prop := ∃ p ∈ points, c.shardOf p.id = s ∧ Segment.keyOf p = k

theorem Collection.touches_iff {c : Collection X} {points : List (Point V)} {s : ShardId}
    {k : String} (order : IterOrder (ShardId × List PointId)) :
    c.Touches points s k ↔ ∃ e, last insertKey (c.inserts order points) (s, k) = some e := by
  rw [← Option.ne_none_iff_exists', last_inserts, Ne, Option.map_eq_none_iff, last_eq_none_iff]
  simp [Touches]

/-- A key is written by an interleaving if one of the batches has a point for it. -/
theorem Collection.exists_last_iff {c : Collection X} {batches : List (Batch V)}
    {ops : List (ShardId × Point V)}
    (hops : Interleaves (batches.map fun b ↦ c.inserts b.order b.points) ops) (s : ShardId)
    (k : String) :
    (∃ e, last insertKey ops (s, k) = some e) ↔ ∃ b ∈ batches, c.Touches b.points s k := by
  constructor
  · rintro ⟨e, he⟩
    obtain ⟨x, hx, hlast⟩ := hops.exists_last he
    obtain ⟨b, hb, rfl⟩ := List.mem_map.mp hx
    exact ⟨b, hb, (touches_iff b.order).mpr ⟨e, hlast⟩⟩
  · rintro ⟨b, hb, htouches⟩
    obtain ⟨e, he⟩ := (touches_iff b.order).mp htouches
    have hmem : e ∈ ops := hops.mem_iff.mpr ⟨_, List.mem_map_of_mem hb, mem_of_last he⟩
    obtain ⟨e', he'⟩ := exists_last_of_mem insertKey hmem
    rw [key_of_last he] at he'
    exact ⟨e', he'⟩

/-- No two batches have points for the same key of a shard. -/
def Collection.Apart (c : Collection X) (batches : List (Batch V)) : Prop :=
  batches.Pairwise fun b b' ↦ ∀ s k, c.Touches b.points s k → ¬ c.Touches b'.points s k

/-- What batches that are apart write last does not depend on how they are interleaved, nor on the
orders in which they visit their shards. -/
theorem Collection.Apart.last_eq {c : Collection X} {batches batches' : List (Batch V)}
    (h : c.Apart batches) (hpoints : (batches'.map Batch.points).Perm (batches.map Batch.points))
    {ops ops' : List (ShardId × Point V)}
    (hops : Interleaves (batches.map fun b ↦ c.inserts b.order b.points) ops)
    (hops' : Interleaves (batches'.map fun b ↦ c.inserts b.order b.points) ops') (s : ShardId)
    (k : String) : last insertKey ops' (s, k) = last insertKey ops (s, k) := by
  have hagree : ∀ b ∈ batches, ∀ b' ∈ batches, ∀ e e',
      last insertKey (c.inserts b.order b.points) (s, k) = some e →
      last insertKey (c.inserts b'.order b'.points) (s, k) = some e' → e = e' := by
    intro b hb b' hb' e e' he he'
    by_cases hbb : b = b'
    · subst hbb
      exact Option.some.inj (he.symm.trans he')
    · have hsymm : Std.Symm fun b b' : Batch V ↦ ∀ s k, c.Touches b.points s k →
          ¬ c.Touches b'.points s k := ⟨fun b b' hb s k ht' ht ↦ hb s k ht ht'⟩
      exact absurd ((touches_iff b'.order).mpr ⟨e', he'⟩)
        (List.Pairwise.forall h hb hb' hbb s k ((touches_iff b.order).mpr ⟨e, he⟩))
  -- the same batch, with another order of the shards
  have hsame : ∀ b' ∈ batches', ∃ b ∈ batches, last insertKey (c.inserts b'.order b'.points) (s, k)
      = last insertKey (c.inserts b.order b.points) (s, k) := by
    intro b' hb'
    obtain ⟨b, hb, hbb⟩ := List.mem_map.mp (hpoints.mem_iff.mp (List.mem_map_of_mem hb'))
    exact ⟨b, hb, by rw [last_inserts, last_inserts, hbb]⟩
  have hsame' : ∀ b ∈ batches, ∃ b' ∈ batches', last insertKey (c.inserts b'.order b'.points) (s, k)
      = last insertKey (c.inserts b.order b.points) (s, k) := by
    intro b hb
    obtain ⟨b', hb', hbb⟩ := List.mem_map.mp (hpoints.mem_iff.mpr (List.mem_map_of_mem hb))
    exact ⟨b', hb', by rw [last_inserts, last_inserts, hbb]⟩
  refine Option.ext fun e ↦ ?_
  rw [hops.last_eq_some_iff, hops'.last_eq_some_iff]
  · constructor
    · rintro ⟨x, hx, he⟩
      obtain ⟨b', hb', rfl⟩ := List.mem_map.mp hx
      obtain ⟨b, hb, hlast⟩ := hsame b' hb'
      exact ⟨_, List.mem_map_of_mem hb, hlast.symm.trans he⟩
    · rintro ⟨x, hx, he⟩
      obtain ⟨b, hb, rfl⟩ := List.mem_map.mp hx
      obtain ⟨b', hb', hlast⟩ := hsame' b hb
      exact ⟨_, List.mem_map_of_mem hb', hlast.trans he⟩
  · intro x hx y hy e e' he he'
    obtain ⟨b₁', hb₁', rfl⟩ := List.mem_map.mp hx
    obtain ⟨b₂', hb₂', rfl⟩ := List.mem_map.mp hy
    obtain ⟨b₁, hb₁, hlast₁⟩ := hsame b₁' hb₁'
    obtain ⟨b₂, hb₂, hlast₂⟩ := hsame b₂' hb₂'
    exact hagree b₁ hb₁ b₂ hb₂ e e' (hlast₁.symm.trans he) (hlast₂.symm.trans he')
  · intro x hx y hy e e' he he'
    obtain ⟨b₁, hb₁, rfl⟩ := List.mem_map.mp hx
    obtain ⟨b₂, hb₂, rfl⟩ := List.mem_map.mp hy
    exact hagree b₁ hb₁ b₂ hb₂ e e' he he'

/-- **Concurrent batches on one node lose no point.**  However the inserts of any number of upserts
are interleaved, the keys are those that were there and those of the batches, a key of the batches
has a last point of one of them, and all else is as it was.  If no two batches have a key in common,
the trees are those that the upserts leave one after the other, in any order. -/
theorem concurrent_batches {c : Collection X} (hc : c.WellFormed) {s₀ : ShardId}
    (hs₀ : s₀ ∈ c.replicaHolder.shards) (peer : PeerId) (name : CollectionName)
    (batches : List (Batch V)) {ops : List (ShardId × Point V)}
    (hops : Interleaves (batches.map fun b ↦ c.inserts b.order b.points) ops) (w : Stores) :
    let w' := w.insertAll X peer name ops
    (∀ s k, k ∈ w' ⟨peer, name, s⟩ 0 ↔
      k ∈ w ⟨peer, name, s⟩ 0 ∨ ∃ b ∈ batches, c.Touches b.points s k) ∧
    (∀ s k, (∃ b ∈ batches, c.Touches b.points s k) → ∃ b ∈ batches, ∃ p,
      last Point.id b.points p.id = some p ∧ c.shardOf p.id = s ∧ p.id.intoString = k ∧
        (w' ⟨peer, name, s⟩ 0)[k]? = some (X.encode p)) ∧
    (∀ s k, (¬ ∃ b ∈ batches, c.Touches b.points s k) →
      (w' ⟨peer, name, s⟩ 0)[k]? = (w ⟨peer, name, s⟩ 0)[k]?) ∧
    (c.Apart batches → ∀ batches' : List (Batch V),
      (batches'.map Batch.points).Perm (batches.map Batch.points) →
      ∀ remote, Collection.Aside peer name remote → ∀ s,
        batches'.foldl (fun w b ↦ (c.upsertPoints (replicaUpsert X peer name
          (fun _ ↦ .clean) remote)
          b.order b.points b.localOnly w).1) w ⟨peer, name, s⟩ = w' ⟨peer, name, s⟩) := by
  intro w'
  have hget : ∀ s k, (w' ⟨peer, name, s⟩ 0)[k]? = ((last insertKey ops (s, k)).map fun e ↦
      X.encode e.2).or (w ⟨peer, name, s⟩ 0)[k]? := Stores.getElem?_insertAll ops w
  refine ⟨fun s k ↦ ?_, fun s k htouched ↦ ?_, fun s k huntouched ↦ ?_, ?_⟩
  · rw [← Collection.exists_last_iff hops, ← Std.ExtTreeMap.isSome_getElem?_iff_mem,
      ← Std.ExtTreeMap.isSome_getElem?_iff_mem, hget]
    cases last insertKey ops (s, k) with
    | none => simp
    | some e => simp
  · obtain ⟨e, he⟩ := (Collection.exists_last_iff hops s k).mpr htouched
    obtain ⟨x, hx, hlast⟩ := hops.exists_last he
    obtain ⟨b, hb, rfl⟩ := List.mem_map.mp hx
    obtain ⟨hshard, hpoint⟩ := Collection.mem_inserts.mp (mem_of_last hlast)
    have hkey : insertKey e = (s, k) := key_of_last he
    obtain ⟨hs, hk⟩ := Prod.mk.inj hkey
    refine ⟨b, hb, e.2, hpoint, hshard.trans hs, hk, ?_⟩
    rw [hget, he]
    rfl
  · have hnone : last insertKey ops (s, k) = none := by
      rw [Option.eq_none_iff_forall_ne_some]
      exact fun e he ↦ huntouched ((Collection.exists_last_iff hops s k).mp ⟨e, he⟩)
    rw [hget, hnone]
    rfl
  · intro hapart batches' hpoints remote hremote s
    rw [Collection.foldl_upsertPoints_node hc hs₀ hremote]
    funext g
    by_cases hg : g = 0
    · subst hg
      refine Std.ExtTreeMap.ext_getElem? fun k ↦ ?_
      rw [hget, Stores.getElem?_insertAll, hapart.last_eq hpoints hops (.flatten _)]
    · have hw' : w' ⟨peer, name, s⟩ = _ := Stores.insertAll_apply ops w s
      rw [hw', Stores.insertAll_apply, LocalShard.putAll_of_ne X hg, LocalShard.putAll_of_ne X hg]

namespace Batch

/-- A batch with a point that comes twice. -/
def first : Batch Bool := ⟨.insertion, [⟨.id 1, true⟩, ⟨.id 2, true⟩, ⟨.id 1, false⟩], false⟩

/-- A batch with other points. -/
def second : Batch Bool := ⟨.reversed, [⟨.id 4, true⟩, ⟨.uuid "7", false⟩], true⟩

end Batch

/-- Two batches, one insert of each at a time, and then one batch after the other. -/
theorem concurrent_batches_two :
    [Batch.second, Batch.first].foldl (fun w b ↦
      ((Collection.init "c" ⟨""⟩ ["c"] .insertion : Collection Crates.bool).upsertPoints
        (replicaUpsert Crates.bool 101 "c" (fun _ ↦ .clean) noRemote) b.order b.points b.localOnly
        w).1) Stores.empty ⟨101, "c", 0⟩
    = Stores.empty.insertAll Crates.bool 101 "c" [(0, ⟨.id 1, false⟩), (0, ⟨.id 4, true⟩),
        (0, ⟨.id 1, false⟩), (0, ⟨.uuid "7", false⟩), (1, ⟨.id 2, true⟩)] ⟨101, "c", 0⟩ := by
  have hops : Interleaves ([Batch.first, Batch.second].map fun b ↦
      (Collection.init "c" ⟨""⟩ ["c"] .insertion : Collection Crates.bool).inserts b.order b.points)
      [(0, ⟨.id 1, false⟩), (0, ⟨.id 4, true⟩), (0, ⟨.id 1, false⟩), (0, ⟨.uuid "7", false⟩),
        (1, ⟨.id 2, true⟩)] :=
    .step (i := 0) rfl (.step (i := 1) rfl (.step (i := 0) rfl (.step (i := 1) rfl
      (.step (i := 0) rfl (.nil (by decide))))))
  obtain ⟨-, -, -, hsame⟩ := concurrent_batches
    (Collection.init_wellFormed "c" ⟨""⟩ ["c"] .insertion)
    (Collection.mem_init.mpr (Or.inl rfl)) 101 "c" _ hops Stores.empty
  have hkeys : ∀ p ∈ Batch.first.points, ∀ q ∈ Batch.second.points,
      Segment.keyOf p ≠ Segment.keyOf q := by decide
  refine hsame (List.pairwise_pair.mpr ?_) [Batch.second, Batch.first] (List.Perm.swap ..) noRemote
    (fun _ _ _ _ ↦ ⟨rfl, fun _ ↦ rfl⟩) 0
  rintro s k ⟨p, hp, -, rfl⟩ ⟨q, hq, -, hqp⟩
  exact hkeys p hp q hq hqp.symm

end Smoldb
