import Smoldb.Cluster.Placement

/-!
# A collection is a last-writer-wins map

The abstract collection is the list of all points ever written to it.  It holds, under a shard and
the text of an id, the last of them that has both: `lastWritten`.

`runUpserts_holds` is the refinement: as long as sled answers, the trees hold exactly that after any
sequence of upserts, in whatever orders the shards of a batch are visited.  The key is coarser than
the id, since a number and a string can have the same text, so this is where `last_shardPoints` does
its work: a batch is deduplicated by id, split by shard and written shard by shard, and none of that
is visible under the coarser key.

`collection_refines_lastWritten` adds the reads.  A read by id returns what is held under the text
of the id in its shard, and a list returns everything that is held, once.  Both are what
`Cluster/Reads.lean` finds in the trees, as long as a point is read back as it was written.

The collection has no remote shards here (`Collection.Alone`).  `Cluster/Sequential.lean` does the
same for a cluster.
-/

set_option autoImplicit false

namespace Smoldb

open LastWrite

variable {V : Type} {X : Crates V}

/-- What a last-writer-wins map holds under a shard and a text, after the points of `W`. -/
def lastWritten (f : PointId → ShardId) (W : List (Point V)) (s : ShardId) (k : String) :
    Option (Point V) := last (fun p ↦ (f p.id, p.id.intoString)) W (s, k)

/-- An upsert of a client. -/
structure ClientUpsert (V : Type) where
  env : ClusterWriteEnv
  points : List (Point V)
  localOnly : Bool

/-- A sequence of upserts to a collection of a node. -/
def Cluster.runUpserts (cl : Cluster X) (peer : PeerId) (name : CollectionName) (c : Collection X)
    (batches : List (ClientUpsert V)) (w : Stores) : Stores :=
  batches.foldl (fun w b ↦ (cl.upsertPoints peer name c b.env b.points b.localOnly w).1) w

/-- The points of the batches, in order. -/
def written (batches : List (ClientUpsert V)) : List (Point V) :=
  batches.flatMap ClientUpsert.points

/-- No remote shard is known. -/
def Collection.Alone (c : Collection X) : Prop :=
  ∀ s rs, c.replicaHolder.shards.lookup s = some rs → rs.remotes = []

theorem Collection.init_alone (id : CollectionName) (config : CollectionConfig) (path : Path)
    (order : IterOrder (Σ _ : ShardId, ReplicaSet)) :
    (Collection.init (X := X) id config path order).Alone := by
  intro s rs hrs
  have hperm := (Collection.init_knows (X := X) id config path order).remotes s rs hrs
  exact List.map_eq_nil_iff.mp hperm.eq_nil

/-- The shard of an id does not depend on the order of the map of shards. -/
theorem Collection.init_shardOf (id : CollectionName) (config : CollectionConfig) (path : Path)
    (order order' : IterOrder (Σ _ : ShardId, ReplicaSet)) :
    (Collection.init (X := X) id config path order).shardOf
      = (Collection.init (X := X) id config path order').shardOf :=
  Collection.Knows.shardOf_eq (Collection.init_knows id config path order)
    (Collection.init_knows id config path order')

/-- **An upsert writes the last points of the batch**, as long as sled answers. -/
theorem Cluster.upsertPoints_clean {cl : Cluster X} {peer : PeerId} {name : CollectionName}
    {c : Collection X} (hc : c.WellFormed) (halone : c.Alone) {s₀ : ShardId}
    (hs₀ : s₀ ∈ c.replicaHolder.shards) {env : ClusterWriteEnv} (hsled : ∀ s, env.sled s = .clean)
    (points : List (Point V)) (localOnly : Bool) (w : Stores) :
    cl.upsertPoints peer name c env points localOnly w =
      (Stores.putAll X (WriteLog.node peer name (shardPoints c.shardOf points)) w,
        some (.ok ())) := by
  rw [Cluster.upsertPoints, c.upsertPoints_of_no_remotes halone]
  exact Collection.upsertPoints_local_clean hc hs₀ peer name hsled _ env.order points w

/-- What a tree holds after an upsert. -/
theorem getElem?_putAll_node (f : PointId → ShardId) (peer : PeerId) (name : CollectionName)
    (points : List (Point V)) (w : Stores) (s : ShardId) (k : String) :
    (Stores.putAll X (WriteLog.node peer name (shardPoints f points)) w ⟨peer, name, s⟩ 0)[k]?
      = ((lastWritten f points s k).map X.encode).or (w ⟨peer, name, s⟩ 0)[k]? := by
  rw [Stores.putAll, LocalShard.putAll_zero, Segment.getElem?_putAll, WriteLog.node_self,
    last_shardPoints]
  rfl

theorem lastWritten_append (f : PointId → ShardId) (A B : List (Point V)) (s : ShardId)
    (k : String) :
    lastWritten f (A ++ B) s k = (lastWritten f B s k).or (lastWritten f A s k) :=
  last_append A B (s, k)

theorem key_of_lastWritten {f : PointId → ShardId} {W : List (Point V)} {s : ShardId} {k : String}
    {p : Point V} (h : lastWritten f W s k = some p) : f p.id = s ∧ p.id.intoString = k := by
  have hkey : (f p.id, p.id.intoString) = (s, k) := key_of_last (W := W) h
  exact Prod.mk.inj hkey

/-- The last point of a shard and a text is the last point of its id. -/
theorem last_of_lastWritten {f : PointId → ShardId} {W : List (Point V)} {p : Point V}
    (h : lastWritten f W (f p.id) p.id.intoString = some p) : last Point.id W p.id = some p := by
  have hcoarse : ∀ a b : Point V, a.id = b.id →
      (f a.id, a.id.intoString) = (f b.id, b.id.intoString) := fun a b hab ↦ by rw [hab]
  exact last_refine hcoarse h

/-- **The trees are the last-writer-wins map**, after any sequence of upserts in which sled
answers. -/
theorem runUpserts_holds {cl : Cluster X} {peer : PeerId} {name : CollectionName} {c : Collection X}
    (hc : c.WellFormed) (halone : c.Alone) {s₀ : ShardId} (hs₀ : s₀ ∈ c.replicaHolder.shards)
    {batches : List (ClientUpsert V)} (hsled : ∀ b ∈ batches, ∀ s, b.env.sled s = .clean)
    (w : Stores) (s : ShardId) (k : String) :
    (cl.runUpserts peer name c batches w ⟨peer, name, s⟩ 0)[k]?
      = ((lastWritten c.shardOf (written batches) s k).map X.encode).or
          (w ⟨peer, name, s⟩ 0)[k]? := by
  induction batches generalizing w with
  | nil => rw [show written ([] : List (ClientUpsert V)) = [] from rfl, lastWritten, last_nil]; rfl
  | cons b batches ih =>
    have hstep : cl.runUpserts peer name c (b :: batches) w
        = cl.runUpserts peer name c batches
            (cl.upsertPoints peer name c b.env b.points b.localOnly w).1 := rfl
    have hwritten : written (b :: batches) = b.points ++ written batches := List.flatMap_cons
    rw [hstep, ih fun b' hb' ↦ hsled b' (List.mem_cons_of_mem _ hb'),
      Cluster.upsertPoints_clean hc halone hs₀ (hsled b (by simp)), getElem?_putAll_node, hwritten,
      lastWritten_append]
    cases lastWritten c.shardOf (written batches) s k <;> rfl

/-- A collection that was just made and then written to, as the map. -/
theorem init_runUpserts_holds [X.PointsRoundTrip] {cl : Cluster X} {peer : PeerId}
    {name : CollectionName} (config : CollectionConfig) (path : Path)
    (order : IterOrder (Σ _ : ShardId, ReplicaSet))
    {batches : List (ClientUpsert V)} (hsled : ∀ b ∈ batches, ∀ s, b.env.sled s = .clean)
    {c : Collection X} (hc : c = .init name config path order) {s : ShardId} {p : Point V} :
    (cl.runUpserts peer name c batches .empty).Holds X ⟨peer, name, s⟩ p ↔
      lastWritten c.shardOf (written batches) s (Segment.keyOf p) = some p := by
  subst hc
  have h0 : (0 : ShardId) ∈
      (Collection.init (X := X) name config path order).replicaHolder.shards :=
    Collection.mem_init.mpr (Or.inl rfl)
  rw [Stores.Holds, runUpserts_holds (Collection.init_wellFormed name config path order)
    (Collection.init_alone name config path order) h0 hsled]
  have hempty : (Stores.empty ⟨peer, name, s⟩ 0)[Segment.keyOf p]? = none :=
    Std.ExtTreeMap.getElem?_empty
  rw [hempty, Option.or_none, Option.map_eq_some_iff]
  constructor
  · rintro ⟨q, hq, hqp⟩
    obtain rfl := X.encode_injective hqp
    exact hq
  · exact fun h ↦ ⟨p, h, rfl⟩

/-- **A collection refines one last-writer-wins map**, if points are read as they were written.
After any sequence of upserts in which sled answers, a read by id returns for every id asked for, up
to order, the last point written to its shard under its text, and the list returns the last point of
every shard and text, in the order of their ids.  No hash map has a say in it: the shard of an id is
the same for every order. -/
theorem collection_refines_lastWritten [X.PointsRoundTrip] (cl : Cluster X) (peer : PeerId)
    (name : CollectionName) (config : CollectionConfig) (path : Path)
    (order : IterOrder (Σ _ : ShardId, ReplicaSet))
    (batches : List (ClientUpsert V)) (hsled : ∀ b ∈ batches, ∀ s, b.env.sled s = .clean)
    (env : ClusterReadEnv) (hread : ∀ s, env.sled s = .clean) :
    let c : Collection X := .init name config path order
    let shardOf := (Collection.init (X := X) name config path .insertion).shardOf
    let w := cl.runUpserts peer name c batches .empty
    (∀ ids localOnly, ∃ ps,
      cl.getPoints peer name c env (some ids) none localOnly w = some (.ok ps) ∧
      ps.Perm (ids.filterMap fun id ↦
        lastWritten shardOf (written batches) (shardOf id) id.intoString)) ∧
    ∃ list, cl.getPoints peer name c env none none true w = some (.ok list) ∧ IdSorted list ∧
      ∀ p, p ∈ list ↔
        lastWritten shardOf (written batches) (shardOf p.id) p.id.intoString = some p := by
  intro c shardOf w
  have hwf : c.WellFormed := Collection.init_wellFormed name config path order
  have h0 : (0 : ShardId) ∈ c.replicaHolder.shards := Collection.mem_init.mpr (Or.inl rfl)
  have hshard : c.shardOf = shardOf := Collection.init_shardOf name config path order .insertion
  have hholds : ∀ s p, w.Holds X ⟨peer, name, s⟩ p ↔
      lastWritten shardOf (written batches) s (Segment.keyOf p) = some p := by
    intro s p
    rw [init_runUpserts_holds config path order hsled rfl, ← hshard]
  have hplaced : Placed c peer name w := by
    intro s k v hv
    rw [runUpserts_holds hwf (Collection.init_alone name config path order) h0 hsled,
      Option.or_eq_some_iff] at hv
    rcases hv with hv | ⟨-, hv⟩
    · obtain ⟨p, hp, rfl⟩ := Option.map_eq_some_iff.mp hv
      obtain ⟨hs, hk⟩ := key_of_lastWritten hp
      exact ⟨p, rfl, hk, hs⟩
    · exact absurd hv (by simp [Stores.empty])
  have hreadable : w.Readable X peer name := hplaced.sound.readable
  refine ⟨fun ids localOnly ↦ ?_, firsts (c.localPoints none peer name w), ?_, firsts_sorted _,
    fun p ↦ ?_⟩
  · obtain ⟨ps, hps, hperm⟩ :=
      cl.getPoints_ids_clean hwf h0 hread ids (fun id _ ↦ hreadable _ id.intoString) localOnly
    have hread : ∀ id, w.read X peer name (c.shardOf id) id
        = lastWritten shardOf (written batches) (shardOf id) id.intoString := by
      intro id
      refine Option.ext fun p ↦ ?_
      rw [hplaced.read_eq_some_iff, hholds, hshard]
      constructor
      · rintro ⟨hk, hl⟩
        rwa [Segment.keyOf, hk] at hl
      · intro hl
        have hk := (key_of_lastWritten hl).2
        exact ⟨hk, by rwa [Segment.keyOf, hk]⟩
    simp only [hread] at hperm
    exact ⟨ps, hps, hperm⟩
  · exact Collection.getPoints_list_local_clean hwf env.order hread fun e _ ↦ hreadable e.1
  · rw [mem_firsts_of_nodup hplaced.localPoints_ids_nodup, hplaced.mem_localPoints h0, hholds,
      hshard]
    rfl

/-- Two batches to a collection of one node, with a repeated id and one text of two ids. -/
theorem collection_refines_lastWritten_two_batches : ∃ list,
    (Cluster.joined Crates.bool "c" []).getPoints 101 "c"
      (.init "c" ⟨""⟩ ["storage", "collections", "c"] .reversed) (.without []) none none true
      ((Cluster.joined Crates.bool "c" []).runUpserts 101 "c"
        (.init "c" ⟨""⟩ ["storage", "collections", "c"] .reversed)
        [⟨.without [], [⟨.id 1, true⟩, ⟨.id 2, true⟩, ⟨.id 1, false⟩], false⟩,
          ⟨.without [], [⟨.uuid "1", true⟩], true⟩] .empty) = some (.ok list) ∧ IdSorted list := by
  obtain ⟨-, list, hlist, hsorted, -⟩ := collection_refines_lastWritten
    (Cluster.joined Crates.bool "c" []) 101 "c" ⟨""⟩ ["storage", "collections", "c"] .reversed
    [⟨.without [], [⟨.id 1, true⟩, ⟨.id 2, true⟩, ⟨.id 1, false⟩], false⟩,
      ⟨.without [], [⟨.uuid "1", true⟩], true⟩]
    (fun b hb s ↦ by
      rcases List.mem_pair.mp hb with rfl | rfl <;> rfl)
    (.without []) fun _ ↦ rfl
  exact ⟨list, hlist, hsorted⟩

end Smoldb
