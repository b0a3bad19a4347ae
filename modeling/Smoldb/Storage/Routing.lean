import Smoldb.Json
import Smoldb.Storage.Upsert

/-!
# Where the ids of a batch go

`select_shards` deals the ids of a batch out to the shards.  `ReplicaHolder.Deals` is what it owes
to its callers: the groups have different shards, every shard of a group is there, no group is
empty, and the ids of the groups together are the ids of the batch, each as often and in the same
order, in the group that the ring gives it.

`routing_partitions` says that it does so: for every set of shards, however the map of the shards is
iterated when the ring is filled, and whatever remote shards are added later.  The groups do not
depend on either, since the ring is one of the ids of shards, and adding a remote shard does not
change which shards there are.

Both callers look every shard up again, and have a branch for when there is none.  They always find
it, so these branches are never taken.
-/

set_option autoImplicit false

namespace Smoldb

variable {V : Type} {X : Crates V}

namespace ReplicaHolder

/-- A holder as it is after it has been made, from a map that is iterated in some order, and has
heard of some peers. -/
def made (X : Crates V) (shards : HashMap ShardId ReplicaSet)
    (order : IterOrder (Σ _ : ShardId, ReplicaSet)) (joins : List (PeerId × CollectionName)) :
    ReplicaHolder X :=
  joins.foldl (fun holder join ↦ holder.addRemoteShards join.1 join.2)
    (.new (shards.arrangedBy order))

/-- The ids of a batch are dealt out to the shards. -/
structure Deals (holder : ReplicaHolder X) (ids : List PointId)
    (groups : List (ShardId × List PointId)) : Prop where
  /-- Nothing is lost and nothing is added. -/
  perm : (groups.flatMap Prod.snd).Perm ids
  /-- Every id is with the shard the ring gives it. -/
  ring : ∀ group ∈ groups, ∀ id ∈ group.2, holder.ring.get (X.hashPoint id) = some group.1
  /-- An id that occurs more than once is in one group. -/
  apart : ∀ group ∈ groups, ∀ group' ∈ groups, ∀ id ∈ group.2, id ∈ group'.2 → group = group'
  /-- There is one group for a shard. -/
  nodup : (groups.map Prod.fst).Nodup
  /-- A group has its ids in the order of the batch. -/
  sublist : ∀ group ∈ groups, group.2.Sublist ids
  nonempty : ∀ group ∈ groups, group.2 ≠ []
  /-- There is a shard for every group. -/
  found : ∀ group ∈ groups, ∃ replicaSet, holder.getReplicaSet group.1 = .ok replicaSet

theorem mem_made {shards : HashMap ShardId ReplicaSet}
    {order : IterOrder (Σ _ : ShardId, ReplicaSet)} {joins : List (PeerId × CollectionName)}
    {s : ShardId} : s ∈ (made X shards order joins).shards ↔ s ∈ shards := by
  have hjoins : ∀ holder : ReplicaHolder X, s ∈ (joins.foldl (fun holder join ↦
      holder.addRemoteShards join.1 join.2) holder).shards ↔ s ∈ holder.shards := by
    induction joins with
    | nil => exact fun _ ↦ Iff.rfl
    | cons join joins ih => exact fun holder ↦ (ih _).trans mem_addRemoteShards
  exact (hjoins _).trans HashMap.mem_arrangedBy

/-- **Grouping deals the ids out.** -/
theorem deals_groups {self : ReplicaHolder X} {s : ShardId} (hs : s ∈ self.shards)
    (ids : List PointId) : self.Deals ids (Grouping.groups self.shardOf ids) := by
  have hgroup : ∀ group ∈ Grouping.groups self.shardOf ids,
      group.2 = ids.filter (fun id ↦ self.shardOf id = group.1) ∧ group.2 ≠ [] :=
    fun group hg ↦ Grouping.mem_groups.mp hg
  have hshard : ∀ group ∈ Grouping.groups self.shardOf ids, ∀ id ∈ group.2,
      self.shardOf id = group.1 := by
    intro group hg id hid
    rw [(hgroup group hg).1, List.mem_filter, decide_eq_true_iff] at hid
    exact hid.2
  refine ⟨Grouping.groups_flatMap_perm _ _, fun group hg id hid ↦ ?_, fun group hg group' hg' id hid
    hid' ↦ ?_, Grouping.groups_keys_nodup _ _, fun group hg ↦ ?_, fun group hg ↦
      (hgroup group hg).2,
    fun group hg ↦ ?_⟩
  · rw [← hshard group hg id hid]
    exact route_eq hs id
  · have hkey : group.1 = group'.1 := by
      rw [← hshard group hg id hid, hshard group' hg' id hid']
    refine Prod.ext hkey ?_
    rw [(hgroup group hg).1, (hgroup group' hg').1, hkey]
  · rw [(hgroup group hg).1]
    exact List.filter_sublist
  · obtain ⟨id, hid⟩ := List.exists_mem_of_ne_nil _ (hgroup group hg).2
    obtain ⟨replicaSet, hlookup⟩ := exists_lookup_shardOf hs id
    rw [hshard group hg id hid] at hlookup
    exact ⟨replicaSet, by rw [getReplicaSet, hlookup]⟩

theorem deals_nil (self : ReplicaHolder X) : self.Deals [] [] := by
  refine ⟨.refl _, ?_, ?_, List.nodup_nil, ?_, ?_, ?_⟩
  all_goals exact fun group hg ↦ absurd hg List.not_mem_nil

/-- Whatever is selected is dealt out. -/
theorem deals_of_selectShards {self : ReplicaHolder X} {ids : List PointId}
    {groups : List (ShardId × List PointId)} (h : self.selectShards ids = .ok groups) :
    self.Deals ids groups := by
  rcases List.eq_nil_or_concat self.shards.keys with hkeys | ⟨_, s, hkeys⟩
  · by_cases hids : ids = []
    · subst hids
      rw [← Except.ok.inj h]
      exact self.deals_nil
    · rw [selectShards_of_keys_nil hkeys hids] at h
      exact nomatch h
  · have hs : s ∈ self.shards := AList.mem_keys.mpr (by simp [hkeys])
    rw [selectShards_eq hs] at h
    rw [← Except.ok.inj h]
    exact deals_groups hs ids

theorem selectShards_error_iff {self : ReplicaHolder X} {ids : List PointId} :
    (∃ e, self.selectShards ids = .error e) ↔ self.shards.keys = [] ∧ ids ≠ [] := by
  rcases List.eq_nil_or_concat self.shards.keys with hkeys | ⟨_, s, hkeys⟩
  · by_cases hids : ids = []
    · subst hids
      exact iff_of_false (fun ⟨e, he⟩ ↦ nomatch he) fun h ↦ h.2 rfl
    · exact iff_of_true ⟨_, selectShards_of_keys_nil hkeys hids⟩ ⟨hkeys, hids⟩
  · have hs : s ∈ self.shards := AList.mem_keys.mpr (by simp [hkeys])
    rw [selectShards_eq hs]
    exact iff_of_false (fun ⟨e, he⟩ ↦ nomatch he) fun h ↦ by simp [hkeys] at h

theorem keys_made_eq_nil_iff {shards : HashMap ShardId ReplicaSet}
    {order : IterOrder (Σ _ : ShardId, ReplicaSet)} {joins : List (PeerId × CollectionName)} :
    (made X shards order joins).shards.keys = [] ↔ shards = ∅ := by
  have hkeys : (made X shards order joins).shards.keys = [] ↔ ∀ s, s ∉ shards := by
    rw [List.eq_nil_iff_forall_not_mem]
    exact forall_congr' fun s ↦ not_congr (AList.mem_keys.symm.trans mem_made)
  rw [hkeys]
  constructor
  · intro h
    refine AList.ext (List.eq_nil_iff_forall_not_mem.mpr fun e he ↦ h e.1 ?_)
    exact AList.mem_keys.mpr (List.mem_keys_of_mem he)
  · rintro rfl s
    exact AList.notMem_empty s

/-- **The groups do not depend on the order of the shards.** -/
theorem selectShards_made (shards : HashMap ShardId ReplicaSet)
    (order order' : IterOrder (Σ _ : ShardId, ReplicaSet))
    (joins joins' : List (PeerId × CollectionName)) (ids : List PointId) :
    (made X shards order joins).selectShards ids =
      (made X shards order' joins').selectShards ids := by
  have hroute : ∀ id, (made X shards order joins).route id
      = (made X shards order' joins').route id :=
    route_congr fun _ ↦ mem_made.trans mem_made.symm
  rw [selectShards, selectShards]
  generalize ([] : List (ShardId × List PointId)) = groups
  induction ids generalizing groups with
  | nil => rfl
  | cons id ids ih =>
    rw [selectFrom, selectFrom, hroute]
    split
    · rfl
    · exact ih _

end ReplicaHolder

namespace Collection

variable {σ : Type} {self : Collection X}
  {upsert : ShardId → Replica → List (Point V) → σ → σ × CollectionResult Unit}
  {read : ShardId → Replica → Option (List PointId) → Option (CollectionResult (List (Point V)))}
  {ids : List PointId} {localOnly : Bool} {message : String}

/-- What a shard does not acknowledge is not reported as a bad input. -/
theorem acknowledge_ne_storageError {s : ShardId} {replicaSet : ReplicaSet}
    {results : List (CollectionResult Unit)} {e : StorageError} :
    acknowledge X s replicaSet localOnly results ≠ some (some (.error (.storageError e))) := by
  intro h
  rcases results with _ | ⟨_ | _, rest⟩
  · cases h
  · cases h
  · simp only [acknowledge] at h
    split at h <;> cases h

/-- A round of an upsert only ends with a bad input if there is no such shard. -/
theorem lookup_of_upsertGroup {points : List (Point V)} {group : ShardId × List PointId} {w : σ}
    (h : (self.upsertGroup upsert points localOnly group w).2
      = some (some (.error (.storageError (.badInput message))))) :
    self.replicaHolder.shards.lookup group.1 = none := by
  rw [upsertGroup] at h
  cases hrs : self.replicaHolder.shards.lookup group.1 with
  | none => rfl
  | some replicaSet =>
    simp only [hrs] at h
    split at h
    · cases h
    · exact absurd h acknowledge_ne_storageError

/-- A round of a read ends with the error of the shard, unless there is no such shard. -/
theorem read_of_readGroup {group : ShardId × List PointId} {points : List (Point V)}
    {e : CollectionError} {replicaSet : ReplicaSet}
    (hfound : self.replicaHolder.getReplicaSet group.1 = .ok replicaSet)
    (h : (self.readGroup read group points).2 = some (some (.error e))) :
    read group.1 (.localShard replicaSet.localShard) (some group.2) = some (.error e) := by
  simp only [readGroup, hfound] at h
  split at h
  · exact nomatch h
  · rename_i hread
    rw [hread, Option.some.inj h]
  · exact nomatch h

/-- **An upsert finds all its shards.** -/
theorem upsertPoints_ne_badInput (order : IterOrder (ShardId × List PointId))
    (points : List (Point V)) (w : σ) :
    (self.upsertPoints upsert order points localOnly w).2
      ≠ some (.error (.storageError (.badInput message))) := by
  intro h
  rw [upsertPoints] at h
  cases hsel : self.replicaHolder.selectShards (points.map Point.id) with
  | error e =>
    simp only [hsel] at h
    obtain ⟨hkeys, hids⟩ := ReplicaHolder.selectShards_error_iff.mp ⟨e, hsel⟩
    rw [ReplicaHolder.selectShards_of_keys_nil hkeys hids] at hsel
    rw [← Except.error.inj hsel] at h
    cases h
  | ok groups =>
    simp only [hsel] at h
    cases hrun : Loop.run (self.upsertGroup upsert points localOnly) (order.arrange groups) w with
    | mk w' exit =>
      cases exit with
      | none =>
        simp only [hrun] at h
        cases h
      | some result =>
        simp only [hrun] at h
        obtain ⟨group, hgroup, w'', hround⟩ := Loop.exists_of_run_eq (congrArg Prod.snd hrun)
        rw [h] at hround
        have hmem : group ∈ groups := (order.perm groups).mem_iff.mp hgroup
        obtain ⟨rs, hrs⟩ := (ReplicaHolder.deals_of_selectShards hsel).found group hmem
        rw [ReplicaHolder.getReplicaSet, lookup_of_upsertGroup hround] at hrs
        cases hrs

/-- **A read by id finds all its shards**: if it fails with a bad input, that is what one of the
shards has answered. -/
theorem read_of_getPoints_badInput {order : IterOrder (ShardId × List PointId)}
    (h : self.getPoints read order (some ids) none localOnly
      = some (.error (.storageError (.badInput message)))) :
    ∃ s rs ids', self.replicaHolder.shards.lookup s = some rs ∧
      read s (.localShard rs.localShard) (some ids')
        = some (.error (.storageError (.badInput message))) := by
  simp only [getPoints] at h
  cases hsel : self.replicaHolder.selectShards ids with
  | error e =>
    simp only [hsel] at h
    obtain ⟨hkeys, hids⟩ := ReplicaHolder.selectShards_error_iff.mp ⟨e, hsel⟩
    rw [ReplicaHolder.selectShards_of_keys_nil hkeys hids] at hsel
    rw [← Except.error.inj hsel] at h
    exact nomatch h
  | ok groups =>
    simp only [hsel] at h
    cases hrun : Loop.run (self.readGroup read) (order.arrange groups) [] with
    | mk points exit =>
      cases exit with
      | none =>
        simp only [hrun] at h
        exact nomatch h
      | some result =>
        simp only [hrun] at h
        obtain ⟨group, hgroup, points', hround⟩ := Loop.exists_of_run_eq (congrArg Prod.snd hrun)
        rw [h] at hround
        have hmem : group ∈ groups := (order.perm groups).mem_iff.mp hgroup
        obtain ⟨rs, hrs⟩ := (ReplicaHolder.deals_of_selectShards hsel).found group hmem
        refine ⟨group.1, rs, group.2, ?_, read_of_readGroup hrs hround⟩
        rw [ReplicaHolder.getReplicaSet] at hrs
        split at hrs
        · rename_i hlookup
          rw [hlookup, Except.ok.inj hrs]
        · exact nomatch hrs

end Collection

/-- **Routing partitions a batch.**  Take any set of shards, whatever the order in which they are
put on the ring, and whatever remote shards are added later.  Selecting shards for a list of ids
fails exactly if there are ids and no shards; otherwise it deals the ids out to the shards, and in
the same way for every such order and all such remotes.  And no upsert and no read by id, of any
collection, fails because a shard that was selected is not there. -/
theorem routing_partitions (X : Crates V) (shards : HashMap ShardId ReplicaSet)
    (order : IterOrder (Σ _ : ShardId, ReplicaSet)) (joins : List (PeerId × CollectionName))
    (ids : List PointId) :
    ((∃ e, (ReplicaHolder.made X shards order joins).selectShards ids = .error e) ↔
      shards = ∅ ∧ ids ≠ []) ∧
    (∀ groups, (ReplicaHolder.made X shards order joins).selectShards ids = .ok groups →
      (ReplicaHolder.made X shards order joins).Deals ids groups ∧
      ∀ order' joins', (ReplicaHolder.made X shards order' joins').selectShards ids = .ok groups) ∧
    ∀ (c : Collection X) (message : String),
      (∀ (σ : Type) (upsert : ShardId → Replica → List (Point V) → σ → σ × CollectionResult Unit)
        order points localOnly w, (c.upsertPoints upsert order points localOnly w).2
          ≠ some (.error (.storageError (.badInput message)))) ∧
      ∀ read order localOnly, c.getPoints read order (some ids) none localOnly
          = some (.error (.storageError (.badInput message))) →
        ∃ s rs ids', c.replicaHolder.shards.lookup s = some rs ∧
          read s (.localShard rs.localShard) (some ids')
            = some (.error (.storageError (.badInput message))) := by
  refine ⟨ReplicaHolder.selectShards_error_iff.trans (and_congr_left' ?_), fun groups h ↦
    ⟨ReplicaHolder.deals_of_selectShards h, fun order' joins' ↦ ?_⟩, fun c message ↦
    ⟨fun σ upsert order points localOnly w ↦ Collection.upsertPoints_ne_badInput order points w,
      fun read order localOnly h ↦ Collection.read_of_getPoints_badInput h⟩⟩
  · exact ReplicaHolder.keys_made_eq_nil_iff
  · rw [← h]
    exact ReplicaHolder.selectShards_made shards order' order joins' joins ids

/-- Two shards, a peer that joins, and an id that occurs twice. -/
theorem routing_partitions_two : ∃ groups,
    (ReplicaHolder.made Crates.bool
        (Collection.init (X := Crates.bool) "c" ⟨"p"⟩ [] .insertion).replicaHolder.shards .reversed
        [(102, "c")]).selectShards [.id 1, .uuid "a", .id 1] = .ok groups ∧
      (ReplicaHolder.made Crates.bool
        (Collection.init (X := Crates.bool) "c" ⟨"p"⟩ [] .insertion).replicaHolder.shards .reversed
        [(102, "c")]).Deals [.id 1, .uuid "a", .id 1] groups :=
  ⟨_, rfl, ((routing_partitions Crates.bool _ .reversed [(102, "c")] _).2.1 _ rfl).1⟩

end Smoldb
