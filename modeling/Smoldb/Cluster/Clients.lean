import Smoldb.Cluster.Replication

/-!
# Clients of a cluster

A client sends an upsert or a read to a node, which does it on the collection it has under the name.
`Cluster.runClients` is a sequence of upserts, each sent to any node and finished before the next.
Each of them has an environment of its own, so calls may fail in any way in each.

Two facts carry over from one upsert to such a sequence: points stay in their places, and what is
stored under a key stays there while no batch has it.  Both come from what one upsert can write at
all, `OnlyWrites`, by induction over the sequence.

The other half of the file is about lists: which points a list at a node has when every point of
every node is in its place.  Then only the replicas of one shard can answer with a point of a given
id, so the list has for it the answer of the node itself, if there is one, and else that of the
first of the others.  So what a node has stored itself is what its lists show, and a number that is
stored at any node is in the lists of all nodes.
-/

set_option autoImplicit false

namespace Smoldb

open LastWrite

variable {V : Type} {X : Crates V}

/-! ## Upserts and reads at a node -/

/-- An upsert sent to a node. -/
structure NodeUpsert (V : Type) where
  peer : PeerId
  env : ClusterWriteEnv
  points : List (Point V)

/-- An upsert of a client, at the node it is sent to. -/
def Cluster.clientUpsert (cl : Cluster X) (name : CollectionName) (u : NodeUpsert V) (w : Stores) :
    Stores × Option (Except StorageError Bool) :=
  match cl.node u.peer with
  | none => (w, none)
  | some toc => cl.performPointsOp u.peer toc u.env name u.points w

/-- A read of a client at a node. -/
def Cluster.clientRead (cl : Cluster X) (name : CollectionName) (peer : PeerId)
    (env : ClusterReadEnv) (ids : Option (List PointId)) (w : Stores) :
    Option (Except StorageError (List (Point V))) :=
  (cl.node peer).bind fun toc ↦ cl.retrievePoints peer toc env name ids w

/-- A sequence of upserts, each finished before the next. -/
def Cluster.runClients (cl : Cluster X) (name : CollectionName) (ups : List (NodeUpsert V))
    (w : Stores) : Stores := ups.foldl (fun w u ↦ (cl.clientUpsert name u w).1) w

theorem Cluster.runClients_append (cl : Cluster X) (name : CollectionName)
    (us vs : List (NodeUpsert V)) (w : Stores) :
    cl.runClients name (us ++ vs) w = cl.runClients name vs (cl.runClients name us w) :=
  List.foldl_append

theorem Cluster.runClients_cons (cl : Cluster X) (name : CollectionName) (u : NodeUpsert V)
    (us : List (NodeUpsert V)) (w : Stores) :
    cl.runClients name (u :: us) w = cl.runClients name us (cl.clientUpsert name u w).1 := rfl

section Hosts

variable {cl : Cluster X} {name : CollectionName} {c : Collection X} {w : Stores}

/-- What an upsert of a client does is what the upsert of the collection does. -/
theorem Cluster.clientUpsert_eq {u : NodeUpsert V} (h : cl.Hosts u.peer name c) :
    (cl.clientUpsert name u w).1 = (cl.upsertPoints u.peer name c u.env u.points false w).1 ∧
      ((cl.clientUpsert name u w).2 = some (.ok true) ↔
        (cl.upsertPoints u.peer name c u.env u.points false w).2 = some (.ok ())) := by
  obtain ⟨toc, hnode, hlookup⟩ := Option.bind_eq_some_iff.mp h.collection
  have hup : cl.clientUpsert name u w = cl.performPointsOp u.peer toc u.env name u.points w := by
    rw [clientUpsert, hnode]
  rw [hup, performPointsOp, hlookup]
  simp only
  rcases cl.upsertPoints u.peer name c u.env u.points false w with ⟨w', - | ⟨- | -⟩⟩ <;> simp

/-- What a read of a client returns is what the read of the collection does. -/
theorem Cluster.clientRead_eq_ok {peer : PeerId} (h : cl.Hosts peer name c) {env : ClusterReadEnv}
    {ids : Option (List PointId)} {ps : List (Point V)} :
    cl.clientRead name peer env ids w = some (.ok ps) ↔
      cl.getPoints peer name c env ids none false w = some (.ok ps) := by
  obtain ⟨toc, hnode, hlookup⟩ := Option.bind_eq_some_iff.mp h.collection
  rw [clientRead, hnode, Option.bind_some, retrievePoints, hlookup]
  simp only
  rcases cl.getPoints peer name c env ids none false w with - | ⟨- | -⟩ <;> simp

end Hosts

/-! ## What a sequence of upserts keeps -/

section Runs

variable {cl : Cluster X} {name : CollectionName} {shards : List ShardId} {peers : List PeerId}

theorem Cluster.Replicated.onlyWrites (h : cl.Replicated name shards peers) {u : NodeUpsert V}
    (hu : u.peer ∈ peers) (w : Stores) :
    OnlyWrites cl name u.points w (cl.clientUpsert name u w).1 := by
  obtain ⟨c, hc, -⟩ := h.hosts u.peer hu
  rw [(Cluster.clientUpsert_eq hc).1]
  exact Cluster.upsertPoints_onlyWrites hc u.env u.points false w

/-- What every upsert of a sequence keeps, the sequence keeps. -/
theorem Cluster.Replicated.runClients_inv (h : cl.Replicated name shards peers) {P : Stores → Prop}
    {ups : List (NodeUpsert V)} (hups : ∀ u ∈ ups, u.peer ∈ peers)
    (hstep : ∀ u ∈ ups, ∀ w w', OnlyWrites cl name u.points w w' → P w → P w') {w : Stores}
    (hw : P w) : P (cl.runClients name ups w) := by
  induction ups generalizing w with
  | nil => exact hw
  | cons u us ih =>
    rw [Cluster.runClients_cons]
    refine ih (fun v hv ↦ hups v (List.mem_cons_of_mem _ hv))
      (fun v hv ↦ hstep v (List.mem_cons_of_mem _ hv)) ?_
    exact hstep u List.mem_cons_self _ _ (h.onlyWrites (hups u List.mem_cons_self) w) hw

theorem Cluster.Replicated.runClients_placed (h : cl.Replicated name shards peers)
    {ups : List (NodeUpsert V)} (hups : ∀ u ∈ ups, u.peer ∈ peers) {m : PeerId} {c : Collection X}
    (hc : cl.collection m name = some c) {w : Stores} (hw : Placed c m name w) :
    Placed c m name (cl.runClients name ups w) :=
  h.runClients_inv hups (P := Placed c m name) (fun _ _ _ _ honly hp ↦ honly.placed hc hp) hw

/-- A stored number stays as long as no batch contains it. -/
theorem OnlyWrites.holds [X.PayloadsRoundTrip] {points : List (Point V)} {w w' : Stores}
    (h : OnlyWrites cl name points w w') (hnum : ∀ q ∈ points, q.id.isId = true) {pl : Place}
    {p : Point V} (hid : p.id.isId = true) (habsent : ∀ q ∈ points, q.id ≠ p.id)
    (hp : w.Holds X pl p) : w'.Holds X pl p := by
  rcases h pl 0 (Segment.keyOf p) with hsame | ⟨-, q, hstorable, hkey, -⟩
  · rw [Stores.Holds, hsame]
    exact hp
  · have hq : q ∈ points := mem_of_last hstorable.last
    exact absurd (PointId.eq_of_intoString (hnum q hq) hid hkey) (habsent q hq)

/-- What is stored was stored before, or is in the batch. -/
theorem OnlyWrites.mem_of_holds [X.PointsRoundTrip] [X.PayloadsRoundTrip]
    {points : List (Point V)} {w w' : Stores} (h : OnlyWrites cl name points w w') {pl : Place}
    {p : Point V} (hp : w'.Holds X pl p) : w.Holds X pl p ∨ p ∈ points := by
  rcases h pl 0 (Segment.keyOf p) with hsame | ⟨-, q, hstorable, hkey, hq⟩
  · rw [Stores.Holds, ← hsame]
    exact Or.inl hp
  · rw [Stores.Holds, hkey, hp, Option.some_inj] at hq
    rw [X.encode_injective hq]
    exact Or.inr (mem_of_last hstorable.last)

/-- What is stored in an empty cluster after a sequence of upserts comes from one of them. -/
theorem Cluster.Replicated.mem_of_holds [X.PointsRoundTrip] [X.PayloadsRoundTrip]
    (h : cl.Replicated name shards peers)
    {ups : List (NodeUpsert V)} (hups : ∀ u ∈ ups, u.peer ∈ peers) {m : PeerId} {w : Stores}
    (hw : w.Fresh m name) {s : ShardId} {p : Point V}
    (hp : (cl.runClients name ups w).Holds X ⟨m, name, s⟩ p) : ∃ u ∈ ups, p ∈ u.points := by
  have hinv : ∀ p : Point V, (cl.runClients name ups w).Holds X ⟨m, name, s⟩ p →
      ∃ u ∈ ups, p ∈ u.points := by
    refine h.runClients_inv hups (P := fun w ↦ ∀ p : Point V, w.Holds X ⟨m, name, s⟩ p →
      ∃ u ∈ ups, p ∈ u.points) (fun u hu w w' honly ih q hq ↦ ?_) fun q hq ↦ ?_
    · rcases honly.mem_of_holds hq with hq | hq
      · exact ih q hq
      · exact ⟨u, hu, hq⟩
    · rw [Stores.Holds, hw s 0] at hq
      exact absurd hq (by simp)
  exact hinv p hp

end Runs

/-! ## Lists -/

/-- Calls lead to the peer they are meant for. -/
def ClusterReadEnv.Honest (env : ClusterReadEnv) (cl : Cluster X) : Prop :=
  ∀ s shard m, cl.Reaches (env.remote s shard.peerId) shard m → m = shard.peerId

theorem ClusterReadEnv.without_honest {name : CollectionName} {peers : List PeerId}
    (down : List PeerId) : (ClusterReadEnv.without down).Honest (Cluster.joined X name peers) :=
  fun _ _ _ h ↦ ((Cluster.joined_reaches_iff rfl).mp h).1

section Lists

variable {cl : Cluster X} {name : CollectionName} {shards : List ShardId} {peers : List PeerId}
  {m : PeerId} {c : Collection X} {env : ClusterReadEnv} {w : Stores} {ps : List (Point V)}

/-- The points of one shard of a node. -/
theorem Collection.mem_localPoints_some {s : ShardId} (hs : s ∈ c.replicaHolder.shards)
    {p : Point V} : p ∈ c.localPoints (some s) m name w ↔ p ∈ w.points X m name s := by
  rw [Collection.localPoints, List.mem_flatMap]
  constructor
  · rintro ⟨e, he, hp⟩
    have hes : e.1 = s := by simpa [Collection.selected] using (List.mem_filter.mp he).2
    rwa [hes] at hp
  · intro hp
    obtain ⟨rs, hrs⟩ := Option.isSome_iff_exists.mp (AList.lookup_isSome.mpr hs)
    refine ⟨⟨s, rs⟩, List.mem_filter.mpr ⟨AList.mem_lookup_iff.mp hrs, ?_⟩, hp⟩
    simp

/-- The answer of the node itself is what is in its trees. -/
theorem Cluster.listed_local {e : Sigma fun _ : ShardId ↦ ReplicaSet}
    (hlists : Collection.Lists (cl.replicaGet m name env w) false e) :
    Collection.listed (cl.replicaGet m name env w) e.1 (.localShard e.2.localShard)
      = w.points X m name e.1 :=
  replicaGet_local_eq_ok (hlists (.localShard e.2.localShard) List.mem_cons_self)

/-- The answer of a remote is what its node sends. -/
theorem Cluster.listed_remote (hc : cl.Hosts m name c) (henv : env.Honest cl)
    {e : Sigma fun _ : ShardId ↦ ReplicaSet} (he : c.replicaHolder.shards.lookup e.1 = some e.2)
    (hlists : Collection.Lists (cl.replicaGet m name env w) false e) {shard : RemoteShard}
    (hshard : shard ∈ e.2.remotes) :
    ∃ c', cl.collection shard.peerId name = some c' ∧
      Collection.listed (cl.replicaGet m name env w) e.1 (.remoteShard shard)
        = sent c' e.1 shard.peerId name w := by
  have hmem : Replica.remoteShard shard ∈ e.2.replicas false :=
    List.mem_cons_of_mem _ (List.mem_map.mpr ⟨shard, hshard, rfl⟩)
  obtain ⟨peer, c', hreach, hcoll, hsent⟩ := RemoteShard.getPoints_none_eq_ok (hlists _ hmem)
  obtain ⟨hid, hname⟩ := hc.wellFormed.remote e.1 e.2 he shard hshard
  obtain rfl : peer = shard.peerId := henv _ shard peer hreach
  rw [hname, hc.id] at hcoll hsent
  rw [hid] at hsent
  exact ⟨c', hcoll, hsent⟩

/-- Every point of the trees of every node is in its place. -/
def Cluster.AllPlaced (cl : Cluster X) (name : CollectionName) (peers : List PeerId) (w : Stores) :
    Prop := ∀ m ∈ peers, ∀ c, cl.collection m name = some c → Placed c m name w

variable [X.PointsRoundTrip] [X.PayloadsRoundTrip]

/-- What a list has for one shard is stored in that shard at some node. -/
theorem Cluster.Replicated.mem_listedAll (h : cl.Replicated name shards peers)
    (hw : cl.AllPlaced name peers w) (hm : m ∈ peers) (hc : cl.Hosts m name c)
    (hk : c.Knows shards (peers.erase m)) (henv : env.Honest cl)
    {e : Sigma fun _ : ShardId ↦ ReplicaSet} (he : c.replicaHolder.shards.lookup e.1 = some e.2)
    (hlists : Collection.Lists (cl.replicaGet m name env w) false e) {p : Point V}
    (hp : p ∈ Collection.listedAll (cl.replicaGet m name env w) false e) :
    c.shardOf p.id = e.1 ∧ ∃ m' ∈ peers, w.Holds X ⟨m', name, e.1⟩ p := by
  rw [Collection.listedAll, List.mem_flatMap] at hp
  obtain ⟨r, hr, hp⟩ := hp
  cases r with
  | localShard shard =>
    obtain rfl : shard = e.2.localShard := by simpa [ReplicaSet.replicas] using hr
    rw [Cluster.listed_local hlists, (hw m hm c hc.collection).mem_points] at hp
    exact ⟨(hw m hm c hc.collection).shardOf_eq hp, m, hm, hp⟩
  | remoteShard shard =>
    have hshard : shard ∈ e.2.remotes := by simpa [ReplicaSet.replicas] using hr
    obtain ⟨c', hc', hsent⟩ := Cluster.listed_remote hc henv he hlists hshard
    have hpeer : shard.peerId ∈ peers := List.mem_of_mem_erase
      ((hk.remotes e.1 e.2 he).mem_iff.mp (List.mem_map.mpr ⟨shard, hshard, rfl⟩))
    obtain ⟨c'', hc'', hk'⟩ := h.hosts shard.peerId hpeer
    obtain rfl : c' = c'' := Option.some.inj (hc'.symm.trans hc''.collection)
    have hplaced := hw _ hpeer c' hc'
    have hs : e.1 ∈ c'.replicaHolder.shards := by
      rw [hk'.shards, ← hk.shards, ← AList.lookup_isSome, he]
      rfl
    rw [hsent, sent, resent_eq, mem_numeric] at hp
    have hholds := hplaced.mem_points.mp ((Collection.mem_localPoints_some hs).mp
      (mem_of_first (mem_firsts.mp hp.1)))
    refine ⟨?_, shard.peerId, hpeer, hholds⟩
    have hshardOf : c.shardOf = c'.shardOf := hk.shardOf_eq hk'
    rw [hshardOf]
    exact hplaced.shardOf_eq hholds

/-- The entry of a shard, in a list of the entries. -/
theorem Collection.selected_none (entries : List (Sigma fun _ : ShardId ↦ ReplicaSet)) :
    Collection.selected none entries = entries := List.filter_eq_self.mpr fun _ _ ↦ rfl

/-- **A list has, for an id, the first entry of the id's shard**: of the node itself if it has one,
and otherwise of its remotes in turn. -/
theorem Cluster.Replicated.first_list (h : cl.Replicated name shards peers)
    (hw : cl.AllPlaced name peers w) (hm : m ∈ peers) (hc : cl.Hosts m name c)
    (hk : c.Knows shards (peers.erase m)) (henv : env.Honest cl)
    (hps : cl.getPoints m name c env none none false w = some (.ok ps)) (id : PointId) :
    ∃ rs, c.replicaHolder.shards.lookup (c.shardOf id) = some rs ∧
      Collection.Lists (cl.replicaGet m name env w) false ⟨c.shardOf id, rs⟩ ∧
      ∀ p : Point V, p.id = id → (p ∈ ps ↔
        first Point.id (Collection.listedAll (cl.replicaGet m name env w) false ⟨c.shardOf id, rs⟩)
          id = some p) := by
  obtain ⟨s₀, hs₀⟩ := hk.exists_mem h.nonempty
  obtain ⟨rs, hrs⟩ := ReplicaHolder.exists_lookup_shardOf hs₀ id
  obtain ⟨hlists, rfl⟩ := Collection.getPoints_none.mp hps
  rw [Collection.selected_none] at hlists ⊢
  have hentry : (⟨c.shardOf id, rs⟩ : Sigma fun _ : ShardId ↦ ReplicaSet)
      ∈ c.replicaHolder.shards.entries := AList.mem_lookup_iff.mp hrs
  refine ⟨rs, hrs, hlists _ hentry, fun p hp ↦ ?_⟩
  rw [mem_firsts, hp, first_flatMap_of_unique hentry]
  intro e he hne q hq hqid
  -- an entry with the id is in the shard of the id
  have hlookup : c.replicaHolder.shards.lookup e.1 = some e.2 := AList.mem_lookup_iff.mpr he
  obtain ⟨hshard, -⟩ := h.mem_listedAll hw hm hc hk henv hlookup (hlists e he) hq
  rw [hqid] at hshard
  refine hne (Sigma.ext hshard.symm (heq_of_eq ?_))
  rw [← hshard, show c.replicaHolder.shards.lookup (c.shardOf id) = some rs from hrs] at hlookup
  exact (Option.some.inj hlookup).symm

/-- What a list has is stored at some node. -/
theorem Cluster.Replicated.list_holds (h : cl.Replicated name shards peers)
    (hw : cl.AllPlaced name peers w) (hm : m ∈ peers) (hc : cl.Hosts m name c)
    (hk : c.Knows shards (peers.erase m)) (henv : env.Honest cl)
    (hps : cl.getPoints m name c env none none false w = some (.ok ps)) {p : Point V}
    (hp : p ∈ ps) : ∃ m' ∈ peers, w.Holds X ⟨m', name, c.shardOf p.id⟩ p := by
  obtain ⟨rs, hrs, hlists, hfirst⟩ := h.first_list hw hm hc hk henv hps p.id
  have hmem := mem_of_first ((hfirst p rfl).mp hp)
  exact (h.mem_listedAll hw hm hc hk henv hrs hlists hmem).2

/-- **What a node has stored itself is what its lists show.** -/
theorem Cluster.Replicated.list_of_holds (h : cl.Replicated name shards peers)
    (hw : cl.AllPlaced name peers w) (hm : m ∈ peers) (hc : cl.Hosts m name c)
    (hk : c.Knows shards (peers.erase m)) (henv : env.Honest cl)
    (hps : cl.getPoints m name c env none none false w = some (.ok ps)) {p : Point V}
    (hp : w.Holds X ⟨m, name, c.shardOf p.id⟩ p) : p ∈ ps ∧ ∀ q ∈ ps, q.id = p.id → q = p := by
  obtain ⟨rs, hrs, hlists, hfirst⟩ := h.first_list hw hm hc hk henv hps p.id
  have hplaced := hw m hm c hc.collection
  have hown : first Point.id (w.points X m name (c.shardOf p.id)) p.id = some p := by
    refine first_of_unique (hplaced.mem_points.mpr hp) fun q hq hid ↦ ?_
    exact List.inj_on_of_nodup_map (hplaced.points_ids_nodup _) hq (hplaced.mem_points.mpr hp) hid
  have hall : first Point.id (Collection.listedAll (cl.replicaGet m name env w) false
      ⟨c.shardOf p.id, rs⟩) p.id = some p := by
    rw [Collection.listedAll, ReplicaSet.replicas, List.flatMap_cons, first_append,
      Cluster.listed_local hlists, hown, Option.some_or]
  refine ⟨(hfirst p rfl).mpr hall, fun q hq hid ↦ ?_⟩
  exact Option.some.inj (((hfirst q hid).mp hq).symm.trans hall)

/-- **A number stored at any node is in the lists of all nodes.** -/
theorem Cluster.Replicated.list_exists (h : cl.Replicated name shards peers)
    (hw : cl.AllPlaced name peers w) (hm : m ∈ peers) (hc : cl.Hosts m name c)
    (hk : c.Knows shards (peers.erase m)) (henv : env.Honest cl)
    (hps : cl.getPoints m name c env none none false w = some (.ok ps)) {m' : PeerId}
    (hm' : m' ∈ peers) {p : Point V} (hid : p.id.isId = true)
    (hp : w.Holds X ⟨m', name, c.shardOf p.id⟩ p) : ∃ q ∈ ps, q.id = p.id := by
  by_cases hself : m' = m
  · subst hself
    exact ⟨p, (h.list_of_holds hw hm hc hk henv hps hp).1, rfl⟩
  obtain ⟨rs, hrs, hlists, hfirst⟩ := h.first_list hw hm hc hk henv hps p.id
  -- the other node is among the remotes, and what it sends has the id
  obtain ⟨shard, hshard, hpeer⟩ := List.mem_map.mp
    ((hk.remotes _ rs hrs).mem_iff.mpr ((List.mem_erase_of_ne hself).mpr hm'))
  obtain ⟨c', hc', hsent⟩ := Cluster.listed_remote hc henv hrs hlists hshard
  rw [hpeer] at hc' hsent
  obtain ⟨c'', hc'', hk'⟩ := h.hosts m' hm'
  obtain rfl : c' = c'' := Option.some.inj (hc'.symm.trans hc''.collection)
  have hs : c.shardOf p.id ∈ c'.replicaHolder.shards := by
    rw [hk'.shards, ← hk.shards, ← AList.lookup_isSome, hrs]
    rfl
  have hlocal : p ∈ c'.localPoints (some (c.shardOf p.id)) m' name w :=
    (Collection.mem_localPoints_some hs).mpr ((hw m' hm' c' hc').mem_points.mpr hp)
  obtain ⟨q, hq⟩ := exists_first_of_mem Point.id hlocal
  have hqid : q.id = p.id := key_of_first hq
  have hqsent : q ∈ sent c' (c.shardOf p.id) m' name w :=
    by
      rw [sent, resent_eq, mem_numeric]
      exact ⟨mem_firsts.mpr (by rw [hqid]; exact hq), by rw [hqid]; exact hid⟩
  have hqall : q ∈ Collection.listedAll (cl.replicaGet m name env w) false ⟨c.shardOf p.id, rs⟩ :=
    List.mem_flatMap.mpr ⟨.remoteShard shard,
      List.mem_cons_of_mem _ (List.mem_map.mpr ⟨shard, hshard, rfl⟩), by rw [hsent]; exact hqsent⟩
  obtain ⟨r, hr⟩ := exists_first_of_mem Point.id hqall
  rw [hqid] at hr
  have hrid : r.id = p.id := key_of_first hr
  exact ⟨r, (hfirst r hrid).mpr hr, hrid⟩

end Lists

/-- A read of one id returns what the node has stored under it. -/
theorem Cluster.getPoints_single [X.PointsRoundTrip] {cl : Cluster X} {m : PeerId}
    {name : CollectionName} {c : Collection X} {env : ClusterReadEnv} {w : Stores} (hw : Placed c m name w)
    {ps : List (Point V)} {p : Point V} (hp : w.Holds X ⟨m, name, c.shardOf p.id⟩ p)
    (hps : cl.getPoints m name c env (some [p.id]) none false w = some (.ok ps)) : ps = [p] := by
  have hread : w.read X m name (c.shardOf p.id) p.id = some p :=
    hw.read_eq_some_iff.mpr ⟨rfl, hp⟩
  have hperm := Cluster.getPoints_ids hps
  rw [List.filterMap_cons, hread, List.filterMap_nil] at hperm
  exact hperm.eq_singleton

end Smoldb
