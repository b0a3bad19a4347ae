import Smoldb.Cluster.Visibility

/-!
# A cluster as one node

When nothing fails and upserts come one after the other, every node has what a single node would
have.  The single node is a cluster of one, so there is one statement about both,
`runClients_stores`: after a sequence of upserts the trees of every node are the last-writer-wins
map of what was upserted.  It does not mention which node an upsert was sent to, nor how many nodes
there are, so `cluster_refines_single` compares it with itself.

That nothing fails is `Clean`: sled answers, and every call leads to the peer it is for and comes
back.  `Cluster.Quiet` has this of all upserts of a sequence, together with what they may contain:
only ids that are numbers, since others stay at the node that they are sent to.

One upsert goes to every node in one of two ways, by the method of the shard of the node itself, or
by a call to a handler, and both come down to the log of the batch (`Cluster/Writes.lean`).  The
sequence is an induction from its end, as the map is that of the last write.  For the reads, when
all nodes have the same, a list at any of them returns what that node has, and a read by id asks
only that node anyway.

Payloads are written to JSON for every other node, so the trees are those of the points that were
sent only if payloads are read as they were written.
-/

set_option autoImplicit false

namespace Smoldb

open LastWrite

variable {V : Type} {X : Crates V}

/-- Nothing fails in an upsert: sled answers at every node, no request and no reply is lost, and
calls reach the peer they are meant for. -/
structure ClusterWriteEnv.Clean (env : ClusterWriteEnv) (cl : Cluster X) (peers : List PeerId) :
    Prop where
  sled : ∀ s, env.sled s = .clean
  request : ∀ s m, (env.remote s m).request = none
  handler : ∀ s m t, (env.remote s m).handler.sled t = .clean
  reply : ∀ s m, (env.remote s m).reply = none
  honest : env.Honest cl
  reaches : ∀ s shard, shard.peerId ∈ peers →
    cl.Reaches (env.remote s shard.peerId) shard shard.peerId

/-- Nothing fails in a read. -/
structure ClusterReadEnv.Clean (env : ClusterReadEnv) (cl : Cluster X) (peers : List PeerId) :
    Prop where
  sled : ∀ s, env.sled s = .clean
  request : ∀ s m, (env.remote s m).request = none
  handler : ∀ s m t, (env.remote s m).handler.sled t = .clean
  reply : ∀ s m, (env.remote s m).reply = none
  honest : env.Honest cl
  reaches : ∀ s shard, shard.peerId ∈ peers →
    cl.Reaches (env.remote s shard.peerId) shard shard.peerId

section

variable {cl : Cluster X} {name : CollectionName} {shards : List ShardId} {peers : List PeerId}

/-! ## One upsert -/

/-- Every replica of a shard takes the write. -/
theorem Cluster.Replicated.replicaUpsert_clean (h : cl.Replicated name shards peers) {m : PeerId}
    {c : Collection X} (hc : cl.Hosts m name c) (hk : c.Knows shards (peers.erase m))
    {env : ClusterWriteEnv} (henv : env.Clean cl peers) {s : ShardId} {rs : ReplicaSet}
    (hrs : c.replicaHolder.shards.lookup s = some rs) {r : Replica} (hr : r ∈ rs.replicas false)
    (points : List (Point V)) (w : Stores) :
    (cl.replicaUpsert m name env s r points w).2 = .ok () := by
  cases r with
  | localShard shard =>
    obtain rfl : shard = rs.localShard := by simpa [ReplicaSet.replicas] using hr
    rw [Cluster.replicaUpsert, Smoldb.replicaUpsert, henv.sled]
    simp only [LocalShard.upsertPoints_clean X (hc.wellFormed.segment s rs hrs)]
  | remoteShard shard =>
    have hshard : shard ∈ rs.remotes := by simpa [ReplicaSet.replicas] using hr
    have hpeer : shard.peerId ∈ peers := List.mem_of_mem_erase
      ((hk.remotes s rs hrs).mem_iff.mp (List.mem_map.mpr ⟨shard, hshard, rfl⟩))
    obtain ⟨c', hc', hk'⟩ := h.hosts _ hpeer
    obtain ⟨s₀, hs₀⟩ := hk'.exists_mem h.nonempty
    have hcoll : cl.collection shard.peerId shard.collection = some c' := by
      rw [(hc.wellFormed.remote s rs hrs shard hshard).2, hc.id]
      exact hc'.collection
    exact congrArg Prod.snd (RemoteShard.upsertPoints_clean (henv.reaches s shard hpeer)
      (henv.request s _) (henv.reply s _) (henv.handler s _) hcoll hc'.wellFormed hs₀ points w)

/-- **An upsert in which nothing fails succeeds.** -/
theorem Cluster.Replicated.clientUpsert_clean (h : cl.Replicated name shards peers)
    {u : NodeUpsert V} (hu : u.peer ∈ peers) (henv : u.env.Clean cl peers) (w : Stores) :
    (cl.clientUpsert name u w).2 = some (.ok true) := by
  obtain ⟨c, hc, hk⟩ := h.hosts u.peer hu
  obtain ⟨s₀, hs₀⟩ := hk.exists_mem h.nonempty
  refine (Cluster.clientUpsert_eq hc).2.mpr (Cluster.upsertPoints_ok hs₀ fun p _ ↦ ?_)
  obtain ⟨rs, hrs⟩ := ReplicaHolder.exists_lookup_shardOf hs₀ p.id
  have hall : ∀ r ∈ rs.replicas false, (cl.replicaUpsert u.peer name u.env (c.shardOf p.id) r
      (shardPoints c.shardOf u.points (c.shardOf p.id)) w).2 = .ok () :=
    fun r hr ↦ h.replicaUpsert_clean hc hk henv hrs hr _ w
  refine ⟨rs, hrs, hall _ List.mem_cons_self, Or.inr ?_⟩
  rw [List.countP_eq_length.mpr fun r hr ↦ by rw [hall r hr]; rfl, ReplicaSet.replicas,
    ReplicaSet.numReplicas]
  simp

/-- All nodes acknowledge. -/
theorem Cluster.Replicated.acked_clean (h : cl.Replicated name shards peers) {u : NodeUpsert V}
    (hu : u.peer ∈ peers) (henv : u.env.Clean cl peers) (w : Stores) (id : PointId) {m : PeerId}
    (hm : m ∈ peers) : cl.Acked name u w id m := by
  by_cases hself : m = u.peer
  · exact Or.inl hself
  · obtain ⟨c, hc, hk⟩ := h.hosts u.peer hu
    obtain ⟨s₀, hs₀⟩ := hk.exists_mem h.nonempty
    obtain ⟨rs, hrs⟩ := ReplicaHolder.exists_lookup_shardOf hs₀ id
    obtain ⟨shard, hshard, hpeer⟩ := List.mem_map.mp
      ((hk.remotes _ rs hrs).mem_iff.mpr ((List.mem_erase_of_ne hself).mpr hm))
    have hr : Replica.remoteShard shard ∈ rs.replicas false :=
      List.mem_cons_of_mem _ (List.mem_map.mpr ⟨shard, hshard, rfl⟩)
    exact Or.inr ⟨c, rs, shard, hc.collection, hrs, hshard, hpeer,
      h.replicaUpsert_clean hc hk henv hrs hr _ w⟩

section Writes

variable [X.PayloadsRoundTrip]

/-- **What the trees of a node hold after an upsert in which nothing fails**: the last point of the
batch under each key, whichever node the upsert was sent to. -/
theorem Cluster.Replicated.clientUpsert_stores (h : cl.Replicated name shards peers)
    {u : NodeUpsert V} (hu : u.peer ∈ peers) (henv : u.env.Clean cl peers)
    (hnum : ∀ q ∈ u.points, q.id.isId = true) (w : Stores) {m : PeerId} (hm : m ∈ peers)
    {c : Collection X} (hc : cl.Hosts m name c) (s : ShardId) :
    (∀ k : String, ((cl.clientUpsert name u w).1 ⟨m, name, s⟩ 0)[k]?
      = ((lastWritten c.shardOf u.points s k).map X.encode).or (w ⟨m, name, s⟩ 0)[k]?) ∧
    ∀ g, g ≠ 0 → (cl.clientUpsert name u w).1 ⟨m, name, s⟩ g = w ⟨m, name, s⟩ g := by
  have honly := h.onlyWrites hu w
  constructor
  · intro k
    cases hl : lastWritten c.shardOf u.points s k with
    | some p =>
      obtain ⟨rfl, rfl⟩ := key_of_lastWritten hl
      exact h.acked_holds hu henv.honest hnum (h.clientUpsert_clean hu henv w)
        (last_of_lastWritten hl) hc (h.acked_clean hu henv w p.id hm)
    | none =>
      rcases honly ⟨m, name, s⟩ 0 k with hsame | ⟨-, q, hstorable, hk, -⟩
      · rw [hsame]
        rfl
      · obtain ⟨c', hc', hs⟩ := hstorable.home
        obtain rfl : c' = c := Option.some.inj (hc'.symm.trans hc.collection)
        have hkey : (c'.shardOf q.id, q.id.intoString) = (s, k) := Prod.ext hs hk
        exact absurd hkey (last_eq_none_iff.mp hl q (mem_of_last hstorable.last))
  · intro g hg
    refine Std.ExtTreeMap.ext_getElem? fun k ↦ ?_
    rcases honly ⟨m, name, s⟩ g k with hsame | ⟨h0, -⟩
    · exact hsame
    · exact absurd h0 hg

/-! ## A sequence of upserts -/

/-- **After a sequence of upserts the trees of every node are the last-writer-wins map.** -/
theorem Cluster.Replicated.runClients_stores (h : cl.Replicated name shards peers)
    {ups : List (NodeUpsert V)} (hups : ∀ u ∈ ups, u.peer ∈ peers)
    (henv : ∀ u ∈ ups, u.env.Clean cl peers)
    (hnum : ∀ u ∈ ups, ∀ q ∈ u.points, q.id.isId = true) (w : Stores) {m : PeerId} (hm : m ∈ peers)
    {c : Collection X} (hc : cl.Hosts m name c) (s : ShardId) :
    (∀ k : String, ((cl.runClients name ups w) ⟨m, name, s⟩ 0)[k]?
      = ((lastWritten c.shardOf (ups.flatMap NodeUpsert.points) s k).map X.encode).or
          (w ⟨m, name, s⟩ 0)[k]?) ∧
    ∀ g, g ≠ 0 → cl.runClients name ups w ⟨m, name, s⟩ g = w ⟨m, name, s⟩ g := by
  induction ups generalizing w with
  | nil => exact ⟨fun k ↦ rfl, fun g _ ↦ rfl⟩
  | cons u us ih =>
    obtain ⟨hkeys, hrest⟩ := ih (fun v hv ↦ hups v (List.mem_cons_of_mem _ hv))
      (fun v hv ↦ henv v (List.mem_cons_of_mem _ hv))
      (fun v hv ↦ hnum v (List.mem_cons_of_mem _ hv)) (cl.clientUpsert name u w).1
    obtain ⟨hkeys₁, hrest₁⟩ := h.clientUpsert_stores (hups u List.mem_cons_self)
      (henv u List.mem_cons_self) (hnum u List.mem_cons_self) w hm hc s
    constructor
    · intro k
      rw [Cluster.runClients_cons, hkeys, hkeys₁, List.flatMap_cons, lastWritten_append]
      cases lastWritten c.shardOf (us.flatMap NodeUpsert.points) s k <;> rfl
    · intro g hg
      rw [Cluster.runClients_cons, hrest g hg, hrest₁ g hg]

/-- In an empty cluster, all of every tree. -/
theorem Cluster.Replicated.runClients_fresh (h : cl.Replicated name shards peers)
    {ups : List (NodeUpsert V)} (hups : ∀ u ∈ ups, u.peer ∈ peers)
    (henv : ∀ u ∈ ups, u.env.Clean cl peers)
    (hnum : ∀ u ∈ ups, ∀ q ∈ u.points, q.id.isId = true) {w : Stores} {m : PeerId} (hm : m ∈ peers)
    (hw : w.Fresh m name) {c : Collection X} (hc : cl.Hosts m name c) (s : ShardId) :
    (∀ k : String, ((cl.runClients name ups w) ⟨m, name, s⟩ 0)[k]?
      = (lastWritten c.shardOf (ups.flatMap NodeUpsert.points) s k).map X.encode) ∧
    ∀ g, g ≠ 0 → cl.runClients name ups w ⟨m, name, s⟩ g = ∅ := by
  obtain ⟨hkeys, hrest⟩ := h.runClients_stores hups henv hnum w hm hc s
  refine ⟨fun k ↦ ?_, fun g hg ↦ by rw [hrest g hg, hw s g]⟩
  rw [hkeys, hw s 0, Std.ExtTreeMap.getElem?_empty, Option.or_none]

end Writes

/-! ## Reads -/

variable [X.PointsRoundTrip]

/-- A read by id in which nothing fails succeeds. -/
theorem Cluster.Replicated.clientRead_ids (h : cl.Replicated name shards peers) {m : PeerId}
    (hm : m ∈ peers) {c : Collection X} (hc : cl.Hosts m name c) {env : ClusterReadEnv}
    (henv : env.Clean cl peers) {w : Stores} (hw : cl.AllPlaced name peers w) (ids : List PointId) :
    ∃ ps, cl.clientRead name m env (some ids) w = some (.ok ps) ∧
      ps.Perm (ids.filterMap fun id ↦ w.read X m name (c.shardOf id) id) := by
  obtain ⟨c', hc', hk⟩ := h.hosts m hm
  obtain rfl : c' = c := Option.some.inj (hc'.collection.symm.trans hc.collection)
  obtain ⟨s₀, hs₀⟩ := hk.exists_mem h.nonempty
  obtain ⟨ps, hps, hperm⟩ := cl.getPoints_ids_clean hc.wellFormed hs₀ henv.sled _
    (fun id _ ↦ (hw m hm c' hc.collection).sound.readable (c'.shardOf id) id.intoString) false
  exact ⟨ps, (Cluster.clientRead_eq_ok hc).mpr hps, hperm⟩

/-- A list in which nothing fails succeeds. -/
theorem Cluster.Replicated.clientRead_list (h : cl.Replicated name shards peers) {m : PeerId}
    (hm : m ∈ peers) {c : Collection X} (hc : cl.Hosts m name c) {env : ClusterReadEnv}
    (henv : env.Clean cl peers) {w : Stores} (hw : cl.AllPlaced name peers w) :
    ∃ ps, cl.getPoints m name c env none none false w = some (.ok ps) ∧ IdSorted ps := by
  obtain ⟨c', hc', hk⟩ := h.hosts m hm
  obtain rfl : c' = c := Option.some.inj (hc'.collection.symm.trans hc.collection)
  refine ⟨_, Collection.getPoints_none.mpr ⟨fun e he r hr ↦ ?_, rfl⟩, firsts_sorted _⟩
  rw [Collection.selected_none] at he
  have hlookup : c'.replicaHolder.shards.lookup e.1 = some e.2 := AList.mem_lookup_iff.mpr he
  have hanswer : ∃ ps : List (Point V), cl.replicaGet m name env w e.1 r none = some (.ok ps) := by
    cases r with
    | localShard shard =>
      obtain rfl : shard = e.2.localShard := by simpa [ReplicaSet.replicas] using hr
      exact ⟨_, replicaGet_local_clean (hc.wellFormed.segment e.1 e.2 hlookup) (henv.sled e.1)
        ((hw m hm c' hc.collection).sound.readable e.1)⟩
    | remoteShard shard =>
      have hshard : shard ∈ e.2.remotes := by simpa [ReplicaSet.replicas] using hr
      have hpeer : shard.peerId ∈ peers := List.mem_of_mem_erase
        ((hk.remotes e.1 e.2 hlookup).mem_iff.mp (List.mem_map.mpr ⟨shard, hshard, rfl⟩))
      obtain ⟨c'', hc'', -⟩ := h.hosts _ hpeer
      have hname : shard.collection = name := by
        rw [(hc.wellFormed.remote e.1 e.2 hlookup shard hshard).2, hc.id]
      have hreadable : w.Readable X shard.peerId shard.collection := by
        rw [hname]
        exact (hw _ hpeer c'' hc''.collection).sound.readable
      exact ⟨_, RemoteShard.getPoints_none_clean (henv.reaches e.1 shard hpeer)
        (henv.request e.1 _) (henv.reply e.1 _) (henv.handler e.1 _)
        (by rw [hname]; exact hc''.collection) hc''.wellFormed hreadable⟩
  obtain ⟨ps, hps⟩ := hanswer
  rw [Collection.listed, hps]

/-- When all nodes have the same, a list at any of them is what that node has. -/
theorem Cluster.Replicated.mem_list_iff [X.PayloadsRoundTrip]
    (h : cl.Replicated name shards peers) {m : PeerId} (hm : m ∈ peers) {c : Collection X}
    (hc : cl.Hosts m name c) {env : ClusterReadEnv} (henv : env.Honest cl) {w : Stores} (hw : cl.AllPlaced name peers w)
    (hsame : ∀ m' ∈ peers, ∀ s, w ⟨m', name, s⟩ = w ⟨m, name, s⟩) {ps : List (Point V)}
    (hps : cl.getPoints m name c env none none false w = some (.ok ps)) {p : Point V} :
    p ∈ ps ↔ w.Holds X ⟨m, name, c.shardOf p.id⟩ p := by
  obtain ⟨c', hc', hk⟩ := h.hosts m hm
  obtain rfl : c' = c := Option.some.inj (hc'.collection.symm.trans hc.collection)
  constructor
  · intro hp
    obtain ⟨m', hm', hholds⟩ := h.list_holds hw hm hc hk henv hps hp
    rwa [Stores.Holds, hsame m' hm'] at hholds
  · exact fun hp ↦ (h.list_of_holds hw hm hc hk henv hps hp).1

end

/-! ## The refinement -/

/-- Two upserts of the same batch. -/
def SameBatches (ups ups₁ : List (NodeUpsert V)) : Prop :=
  ups.map NodeUpsert.points = ups₁.map NodeUpsert.points

theorem SameBatches.take {ups ups₁ : List (NodeUpsert V)} (h : SameBatches ups ups₁) (n : ℕ) :
    SameBatches (ups.take n) (ups₁.take n) := by
  rw [SameBatches, List.map_take, List.map_take, h]

theorem SameBatches.flatMap {ups ups₁ : List (NodeUpsert V)} (h : SameBatches ups ups₁) :
    ups.flatMap NodeUpsert.points = ups₁.flatMap NodeUpsert.points := by
  rw [List.flatMap_def, List.flatMap_def, h]

/-- A cluster in which nothing fails, with what is upserted to it. -/
structure Cluster.Quiet (cl : Cluster X) (name : CollectionName) (shards : List ShardId)
    (peers : List PeerId) (ups : List (NodeUpsert V)) : Prop where
  replicated : cl.Replicated name shards peers
  peer : ∀ u ∈ ups, u.peer ∈ peers
  clean : ∀ u ∈ ups, u.env.Clean cl peers
  numeric : ∀ u ∈ ups, ∀ q ∈ u.points, q.id.isId = true

theorem Cluster.Quiet.take {cl : Cluster X} {name : CollectionName} {shards : List ShardId}
    {peers : List PeerId} {ups : List (NodeUpsert V)} (h : cl.Quiet name shards peers ups) (n : ℕ) :
    cl.Quiet name shards peers (ups.take n) where
  replicated := h.replicated
  peer u hu := h.peer u (List.mem_of_mem_take hu)
  clean u hu := h.clean u (List.mem_of_mem_take hu)
  numeric u hu := h.numeric u (List.mem_of_mem_take hu)

/-- **Two clusters to which the same is upserted have the same trees at all nodes**, however many
nodes they have. -/
theorem Cluster.Quiet.stores_eq [X.PayloadsRoundTrip] {cl cl₁ : Cluster X}
    {name name₁ : CollectionName} {shards : List ShardId} {peers peers₁ : List PeerId} {ups ups₁ : List (NodeUpsert V)}
    (h : cl.Quiet name shards peers ups) (h₁ : cl₁.Quiet name₁ shards peers₁ ups₁)
    (hsame : SameBatches ups ups₁) {w w₁ : Stores} {m m₁ : PeerId} (hm : m ∈ peers)
    (hm₁ : m₁ ∈ peers₁) (hw : w.Fresh m name) (hw₁ : w₁.Fresh m₁ name₁) (s : ShardId) :
    cl.runClients name ups w ⟨m, name, s⟩ = cl₁.runClients name₁ ups₁ w₁ ⟨m₁, name₁, s⟩ := by
  obtain ⟨c, hc, hk⟩ := h.replicated.hosts m hm
  obtain ⟨c₁, hc₁, hk₁⟩ := h₁.replicated.hosts m₁ hm₁
  have hshard : c.shardOf = c₁.shardOf := hk.shardOf_eq hk₁
  obtain ⟨hkeys, hrest⟩ := h.replicated.runClients_fresh h.peer h.clean h.numeric hm hw hc s
  obtain ⟨hkeys₁, hrest₁⟩ :=
    h₁.replicated.runClients_fresh h₁.peer h₁.clean h₁.numeric hm₁ hw₁ hc₁ s
  funext g
  by_cases hg : g = 0
  · subst hg
    refine Std.ExtTreeMap.ext_getElem? fun k ↦ ?_
    rw [hkeys, hkeys₁, hshard, hsame.flatMap]
  · rw [hrest g hg, hrest₁ g hg]

/-- **A cluster in which nothing fails refines a single node.**  Send batches of points with numbers
for ids to any nodes, each finished before the next, and the same batches to a single node.  Every
upsert succeeds; after each of them the trees of all nodes are those of the single node; and reads
by id, up to order, and lists at all nodes are those at the single node. -/
theorem cluster_refines_single [X.PointsRoundTrip] [X.PayloadsRoundTrip] {cl cl₁ : Cluster X}
    {name name₁ : CollectionName} {shards : List ShardId} {peers : List PeerId} {single : PeerId}
    {ups ups₁ : List (NodeUpsert V)} (h : cl.Quiet name shards peers ups)
    (h₁ : cl₁.Quiet name₁ shards [single] ups₁) (hsame : SameBatches ups ups₁) {w w₁ : Stores}
    (hw : ∀ m ∈ peers, w.Fresh m name) (hw₁ : w₁.Fresh single name₁) :
    (∀ before u after, ups = before ++ u :: after →
      (cl.clientUpsert name u (cl.runClients name before w)).2 = some (.ok true)) ∧
    ∀ (n : ℕ), ∀ m ∈ peers,
      (∀ s, cl.runClients name (ups.take n) w ⟨m, name, s⟩
        = cl₁.runClients name₁ (ups₁.take n) w₁ ⟨single, name₁, s⟩) ∧
      ∀ env env₁ : ClusterReadEnv, env.Clean cl peers → env₁.Clean cl₁ [single] →
        (∀ ids, ∃ ps ps₁,
          cl.clientRead name m env (some ids) (cl.runClients name (ups.take n) w)
            = some (.ok ps) ∧
          cl₁.clientRead name₁ single env₁ (some ids) (cl₁.runClients name₁ (ups₁.take n) w₁)
            = some (.ok ps₁) ∧ ps.Perm ps₁) ∧
        ∃ ps, cl.clientRead name m env none (cl.runClients name (ups.take n) w) = some (.ok ps) ∧
          cl₁.clientRead name₁ single env₁ none (cl₁.runClients name₁ (ups₁.take n) w₁)
            = some (.ok ps) := by
  have hself : single ∈ [single] := List.mem_singleton_self single
  refine ⟨fun before u after hsplit ↦ ?_, fun n m hm ↦ ⟨fun s ↦ ?_, fun env env₁ henv henv₁ ↦ ?_⟩⟩
  · have hu : u ∈ ups := by rw [hsplit]; simp
    exact h.replicated.clientUpsert_clean (h.peer u hu) (h.clean u hu) _
  · exact (h.take n).stores_eq (h₁.take n) (hsame.take n) hm hself (hw m hm) hw₁ s
  obtain ⟨c, hc, hk⟩ := h.replicated.hosts m hm
  obtain ⟨c₁, hc₁, hk₁⟩ := h₁.replicated.hosts single hself
  have hshard : c.shardOf = c₁.shardOf := hk.shardOf_eq hk₁
  have hstores : ∀ m' ∈ peers, ∀ s, cl.runClients name (ups.take n) w ⟨m', name, s⟩
      = cl₁.runClients name₁ (ups₁.take n) w₁ ⟨single, name₁, s⟩ := fun m' hm' s ↦
    (h.take n).stores_eq (h₁.take n) (hsame.take n) hm' hself (hw m' hm') hw₁ s
  have hplaced : cl.AllPlaced name peers (cl.runClients name (ups.take n) w) := fun m' hm' c' hc' ↦
    h.replicated.runClients_placed (h.take n).peer hc' ((hw m' hm').placed c')
  have hplaced₁ : cl₁.AllPlaced name₁ [single] (cl₁.runClients name₁ (ups₁.take n) w₁) := by
    intro m' hm' c' hc'
    rw [List.mem_singleton.mp hm'] at hc' ⊢
    exact h₁.replicated.runClients_placed (h₁.take n).peer hc' (hw₁.placed c')
  constructor
  · intro ids
    obtain ⟨ps, hps, hperm⟩ := h.replicated.clientRead_ids hm hc henv hplaced ids
    obtain ⟨ps₁, hps₁, hperm₁⟩ := h₁.replicated.clientRead_ids hself hc₁ henv₁ hplaced₁ ids
    refine ⟨ps, ps₁, hps, hps₁, hperm.trans (List.Perm.trans (List.Perm.of_eq ?_) hperm₁.symm)⟩
    refine List.filterMap_congr fun id _ ↦ ?_
    rw [Stores.read, Stores.read, hstores m hm, hshard]
  · obtain ⟨ps, hps, hsorted⟩ := h.replicated.clientRead_list hm hc henv hplaced
    obtain ⟨ps₁, hps₁, hsorted₁⟩ := h₁.replicated.clientRead_list hself hc₁ henv₁ hplaced₁
    have heq : ps = ps₁ := by
      refine hsorted.eq_of_mem_iff hsorted₁ fun p ↦ ?_
      rw [h.replicated.mem_list_iff hm hc henv.honest hplaced
        (fun m' hm' s ↦ (hstores m' hm' s).trans (hstores m hm s).symm) hps,
        h₁.replicated.mem_list_iff hself hc₁ henv₁.honest hplaced₁
        (fun m' hm' s ↦ by rw [List.mem_singleton.mp hm']) hps₁, Stores.Holds, Stores.Holds,
        hstores m hm, hshard]
    exact ⟨ps, (Cluster.clientRead_eq_ok hc).mpr hps,
      by rw [heq]; exact (Cluster.clientRead_eq_ok hc₁).mpr hps₁⟩

/-- With no node down nothing fails, between nodes that are in the address table. -/
theorem ClusterWriteEnv.without_clean {name : CollectionName} {peers : List PeerId}
    (h : ∀ m ∈ peers, m ∈ [(101 : PeerId), 102, 103]) :
    (ClusterWriteEnv.without []).Clean (Cluster.joined X name peers) peers where
  sled _ := rfl
  request _ _ := rfl
  handler _ _ _ := rfl
  reply _ _ := rfl
  honest := ClusterWriteEnv.without_honest []
  reaches _ _ hpeer := (Cluster.joined_reaches_iff rfl).mpr ⟨rfl, h _ hpeer⟩

@[inherit_doc ClusterWriteEnv.without_clean]
theorem ClusterReadEnv.without_clean {name : CollectionName} {peers : List PeerId}
    (h : ∀ m ∈ peers, m ∈ [(101 : PeerId), 102, 103]) :
    (ClusterReadEnv.without []).Clean (Cluster.joined X name peers) peers where
  sled _ := rfl
  request _ _ := rfl
  handler _ _ _ := rfl
  reply _ _ := rfl
  honest := ClusterReadEnv.without_honest []
  reaches _ _ hpeer := (Cluster.joined_reaches_iff rfl).mpr ⟨rfl, h _ hpeer⟩

/-- Two batches, at one node and at another. -/
def batchesAt (m m' : PeerId) : List (NodeUpsert Bool) :=
  [⟨m, .without [], [⟨.id 1, true⟩, ⟨.id 2, true⟩]⟩, ⟨m', .without [], [⟨.id 1, false⟩]⟩]

theorem batchesAt_quiet {peers : List PeerId} {m m' : PeerId} (hnodup : peers.Nodup)
    (hpeers : ∀ m ∈ peers, m ∈ [(101 : PeerId), 102, 103]) (hm : m ∈ peers) (hm' : m' ∈ peers) :
    (Cluster.joined Crates.bool "c" peers).Quiet "c" [0, 1] peers (batchesAt m m') where
  replicated := Cluster.joined_replicated hnodup
  peer u hu := by rcases List.mem_pair.mp hu with rfl | rfl <;> assumption
  clean u hu := by
    rcases List.mem_pair.mp hu with rfl | rfl <;> exact ClusterWriteEnv.without_clean hpeers
  numeric u hu := by rcases List.mem_pair.mp hu with rfl | rfl <;> simp [PointId.isId]

/-- Three nodes and one. -/
theorem cluster_refines_single_joined : ∃ ps,
    (Cluster.joined Crates.bool "c" [101, 102, 103]).clientRead "c" 103 (.without []) none
      ((Cluster.joined Crates.bool "c" [101, 102, 103]).runClients "c"
        ((batchesAt 101 102).take 2) .empty) = some (.ok ps) ∧
    (Cluster.joined Crates.bool "c" [101]).clientRead "c" 101 (.without []) none
      ((Cluster.joined Crates.bool "c" [101]).runClients "c" ((batchesAt 101 101).take 2) .empty)
        = some (.ok ps) := by
  have hthree : (Cluster.joined Crates.bool "c" [101, 102, 103]).Quiet "c" [0, 1] [101, 102, 103]
      (batchesAt 101 102) := batchesAt_quiet (by decide) (by simp) (by decide) (by decide)
  have hone : (Cluster.joined Crates.bool "c" [101]).Quiet "c" [0, 1] [101] (batchesAt 101 101) :=
    batchesAt_quiet (by decide) (by simp) (by decide) (by decide)
  obtain ⟨-, hrun⟩ := cluster_refines_single hthree hone rfl
    (fun m _ ↦ Stores.empty_fresh m "c") (Stores.empty_fresh 101 "c")
  obtain ⟨-, hreads⟩ := hrun 2 103 (by decide)
  exact (hreads _ _ (ClusterReadEnv.without_clean (by simp))
    (ClusterReadEnv.without_clean (by simp))).2

end Smoldb
