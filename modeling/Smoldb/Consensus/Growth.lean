import Smoldb.Cluster.Outcome
import Smoldb.Consensus.Shape

/-!
# Collections that gain remote shards

When remote shards are added to the collections of a cluster, `Cluster.Grown`, every call that one
node makes to another has the outcome it had before, since the handler at the other end passes
`local_only = true` on and never looks at remote shards.  What changes is what an upsert asks for: a
collection without remote shards needs the write to go through locally, and one with remote shards
needs one of those as well.

So an upsert that succeeded before succeeds afterwards, unless the collection had no remote shards
and there is a shard for which none of the new ones takes the write (`Grown.upsertPoints_ok_iff`).

The proof goes from the outside in.  What an upsert returns is a matter of its shards, one by one
(`Cluster/Outcome.lean`), and what a shard returns is a matter of how many of its replicas succeed.
The local one does as before.  Of the remote ones there are more than before, and those that there
were do as before, so the number can only grow, and it has to reach two where it had to reach one.
In an upsert in which sled answers, a remote shard succeeds if the call gets to a node that has the
collection, with a shard for each of the points that are sent to it (`PeerAccepts`).
-/

set_option autoImplicit false

namespace Smoldb

open LastWrite

variable {V : Type} {X : Crates V}

/-! ## One collection -/

namespace Collection

/-- The collection with the remote shards of some peers added, one peer after the other. -/
def addRemotes (name : CollectionName) (peers : List PeerId) (self : Collection X) : Collection X :=
  peers.foldl (fun c p ↦ { c with replicaHolder := c.replicaHolder.addRemoteShards p name }) self

@[simp] theorem addRemotes_nil (name : CollectionName) (c : Collection X) :
    c.addRemotes name [] = c := rfl

theorem addRemotes_append (name : CollectionName) (ps qs : List PeerId) (c : Collection X) :
    c.addRemotes name (ps ++ qs) = (c.addRemotes name ps).addRemotes name qs := List.foldl_append

/-- Adding remote shards leaves the ring and the shards of the node. -/
theorem addRemotes_frame (name : CollectionName) (peers : List PeerId) (c : Collection X) :
    (c.addRemotes name peers).replicaHolder.ring = c.replicaHolder.ring ∧
      ∀ s, ((c.addRemotes name peers).replicaHolder.shards.lookup s).map ReplicaSet.localShard
        = (c.replicaHolder.shards.lookup s).map ReplicaSet.localShard := by
  induction peers generalizing c with
  | nil => exact ⟨rfl, fun s ↦ rfl⟩
  | cons p peers ih =>
    have hstep := c.replicaHolder.addRemoteShards_frame p name
    have hrest := ih { c with replicaHolder := c.replicaHolder.addRemoteShards p name }
    exact ⟨hrest.1.trans hstep.1, fun s ↦ (hrest.2 s).trans (hstep.2 s)⟩

theorem shardOf_addRemotes (name : CollectionName) (peers : List PeerId) (c : Collection X) :
    (c.addRemotes name peers).shardOf = c.shardOf := by
  funext id
  rw [shardOf, shardOf, ReplicaHolder.shardOf, ReplicaHolder.shardOf, ReplicaHolder.route,
    ReplicaHolder.route, (c.addRemotes_frame name peers).1]

/-- The remote shards a collection gains come behind those it had. -/
theorem Shaped.addRemotes {c : Collection X} {name : CollectionName} {known : List PeerId}
    (h : c.Shaped name known) (peers : List PeerId) :
    ∃ gained, (c.addRemotes name peers).Shaped name (known ++ gained) := by
  induction peers generalizing c known with
  | nil => exact ⟨[], by rwa [List.append_nil]⟩
  | cons p peers ih =>
    obtain ⟨gained, hgained⟩ := ih (h.addRemoteShards p)
    by_cases hp : p ∈ known
    · rw [if_pos hp] at hgained
      exact ⟨gained, hgained⟩
    · rw [if_neg hp, List.append_assoc] at hgained
      exact ⟨_, hgained⟩

/-- With `local_only`, the remote shards a collection has make no difference. -/
theorem upsertPoints_addRemotes_local {σ : Type} (name : CollectionName) (peers : List PeerId)
    (c : Collection X)
    (up : ShardId → Replica → List (Point V) → σ → σ × CollectionResult Unit)
    (order : IterOrder (ShardId × List PointId)) (points : List (Point V)) (w : σ) :
    (c.addRemotes name peers).upsertPoints up order points true w
      = c.upsertPoints up order points true w := by
  obtain ⟨hring, hlocal⟩ := c.addRemotes_frame name peers
  have hgroup : (c.addRemotes name peers).upsertGroup up points true
      = c.upsertGroup up points true := by
    funext group w
    have h := hlocal group.1
    rw [upsertGroup, upsertGroup]
    cases hrs : c.replicaHolder.shards.lookup group.1 with
    | none =>
      rw [hrs, Option.map_none, Option.map_eq_none_iff] at h
      rw [h]
    | some rs =>
      rw [hrs, Option.map_some, Option.map_eq_some_iff] at h
      obtain ⟨rs', hrs', hshard⟩ := h
      have hack : ∀ result, acknowledge X group.1 rs' true [result]
          = acknowledge X group.1 rs true [result] := by
        intro result
        cases result with
        | ok u => rfl
        | error e => rfl
      rw [hrs']
      simp only [ReplicaSet.executeClusterOperation, hshard, if_true, hack]
  have hselect : ∀ ids groups, (c.addRemotes name peers).replicaHolder.selectFrom ids groups
      = c.replicaHolder.selectFrom ids groups := by
    intro ids
    induction ids with
    | nil => intro groups; rfl
    | cons id ids ih =>
      intro groups
      simp only [ReplicaHolder.selectFrom, ReplicaHolder.route, hring, ih]
  rw [upsertPoints, upsertPoints, hgroup, ReplicaHolder.selectShards, hselect,
    ReplicaHolder.selectShards]

end Collection

/-! ## All collections -/

namespace Cluster

/-- The collections of a cluster after remote shards have been added at some of its nodes. -/
structure Grown (cl cl' : Cluster X) : Prop where
  node : ∀ peer, (cl'.node peer).isSome = (cl.node peer).isSome
  collection : ∀ peer, ∃ peers, ∀ name,
    cl'.collection peer name = (cl.collection peer name).map (Collection.addRemotes name peers)
  channelService : cl'.channelService = cl.channelService

variable {cl cl' : Cluster X}

/-- **Calls to other nodes** have the outcome they had before. -/
theorem Grown.remote (h : cl.Grown cl') (shard : RemoteShard) (env : CallEnv WriteEnv)
    (points : List (Point V)) (w : Stores) :
    shard.upsertPoints cl' env points w = shard.upsertPoints cl env points w := by
  have hcall : ∀ peer request, cl'.callUpsert env peer request w
      = cl.callUpsert env peer request w := by
    intro peer request
    obtain ⟨peers, hpeers⟩ := h.collection peer
    have hnode := h.node peer
    have hname := hpeers request.collectionName
    rw [callUpsert, callUpsert]
    cases env.request with
    | some status => rfl
    | none =>
      cases hn : cl.node peer with
      | none =>
        rw [hn, Option.isSome_none, Option.isSome_eq_false_iff, Option.isNone_iff_eq_none] at hnode
        rw [hnode]
      | some toc =>
        rw [hn, Option.isSome_some, Option.isSome_iff_exists] at hnode
        obtain ⟨toc', hn'⟩ := hnode
        rw [Cluster.collection, Cluster.collection, hn, hn', Option.bind_some,
          Option.bind_some] at hname
        rw [hn']
        have hhandler : PointsInternalService.upsertPoints toc' peer noRemote env.handler request w
            = PointsInternalService.upsertPoints toc peer noRemote env.handler request w := by
          rw [PointsInternalService.upsertPoints, PointsInternalService.upsertPoints]
          simp only [hname]
          cases toc.collections.lookup request.collectionName with
          | none => rfl
          | some c => simp only [Option.map_some, Collection.upsertPoints_addRemotes_local]
        simp only [hhandler]
  rw [RemoteShard.upsertPoints, RemoteShard.upsertPoints, h.channelService]
  simp only [hcall]

theorem Grown.replicaUpsert (h : cl.Grown cl') (peer : PeerId) (name : CollectionName)
    (env : ClusterWriteEnv) :
    cl'.replicaUpsert peer name env = cl.replicaUpsert peer name env := by
  funext s r points w
  cases r with
  | localShard shard => rfl
  | remoteShard shard => exact h.remote shard _ points w

end Cluster

/-! ## Who takes a write -/

/-- The collection has a shard with a segment for each of the points. -/
def Collection.Accepts (self : Collection X) (points : List (Point V)) : Prop :=
  ∀ p ∈ points, ∃ rs, self.replicaHolder.shards.lookup (self.shardOf p.id) = some rs ∧
    0 ∈ rs.localShard.segments

/-- What decides is where the ids belong, and not how the payloads are read from the message. -/
theorem Collection.accepts_resent {self : Collection X} {points : List (Point V)}
    (hnum : ∀ p ∈ points, p.id.isId = true) :
    self.Accepts (resent X points) ↔ self.Accepts points := by
  constructor
  · intro h p hp
    have hshard := h (X.resend p) (mem_resent.mpr ⟨p, hp, hnum p hp, rfl⟩)
    rwa [X.resend_id] at hshard
  · intro h p hp
    obtain ⟨q, hq, -, rfl⟩ := mem_resent.mp hp
    rw [X.resend_id]
    exact h q hq

/-- With sled answering, a write to the shards of one node succeeds if they are all there. -/
theorem Collection.upsertPoints_local_ok_iff {self : Collection X} (peer : PeerId)
    (name : CollectionName) {sled : ShardId → SledWrites} (hsled : ∀ s, sled s = .clean)
    (order : IterOrder (ShardId × List PointId)) (points : List (Point V)) (w : Stores) :
    (self.upsertPoints (replicaUpsert X peer name sled noRemote) order points true w).2
      = some (.ok ()) ↔ self.Accepts points := by
  by_cases hne : points = []
  · subst hne
    rw [upsertPoints_nil]
    exact ⟨fun _ p hp ↦ (by cases hp), fun _ ↦ rfl⟩
  obtain hkeys | ⟨_, s₀, hkeys⟩ := List.eq_nil_or_concat self.replicaHolder.shards.keys
  · obtain ⟨p, hp⟩ := List.exists_mem_of_ne_nil points hne
    rw [upsertPoints_of_no_shards hkeys order hne]
    refine ⟨fun h ↦ (by cases h), fun h ↦ ?_⟩
    obtain ⟨rs, hrs, -⟩ := h p hp
    have hmem : self.shardOf p.id ∈ self.replicaHolder.shards :=
      AList.lookup_isSome.mp (Option.isSome_iff_exists.mpr ⟨rs, hrs⟩)
    rw [AList.mem_keys, hkeys] at hmem
    cases hmem
  have hs₀ : s₀ ∈ self.replicaHolder.shards := AList.mem_keys.mpr (by simp [hkeys])
  obtain ⟨_, _, hW, -⟩ := exists_writes_noRemote (X := X) peer name sled
  have hack : ∀ s, self.Acknowledges (replicaUpsert X peer name sled noRemote) w points true s ↔
      ∃ rs, self.replicaHolder.shards.lookup s = some rs ∧ 0 ∈ rs.localShard.segments := by
    intro s
    refine exists_congr fun rs ↦ and_congr_right fun _ ↦ ?_
    rw [Acknowledged, results, ReplicaSet.replicas, if_pos rfl, List.map_singleton, replicaUpsert,
      hsled, LocalShard.upsertPoints]
    by_cases h0 : 0 ∈ rs.localShard.segments
    · simp [h0, Segment.insertPoints_clean]
    · simp [h0]
  constructor
  · intro hok p hp
    obtain ⟨visited, rest, r, horder, heq, hcase⟩ :=
      upsertPoints_spec hW.oblivious w hs₀ order points true
    rw [heq, Option.some_inj] at hok
    obtain ⟨-, rfl, hall⟩ | ⟨⟨e, he⟩, -⟩ := hcase
    · rw [List.append_nil] at horder
      refine (hack _).mp (hall _ ?_)
      rw [← horder]
      exact mem_shardOrder.mpr ⟨p, hp, rfl⟩
    · rw [hok] at he
      cases he
  · exact fun h ↦ upsertPoints_ok hW.oblivious hs₀ fun p hp ↦ (hack _).mpr (h p hp)

/-- Sled answers every call, and no message is lost. -/
structure ClusterWriteEnv.FailureFree (env : ClusterWriteEnv) : Prop where
  sled : ∀ s, env.sled s = .clean
  request : ∀ s p, (env.remote s p).request = none
  handler : ∀ s p t, (env.remote s p).handler.sled t = .clean
  reply : ∀ s p, (env.remote s p).reply = none

namespace Cluster

variable {cl cl' : Cluster X}

/-- Calls to the peer lead to a node that has the collection, and the shards for the points. -/
def PeerAccepts (cl : Cluster X) (env : ClusterWriteEnv) (name : CollectionName) (s : ShardId)
    (points : List (Point V)) (p : PeerId) : Prop :=
  ∃ q c, cl.Reaches (env.remote s p) ⟨s, name, p⟩ q ∧ cl.collection q name = some c ∧
    c.Accepts points

/-! ## The acknowledgement rule -/

/-- The remote shard of a peer takes the points of a shard. -/
def TakenBy (cl : Cluster X) (env : ClusterWriteEnv) (name : CollectionName) (s : ShardId)
    (points : List (Point V)) (w : Stores) (p : PeerId) : Prop :=
  ((⟨s, name, p⟩ : RemoteShard).upsertPoints cl (env.remote s p) points w).2 = .ok ()

/-- If nothing fails, points with numbers for ids are taken by whoever has a place for them. -/
theorem takenBy_iff {env : ClusterWriteEnv} (henv : env.FailureFree) {name : CollectionName}
    {s : ShardId} {points : List (Point V)} (hnum : ∀ p ∈ points, p.id.isId = true) (w : Stores)
    (p : PeerId) : cl.TakenBy env name s points w p ↔ cl.PeerAccepts env name s points p := by
  rw [TakenBy, PeerAccepts]
  cases haddr : RemoteShard.currentAddress ⟨s, name, p⟩ (cl.channelService ⟨s, name, p⟩) with
  | error e =>
    simp only [RemoteShard.upsertPoints, haddr]
    refine ⟨fun h ↦ (by cases h), fun haccepts ↦ ?_⟩
    obtain ⟨q, c, ⟨uri, huri, _⟩, _⟩ := haccepts
    rw [haddr] at huri
    cases huri
  | ok uri =>
    cases hconn : (env.remote s p).connect uri with
    | error e =>
      simp only [RemoteShard.upsertPoints, haddr, hconn]
      refine ⟨fun h ↦ (by cases h), fun haccepts ↦ ?_⟩
      obtain ⟨q, c, ⟨uri', huri', hq⟩, _⟩ := haccepts
      rw [haddr, Except.ok.injEq] at huri'
      subst huri'
      rw [hconn] at hq
      cases hq
    | ok q =>
      have hreach : ∀ q', cl.Reaches (env.remote s p) ⟨s, name, p⟩ q' ↔ q' = q := by
        intro q'
        rw [Reaches, haddr]
        simp only [Except.ok.injEq, exists_eq_left', hconn]
        exact eq_comm
      simp only [hreach, exists_and_left, exists_eq_left, RemoteShard.upsertPoints, haddr, hconn,
        Cluster.callUpsert, henv.request, Cluster.collection]
      cases hnode : cl.node q with
      | none => simp
      | some toc =>
        simp only [Option.bind_some, PointsInternalService.upsertPoints]
        cases hc : toc.collections.lookup name with
        | none => simp
        | some c =>
          have hiff := c.upsertPoints_local_ok_iff q name (henv.handler s p)
            (env.remote s p).handler.order (resent X points) w
          simp only [decodePoints_toGrpc, henv.reply, Option.some.injEq, exists_eq_left']
          rw [← Collection.accepts_resent hnum, ← hiff]
          cases c.upsertPoints (Smoldb.replicaUpsert X q name
              (env.remote s p).handler.sled noRemote)
            (env.remote s p).handler.order (resent X points) true w with
          | mk w' r =>
            cases r with
            | none => simp
            | some r =>
              cases r with
              | error e => simp
              | ok u => exact iff_of_true rfl rfl

/-- The write to a shard goes through if it does locally and, if there are remote shards, at one of
them. -/
theorem shardSucceeds_iff {peer : PeerId} {name : CollectionName} {c : Collection X}
    {peers : List PeerId} (hc : c.Shaped name peers) {env : ClusterWriteEnv}
    {points : List (Point V)} {w : Stores} {s : ShardId} :
    cl.ShardSucceeds peer name c env points false w s ↔
      ∃ rs, c.replicaHolder.shards.lookup s = some rs ∧
        (cl.replicaUpsert peer name env s (.localShard rs.localShard)
          (shardPoints c.shardOf points s) w).2 = .ok () ∧
        (peers = [] ∨ ∃ p ∈ peers, cl.TakenBy env name s (shardPoints c.shardOf points s) w p) := by
  refine exists_congr fun rs ↦ and_congr_right fun hrs ↦ and_congr_right fun hlocal ↦ ?_
  have hremotes := hc.remotes s rs hrs
  -- the local write counts, so one more is wanted if there are remote shards
  have hcount : (rs.replicas false).countP (fun r ↦
        (cl.replicaUpsert peer name env s r (shardPoints c.shardOf points s) w).2.isOk)
      = 1 + peers.countP fun p ↦ ((⟨s, name, p⟩ : RemoteShard).upsertPoints cl (env.remote s p)
          (shardPoints c.shardOf points s) w).2.isOk := by
    rw [ReplicaSet.replicas, if_neg Bool.false_ne_true, hremotes, List.map_map, List.countP_cons,
      hlocal, List.countP_map, Nat.add_comm]
    rfl
  have htaken : (∃ p ∈ peers, cl.TakenBy env name s (shardPoints c.shardOf points s) w p) ↔
      0 < peers.countP fun p ↦ ((⟨s, name, p⟩ : RemoteShard).upsertPoints cl (env.remote s p)
          (shardPoints c.shardOf points s) w).2.isOk := by
    rw [List.countP_pos_iff]
    refine exists_congr fun p ↦ and_congr_right fun _ ↦ ?_
    rw [TakenBy]
    cases (RemoteShard.upsertPoints ⟨s, name, p⟩ cl (env.remote s p)
      (shardPoints c.shardOf points s) w).2 with
    | ok u => exact iff_of_true rfl rfl
    | error e => exact iff_of_false (by simp) (by simp [Except.isOk, Except.toBool])
  rw [hcount, htaken, hc.numReplicas hrs, ← List.length_eq_zero_iff]
  simp only [Bool.false_eq_true, false_or]
  omega

/-- **An upsert to a collection that gained remote shards** succeeds as it did before if the
collection had remote shards already or gained none, and otherwise if the points of every shard are
taken by one of the new ones. -/
theorem Grown.upsertPoints_ok_iff (h : cl.Grown cl') {peer : PeerId} {name : CollectionName}
    {c : Collection X} {peers known gained : List PeerId} (hc : c.Shaped name known)
    (hc' : (c.addRemotes name peers).Shaped name (known ++ gained)) {env : ClusterWriteEnv}
    {points : List (Point V)} {w : Stores}
    (hok : (cl.upsertPoints peer name c env points false w).2 = some (.ok ())) :
    (cl'.upsertPoints peer name (c.addRemotes name peers) env points false w).2 = some (.ok ()) ↔
      known ≠ [] ∨ gained = [] ∨ ∀ p ∈ points, ∃ q ∈ gained,
        cl'.TakenBy env name (c.shardOf p.id) (shardPoints c.shardOf points
          (c.shardOf p.id)) w q := by
  by_cases hne : points = []
  · subst hne
    rw [upsertPoints, Collection.upsertPoints_nil]
    exact ⟨fun _ ↦ Or.inr (Or.inr fun p hp ↦ by cases hp), fun _ ↦ rfl⟩
  obtain ⟨s₀, hs₀⟩ := Collection.exists_shard_of_ok hne hok
  obtain ⟨-, hlocal⟩ := c.addRemotes_frame name peers
  have hs₀' : s₀ ∈ (c.addRemotes name peers).replicaHolder.shards := by
    rw [← AList.lookup_isSome, ← Option.isSome_map, hlocal, Option.isSome_map, AList.lookup_isSome]
    exact hs₀
  have htaken : ∀ s points p, cl'.TakenBy env name s points w p ↔
      cl.TakenBy env name s points w p := by
    intro s points p
    rw [TakenBy, TakenBy, h.remote]
  rw [Cluster.upsertPoints_ok_iff hs₀] at hok
  rw [Cluster.upsertPoints_ok_iff hs₀', Collection.shardOf_addRemotes]
  simp only [shardSucceeds_iff hc, shardSucceeds_iff hc', Collection.shardOf_addRemotes, htaken,
    h.replicaUpsert] at hok ⊢
  constructor
  · intro hall
    by_cases hknown : known = []
    · subst hknown
      by_cases hgained : gained = []
      · exact Or.inr (Or.inl hgained)
      · refine Or.inr (Or.inr fun p hp ↦ ?_)
        obtain ⟨-, -, -, hnone | hsome⟩ := hall p hp
        · exact absurd hnone hgained
        · exact hsome
    · exact Or.inl hknown
  · intro hcase p hp
    obtain ⟨rs, hrs, hwrite, hquorum⟩ := hok p hp
    obtain ⟨rs', hrs', hshard⟩ : ∃ rs', (c.addRemotes name peers).replicaHolder.shards.lookup
        (c.shardOf p.id) = some rs' ∧ rs'.localShard = rs.localShard := by
      have h := hlocal (c.shardOf p.id)
      rw [hrs, Option.map_some, Option.map_eq_some_iff] at h
      exact h
    refine ⟨rs', hrs', by rw [hshard]; exact hwrite, ?_⟩
    obtain hknown | rfl | htake := hcase
    · obtain ⟨q, hq, htake⟩ := hquorum.resolve_left hknown
      exact Or.inr ⟨q, List.mem_append_left _ hq, htake⟩
    · rwa [List.append_nil]
    · obtain ⟨q, hq, htake⟩ := htake p hp
      exact Or.inr ⟨q, List.mem_append_right _ hq, htake⟩

end Cluster

end Smoldb
