import Smoldb.Cluster.Writes

/-!
# Calls to other nodes

A write to a remote shard filters the points it can send, encodes them, and sends them to whatever
node the connection leads to; the handler there decodes them and writes them to its own shards.
`RemoteShard.upsertPoints_spec` is the composite of all that: the node written to is the one that is
reached, what is written is a prefix of what that node's ring makes of the points, and if the call
succeeds it is all of it.

`resent` is what becomes of points on the way.  Those whose id is not a number are not sent, and of
the others the payload is written to JSON and read again, so what arrives has the id that was sent
and the payload that the reader makes of the text.  `decodePoints_toGrpc` says that decoding what
was encoded always succeeds and gives that.

With it, `CallLogs` describes every call an upsert makes, to the shard of the node itself and to
remote shards, and `upsertPoints_logs` every upsert.  Nothing is assumed about where a connection
leads: to another node than the one that the remote shard names, or back to the node that calls.
-/

set_option autoImplicit false

namespace Smoldb

open LastWrite

variable {V : Type} {X : Crates V}

/-! ## What is sent -/

/-- The points that are sent to other nodes. -/
def numeric (points : List (Point V)) : List (Point V) := points.filter fun p ↦ p.id.isId

theorem mem_numeric {points : List (Point V)} {p : Point V} :
    p ∈ numeric points ↔ p ∈ points ∧ p.id.isId = true := List.mem_filter

/-- The points another node makes of the points that are sent to it. -/
def resent (X : Crates V) (points : List (Point V)) : List (Point V) :=
  (numeric points).map X.resend

/-- Points are what they were at the other end, if payloads are read as they were written. -/
@[simp] theorem resent_eq [X.PayloadsRoundTrip] (points : List (Point V)) :
    resent X points = numeric points := by
  rw [resent, funext X.resend_eq, List.map_id']

theorem mem_resent {points : List (Point V)} {p : Point V} :
    p ∈ resent X points ↔ ∃ q ∈ points, q.id.isId = true ∧ X.resend q = p := by
  simp only [resent, List.mem_map, mem_numeric, and_assoc]

/-- **What is encoded can be decoded**, and is what was sent, less the points that are not, with each
payload as it is read from its text. -/
theorem decodePoints_toGrpc (points : List (Point V)) :
    decodePoints X (points.filterMap (Point.toGrpc X)) = some (resent X points) := by
  induction points with
  | nil => rfl
  | cons p ps ih =>
    obtain ⟨id, payload⟩ := p
    cases id with
    | uuid s =>
      have hnone : Point.toGrpc X ⟨.uuid s, payload⟩ = none := rfl
      rw [List.filterMap_cons_none hnone, ih]
      rfl
    | id n =>
      have hsome : Point.toGrpc X ⟨.id n, payload⟩ = some ⟨n, X.valueToString payload⟩ := rfl
      have hp : PointGrpc.toPoint X ⟨n, X.valueToString payload⟩
          = some (X.resend ⟨.id n, payload⟩) := by
        rw [PointGrpc.toPoint, X.valueFromStr_toString ⟨.id n, payload⟩, Option.some.injEq]
        exact Point.ext (X.resend_id ⟨.id n, payload⟩).symm rfl
      rw [List.filterMap_cons_some hsome, decodePoints, hp, ih]
      rfl

/-- Sending the points of a shard sends the last one of each id, if that is a number. -/
theorem mem_shardPoints_numeric {f g : PointId → ShardId} {points : List (Point V)} {s t : ShardId}
    {p : Point V} : p ∈ shardPoints g (numeric (shardPoints f points s)) t ↔
      g p.id = t ∧ p.id.isId = true ∧ p ∈ shardPoints f points s := by
  rw [mem_shardPoints]
  refine and_congr_right fun _ ↦ ⟨fun h ↦ ?_, fun ⟨hid, hp⟩ ↦ ?_⟩
  · obtain ⟨hp, hid⟩ := mem_numeric.mp (mem_of_last h)
    exact ⟨hid, hp⟩
  · have hmem : p ∈ numeric (shardPoints f points s) := mem_numeric.mpr ⟨hp, hid⟩
    obtain ⟨q, hq⟩ := exists_last_of_mem Point.id hmem
    have hqs : q ∈ shardPoints f points s := (mem_numeric.mp (mem_of_last hq)).1
    have hqp : last Point.id points p.id = some q := by
      rw [← key_of_last hq]
      exact (mem_shardPoints.mp hqs).2
    rw [hq, ← hqp]
    exact (mem_shardPoints.mp hp).2

/-- What another node makes of them is these points, resent. -/
theorem mem_shardPoints_resent {f g : PointId → ShardId} {points : List (Point V)} {s t : ShardId}
    {p : Point V} : p ∈ shardPoints g (resent X (shardPoints f points s)) t ↔
      ∃ q ∈ shardPoints f points s, g q.id = t ∧ q.id.isId = true ∧ X.resend q = p := by
  rw [resent, shardPoints_map X.resend_id, List.mem_map]
  refine exists_congr fun q ↦ ?_
  rw [mem_shardPoints_numeric]
  tauto

/-! ## A call and its log -/

/-- The calls of a remote shard lead to a node. -/
def Cluster.Reaches (cl : Cluster X) {η : Type} (env : CallEnv η) (shard : RemoteShard)
    (peer : PeerId) : Prop :=
  ∃ uri, shard.currentAddress (cl.channelService shard) = .ok uri ∧ env.connect uri = .ok peer

/-- What the node `peer` makes of points sent to its collection `name`. -/
def received (c : Collection X) (peer : PeerId) (name : CollectionName) (points : List (Point V)) :
    WriteLog V := WriteLog.node peer name (shardPoints c.shardOf (resent X points))

/-- The handler writes a prefix of the points it is sent, and all of them if it succeeds. -/
theorem PointsInternalService.upsertPoints_spec (toc : TableOfContent X) (peer : PeerId)
    (remote : ShardId → RemoteShard → List (Point V) → Stores → Stores × CollectionResult Unit)
    (env : WriteEnv) (name : CollectionName) (points : List (Point V)) :
    ∃ log r, (∀ w, PointsInternalService.upsertPoints toc peer remote env
        ⟨name, points.filterMap (Point.toGrpc X), none⟩ w = (Stores.putAll X log w, some r)) ∧
      (log = (fun _ ↦ []) ∧ (∃ status, r = .error status) ∨
        ∃ c, toc.collections.lookup name = some c ∧
          (∀ pl, log pl <+: received c peer name points pl) ∧
          (∀ response, r = .ok response → log = received c peer name points)) := by
  cases hc : toc.collections.lookup name with
  | none =>
    refine ⟨fun _ ↦ [], .error ⟨.notFound, s!"Collection '{name}' not found"⟩, fun w ↦ ?_,
      Or.inl ⟨rfl, _, rfl⟩⟩
    rw [Stores.putAll_nil]
    simp [PointsInternalService.upsertPoints, hc]
  | some c =>
    obtain ⟨log, result, heq, hpre, hok⟩ := c.upsertPoints_local_spec peer name env.sled remote
      env.order (resent X points)
    cases result with
    | ok u =>
      refine ⟨log, .ok ⟨"Upsert operation completed"⟩, fun w ↦ ?_,
        Or.inr ⟨c, rfl, hpre, fun _ _ ↦ hok rfl⟩⟩
      simp [PointsInternalService.upsertPoints, hc, decodePoints_toGrpc, heq]
    | error e =>
      refine ⟨log, .error ⟨.internal,
          s!"Failed to upsert points in collection '{name}': {X.showError e}"⟩, fun w ↦ ?_,
        Or.inr ⟨c, rfl, hpre, fun _ h ↦ nomatch h⟩⟩
      simp [PointsInternalService.upsertPoints, hc, decodePoints_toGrpc, heq]

/-- A call writes what the handler writes, and only succeeds if the handler does. -/
theorem Cluster.callUpsert_spec (cl : Cluster X) (env : CallEnv WriteEnv) (peer : PeerId)
    (name : CollectionName) (points : List (Point V)) :
    ∃ log r, (∀ w, cl.callUpsert env peer ⟨name, points.filterMap (Point.toGrpc X), none⟩ w
        = (Stores.putAll X log w, r)) ∧
      (log = (fun _ ↦ []) ∧ (∃ status, r = .error status) ∨
        ∃ c, cl.collection peer name = some c ∧
          (∀ pl, log pl <+: received c peer name points pl) ∧
          (∀ response, r = .ok response → log = received c peer name points)) := by
  cases hreq : env.request with
  | some status =>
    exact ⟨fun _ ↦ [], .error status, fun w ↦ by rw [Stores.putAll_nil]; simp [callUpsert, hreq],
      Or.inl ⟨rfl, _, rfl⟩⟩
  | none =>
    cases hnode : cl.node peer with
    | none =>
      exact ⟨fun _ ↦ [], .error env.aborted,
        fun w ↦ by rw [Stores.putAll_nil]; simp [callUpsert, hreq, hnode], Or.inl ⟨rfl, _, rfl⟩⟩
    | some toc =>
      have hcoll : cl.collection peer name = toc.collections.lookup name := by
        rw [collection, hnode, Option.bind_some]
      obtain ⟨log, r, heq, hcase⟩ := PointsInternalService.upsertPoints_spec toc peer noRemote
        env.handler name points
      rw [← hcoll] at hcase
      cases r with
      | error status =>
        refine ⟨log, .error status, fun w ↦ by simp [callUpsert, hreq, hnode, heq], ?_⟩
        rcases hcase with ⟨hlog, -⟩ | ⟨c, hc, hpre, -⟩
        · exact Or.inl ⟨hlog, _, rfl⟩
        · exact Or.inr ⟨c, hc, hpre, fun _ h ↦ nomatch h⟩
      | ok response =>
        rcases hcase with ⟨-, status, h⟩ | ⟨c, hc, hpre, hok⟩
        · exact nomatch h
        · cases hrep : env.reply with
          | some status =>
            exact ⟨log, .error status, fun w ↦ by simp [callUpsert, hreq, hnode, heq, hrep],
              Or.inr ⟨c, hc, hpre, fun _ h ↦ nomatch h⟩⟩
          | none =>
            exact ⟨log, .ok response, fun w ↦ by simp [callUpsert, hreq, hnode, heq, hrep],
              Or.inr ⟨c, hc, hpre, fun _ _ ↦ hok response rfl⟩⟩

/-- **A write to a remote shard** writes at the node that is reached, at the places that node's ring
gives the points, a prefix of the points that can be sent, and all of those if it succeeds. -/
theorem RemoteShard.upsertPoints_spec (self : RemoteShard) (cl : Cluster X) (env : CallEnv WriteEnv)
    (points : List (Point V)) :
    ∃ log r, (∀ w, self.upsertPoints cl env points w = (Stores.putAll X log w, r)) ∧
      (log = (fun _ ↦ []) ∧ (∃ e, r = .error e) ∨
        ∃ peer c, cl.Reaches env self peer ∧ cl.collection peer self.collection = some c ∧
          (∀ pl, log pl <+: received c peer self.collection points pl) ∧
          (r = .ok () → log = received c peer self.collection points)) := by
  cases haddr : self.currentAddress (cl.channelService self) with
  | error e =>
    exact ⟨fun _ ↦ [], .error e,
      fun w ↦ by rw [Stores.putAll_nil]; simp [RemoteShard.upsertPoints, haddr],
        Or.inl ⟨rfl, _, rfl⟩⟩
  | ok uri =>
    cases hconn : env.connect uri with
    | error e =>
      exact ⟨fun _ ↦ [], .error (.tonicTransportError e),
        fun w ↦ by rw [Stores.putAll_nil]; simp [RemoteShard.upsertPoints, haddr, hconn],
        Or.inl ⟨rfl, _, rfl⟩⟩
    | ok peer =>
      obtain ⟨log, r, heq, hcase⟩ := cl.callUpsert_spec env peer self.collection points
      cases r with
      | error status =>
        refine ⟨log, .error (.serviceError
          s!"Failed to execute operation on remote shard {self.id}: {X.showStatus status}"),
          fun w ↦ by simp [RemoteShard.upsertPoints, haddr, hconn, heq], ?_⟩
        rcases hcase with ⟨hlog, -⟩ | ⟨c, hc, hpre, -⟩
        · exact Or.inl ⟨hlog, _, rfl⟩
        · exact Or.inr ⟨peer, c, ⟨uri, haddr, hconn⟩, hc, hpre, fun h ↦ nomatch h⟩
      | ok response =>
        rcases hcase with ⟨-, status, h⟩ | ⟨c, hc, hpre, hok⟩
        · exact nomatch h
        · exact ⟨log, .ok (), fun w ↦ by simp [RemoteShard.upsertPoints, haddr, hconn, heq],
            Or.inr ⟨peer, c, ⟨uri, haddr, hconn⟩, hc, hpre, fun _ ↦ hok response rfl⟩⟩

/-- A write to a remote shard succeeds if the call goes through and sled answers at the other
end. -/
theorem RemoteShard.upsertPoints_clean {self : RemoteShard} {cl : Cluster X}
    {env : CallEnv WriteEnv}
    {peer : PeerId} {c : Collection X} (hreach : cl.Reaches env self peer)
    (hreq : env.request = none) (hrep : env.reply = none)
    (hsled : ∀ s, env.handler.sled s = .clean) (hcoll : cl.collection peer self.collection = some c)
    (hc : c.WellFormed) {s₀ : ShardId} (hs₀ : s₀ ∈ c.replicaHolder.shards)
    (points : List (Point V)) (w : Stores) :
    self.upsertPoints cl env points w
      = (Stores.putAll X (received c peer self.collection points) w, .ok ()) := by
  obtain ⟨uri, haddr, hconn⟩ := hreach
  rw [Cluster.collection, Option.bind_eq_some_iff] at hcoll
  obtain ⟨toc, hnode, hlookup⟩ := hcoll
  have hup := Collection.upsertPoints_local_clean hc hs₀ peer self.collection hsled noRemote
    env.handler.order (resent X points) w
  simp only [RemoteShard.upsertPoints, haddr, hconn, Cluster.callUpsert, hreq, hnode,
    PointsInternalService.upsertPoints, hlookup, decodePoints_toGrpc, hup, hrep]
  rfl

/-! ## All calls of an upsert -/

/-- What is known of the calls a node makes in one upsert. -/
structure CallLogs (cl : Cluster X) (peer : PeerId) (name : CollectionName) (env : ClusterWriteEnv)
    (log : ShardId → Replica → List (Point V) → WriteLog V)
    (result : ShardId → Replica → List (Point V) → CollectionResult Unit) : Prop where
  writes : Writes X (cl.replicaUpsert peer name env) log result
  local_prefix : ∀ s shard points pl,
    log s (.localShard shard) points pl <+: WriteLog.single ⟨peer, name, s⟩ points pl
  local_ok : ∀ s shard points, result s (.localShard shard) points = .ok () →
    log s (.localShard shard) points = WriteLog.single ⟨peer, name, s⟩ points
  remote : ∀ s shard points,
    log s (.remoteShard shard) points = (fun _ ↦ []) ∧
        (∃ e, result s (.remoteShard shard) points = .error e) ∨
      ∃ m c, cl.Reaches (env.remote s shard.peerId) shard m ∧
        cl.collection m shard.collection = some c ∧
        (∀ pl, log s (.remoteShard shard) points pl <+: received c m shard.collection points pl) ∧
        (result s (.remoteShard shard) points = .ok () →
          log s (.remoteShard shard) points = received c m shard.collection points)

theorem exists_callLogs (cl : Cluster X) (peer : PeerId) (name : CollectionName)
    (env : ClusterWriteEnv) : ∃ log result, CallLogs cl peer name env log result := by
  have hlocal := fun s ↦ replicaUpsert_local_spec (X := X) peer name env.sled
    (fun s shard ↦ shard.upsertPoints cl (env.remote s shard.peerId)) s
  have hremote := fun s (shard : RemoteShard) ↦
    shard.upsertPoints_spec cl (env.remote s shard.peerId)
  choose llog lres leq lpre lok using hlocal
  choose rlog rres req rcase using hremote
  exact ⟨fun s ↦ Replica.rec (llog s) (rlog s), fun s ↦ Replica.rec (lres s) (rres s),
    { writes := fun s r points w ↦ by
        cases r with
        | localShard shard => exact leq s shard points w
        | remoteShard shard => exact req s shard points w
      local_prefix := lpre
      local_ok := lok
      remote := rcase }⟩

namespace CallLogs

variable {cl : Cluster X} {peer : PeerId} {name : CollectionName} {env : ClusterWriteEnv}
  {log : ShardId → Replica → List (Point V) → WriteLog V}
  {result : ShardId → Replica → List (Point V) → CollectionResult Unit}

/-- Where a call may write: at home, or at the node that is reached. -/
theorem mem_log (h : CallLogs cl peer name env log result) {s : ShardId} {r : Replica}
    {points : List (Point V)} {pl : Place} {p : Point V} (hp : p ∈ log s r points pl) :
    (∃ shard, r = .localShard shard ∧ pl = ⟨peer, name, s⟩ ∧ p ∈ points) ∨
      ∃ shard c, r = .remoteShard shard ∧ pl.collection = shard.collection ∧
        cl.Reaches (env.remote s shard.peerId) shard pl.peer ∧
        cl.collection pl.peer pl.collection = some c ∧
        p ∈ shardPoints c.shardOf (resent X points) pl.shard := by
  cases r with
  | localShard shard =>
    obtain ⟨hpl, hmem⟩ := WriteLog.mem_single.mp ((h.local_prefix s shard points pl).subset hp)
    exact Or.inl ⟨shard, rfl, hpl, hmem⟩
  | remoteShard shard =>
    rcases h.remote s shard points with ⟨hnil, -⟩ | ⟨m, c, hreach, hc, hpre, -⟩
    · rw [hnil] at hp
      exact absurd hp (by simp)
    · obtain ⟨⟨hpeer, hcoll⟩, hmem⟩ := WriteLog.mem_node.mp ((hpre pl).subset hp)
      rw [← hpeer] at hreach
      rw [← hpeer, ← hcoll] at hc
      exact Or.inr ⟨shard, c, rfl, hcoll, hreach, hc, hmem⟩

end CallLogs

end Smoldb
