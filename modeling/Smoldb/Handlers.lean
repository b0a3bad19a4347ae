import Smoldb.Cluster.Writes
import Smoldb.Consensus

/-!
# What a peer can make a node do

A node takes three kinds of messages from its peers, points to store, ids to look up and the news of
a peer, and it reads the points that a peer answers with.  All of them are decoded before the code
sees them, but the payloads and the URI in them are texts, and these are parsed by the code and
unwrapped.

`handlers_return_iff` says for which messages that is a panic, and that a message which is turned
down has changed nothing.

* Points to store: a payload that is not JSON, if the collection is there, which is looked up first.
* Ids to look up: none, whatever is asked for.
* The news of a peer: a URI that is missing or that does not parse.
* Points from a peer: a payload that is not JSON.

`none` is a panic in the model, as elsewhere, and the same handlers with their effects are in
`Cluster.lean` and `Consensus.lean`.
-/

set_option autoImplicit false

namespace Smoldb

variable {V : Type} {X : Crates V} {U : UriCrate}

/-! ## The handlers -/

/-- `RaftService::add_peer_to_known`, with nothing else going on. -/
def RaftService.addPeerToKnown (U : UriCrate) (consensusState : Option Persistent)
    (toc : TableOfContent X) (message : AddPeerToKnownMessage) :
    (Option Persistent × TableOfContent X) × Option (Except Status AllPeers) :=
  match consensusState with
  | none => ((none, toc),
      some (.error ⟨.internal, "Consensus state is not available in RaftService"⟩))
  | some persistent =>
    match message.uri.map U.parse with
    | some (.ok uri) =>
      let persistent := persistent.addPeer message.id uri
      ((some persistent, toc.addRemoteShards message.id), some (.ok persistent.allPeers))
    | _ => ((some persistent, toc), none)

/-- The steps of a node do what the handler does. -/
theorem Server.run_addPeerToKnown (s : Server X) {message : AddPeerToKnownMessage} {uri : Uri}
    (huri : message.uri.map U.parse = some (.ok uri)) :
    let s' := s.run U [.addPeerToKnown message, .advance s.tasks.length, .advance s.tasks.length]
    RaftService.addPeerToKnown U (some s.persistent) s.toc message
        = ((some s'.persistent, s'.toc), some (.ok s'.persistent.allPeers)) ∧
      s'.tasks = s.tasks := by
  intro s'
  have hs' : s' = { s with
      persistent := s.persistent.addPeer message.id uri
      toc := s.toc.addRemoteShards message.id } := by
    simp [s', Server.run, Server.step, huri, Task.step, List.eraseIdx_append_of_length_le]
  rw [hs', RaftService.addPeerToKnown, huri]
  exact ⟨rfl, rfl⟩

/-- What a remote shard asks its peer for. -/
def RemoteShard.request (self : RemoteShard) (ids : Option (List PointId)) : GetPointsRequest :=
  let returnAll := ids.isNone
  let ids := (ids.getD []).filterMap fun
    | .id n => some n
    | .uuid _ => none
  ⟨self.collection, ids, returnAll, some self.id⟩

/-- `RemoteShard::get_points`, whatever the peer answers. -/
def RemoteShard.getPointsFrom (X : Crates V) (self : RemoteShard) (channelService : ChannelService)
    (connect : Uri → Except String PeerId)
    (answer : PeerId → GetPointsRequest → Except Status GetPointsResponse)
    (ids : Option (List PointId)) : Option (CollectionResult (List (Point V))) :=
  match self.currentAddress channelService with
  | .error e => some (.error e)
  | .ok uri =>
    match connect uri with
    | .error e => some (.error (.tonicTransportError e))
    | .ok peer =>
      match answer peer (self.request ids) with
      | .error status =>
        some (.error (.serviceError
          s!"Failed to execute operation on remote shard {self.id}: {X.showStatus status}"))
      | .ok response => (decodePoints X response.points).map .ok

/-- With a node of the cluster at the other end, this is the call of the cluster. -/
theorem RemoteShard.getPoints_eq (self : RemoteShard) (cl : Cluster X) (env : CallEnv ReadEnv)
    (ids : Option (List PointId)) (w : Stores) : self.getPoints cl env ids w
      = self.getPointsFrom X (cl.channelService self) env.connect
          (fun peer request ↦ cl.callGet env peer request w) ids := rfl

/-! ## When they panic -/

/-- The payload of a point is not JSON. -/
def PointGrpc.Garbled (X : Crates V) (self : PointGrpc) : Prop :=
  ∃ e, X.valueFromStr self.payload = .error e

theorem decodePoints_eq_none_iff {points : List PointGrpc} :
    decodePoints X points = none ↔ ∃ p ∈ points, p.Garbled X := by
  induction points with
  | nil => simp [decodePoints]
  | cons p points ih =>
    have hpoint : p.toPoint X = none ↔ p.Garbled X := by
      rw [PointGrpc.toPoint, PointGrpc.Garbled]
      cases X.valueFromStr p.payload with
      | ok v => simp
      | error e => simp
    simp only [decodePoints, List.mem_cons, exists_eq_or_imp, ← ih, ← hpoint]
    cases p.toPoint X with
    | none => simp
    | some q => simp

/-- Nothing can panic that asks the shards of the node alone. -/
theorem Collection.getPoints_local_ne_none (self : Collection X)
    {read : ShardId → Replica → Option (List PointId) → Option (CollectionResult (List (Point V)))}
    (h : ∀ s shard ids, ∃ result, read s (.localShard shard) ids = some result)
    (order : IterOrder (ShardId × List PointId)) (ids : Option (List PointId))
    (shardId : Option ShardId) : self.getPoints read order ids shardId true ≠ none := by
  cases ids with
  | none =>
    rw [getPoints]
    rcases hrun : Loop.run (listShard read shardId true) self.replicaHolder.shards.entries ∅ with
      ⟨all, _ | result⟩
    · simp
    · obtain ⟨entry, -, all, hround⟩ := Loop.exists_of_run_eq (congrArg Prod.snd hrun)
      obtain ⟨answer, hanswer⟩ := h entry.1 entry.2.localShard none
      rintro rfl
      simp only [listShard, ReplicaSet.executeClusterOperation, hanswer, if_true] at hround
      split at hround
      · simp at hround
      · split at hround
        · simp at hround
        · simp at hround
  | some ids =>
    cases shardId with
    | some shardId =>
      rw [getPoints]
      split
      · simp
      · rename_i rs hrs
        obtain ⟨answer, hanswer⟩ := h shardId rs.localShard (some ids)
        rw [hanswer]
        simp
    | none =>
      rw [getPoints]
      split
      · simp
      · rename_i groups hgroups
        rcases hrun : Loop.run (self.readGroup read) (order.arrange groups) [] with
          ⟨points, _ | result⟩
        · simp
        · obtain ⟨group, -, points, hround⟩ := Loop.exists_of_run_eq (congrArg Prod.snd hrun)
          rintro rfl
          rw [readGroup] at hround
          split at hround
          · simp at hround
          · rename_i rs hrs
            obtain ⟨answer, hanswer⟩ := h group.1 rs.localShard (some group.2)
            rw [hanswer] at hround
            cases answer with
            | error e => simp at hround
            | ok points => simp at hround

namespace PointsInternalService

variable (toc : TableOfContent X) (peer : PeerId)
  (remote : ShardId → RemoteShard → List (Point V) → Stores → Stores × CollectionResult Unit)
  (env : WriteEnv) (request : UpsertPointsRequest) (w : Stores)

/-- The handler panics over a payload, if it gets as far as looking at it. -/
theorem upsertPoints_eq_none_iff :
    (upsertPoints toc peer remote env request w).2 = none ↔
      request.collectionName ∈ toc.collections ∧ ∃ p ∈ request.points, p.Garbled X := by
  rw [← AList.lookup_isSome, ← decodePoints_eq_none_iff, upsertPoints]
  cases hc : toc.collections.lookup request.collectionName with
  | none => simp
  | some c =>
    cases hpoints : decodePoints X request.points with
    | none => simp
    | some points =>
      obtain ⟨log, result, heq, -⟩ := c.upsertPoints_local_spec peer request.collectionName env.sled
        remote env.order points
      simp only [heq]
      cases result with
      | error e => simp
      | ok u => simp

/-- A panic, or a collection that is not there, leaves the trees as they are. -/
theorem upsertPoints_unchanged {status : Status} (h :
      (upsertPoints toc peer remote env request w).2 = none ∨
      (upsertPoints toc peer remote env request w).2 = some (.error status) ∧
        status.code = .notFound) : (upsertPoints toc peer remote env request w).1 = w := by
  rw [upsertPoints] at h ⊢
  cases hc : toc.collections.lookup request.collectionName with
  | none => rfl
  | some c =>
    cases hpoints : decodePoints X request.points with
    | none => rfl
    | some points =>
      obtain ⟨log, result, heq, -⟩ := c.upsertPoints_local_spec peer request.collectionName env.sled
        remote env.order points
      simp only [hc, hpoints, heq] at h
      cases result with
      | error e =>
        obtain h | ⟨h, hcode⟩ := h
        · exact nomatch h
        · rw [← Except.error.inj (Option.some.inj h)] at hcode
          exact nomatch hcode
      | ok u =>
        obtain h | ⟨h, -⟩ := h
        · exact nomatch h
        · exact nomatch h

/-- As long as the storage works, every status leaves the trees as they are. -/
theorem upsertPoints_unchanged_of_clean (hsled : ∀ s, env.sled s = .clean)
    (hc : ∀ c, toc.collections.lookup request.collectionName = some c → c.WellFormed)
    {status : Status} (h : (upsertPoints toc peer remote env request w).2 = some (.error status)) :
    (upsertPoints toc peer remote env request w).1 = w := by
  rw [upsertPoints] at h ⊢
  cases hlookup : toc.collections.lookup request.collectionName with
  | none => rfl
  | some c =>
    cases hpoints : decodePoints X request.points with
    | none => rfl
    | some points =>
      simp only [hlookup, hpoints] at h ⊢
      obtain hkeys | ⟨_, s₀, hkeys⟩ := List.eq_nil_or_concat c.replicaHolder.shards.keys
      · by_cases hne : points = []
        · rw [hne, Collection.upsertPoints_nil]
        · rw [Collection.upsertPoints_of_no_shards hkeys _ hne]
      · have hs₀ : s₀ ∈ c.replicaHolder.shards := AList.mem_keys.mpr (by simp [hkeys])
        rw [Collection.upsertPoints_local_clean (hc c hlookup) hs₀ peer _ hsled] at h
        exact nomatch h

/-- Looking up points cannot panic. -/
theorem getPoints_ne_none (remote : ShardId → RemoteShard → Option (List PointId) →
      Option (CollectionResult (List (Point V)))) (env : ReadEnv) (request : GetPointsRequest) :
    getPoints toc peer remote env request w ≠ none := by
  rw [getPoints]
  cases toc.collections.lookup request.collectionName with
  | none => exact fun h ↦ nomatch h
  | some c =>
    have hne : c.getPoints (replicaGet X peer request.collectionName env.sled w remote) env.order
        (if request.returnAll then none else some (request.ids.map PointId.id)) request.shardId
          true ≠ none :=
      c.getPoints_local_ne_none (fun s shard ids ↦ ⟨_, rfl⟩) env.order _ request.shardId
    simp only
    split
    · rename_i hnone
      exact absurd hnone hne
    · exact fun h ↦ nomatch h
    · exact fun h ↦ nomatch h

end PointsInternalService

namespace RaftService

variable (consensusState : Option Persistent) (toc : TableOfContent X)
  (message : AddPeerToKnownMessage)

/-- The message has a URI, and it is one. -/
def Readable (U : UriCrate) (message : AddPeerToKnownMessage) : Prop :=
  ∃ text uri, message.uri = some text ∧ U.parse text = .ok uri

/-- The handler panics over a URI that is missing or is not one. -/
theorem addPeerToKnown_eq_none_iff : (addPeerToKnown U consensusState toc message).2 = none ↔
    consensusState ≠ none ∧ ¬ Readable U message := by
  cases consensusState with
  | none => simp [addPeerToKnown]
  | some persistent =>
    rw [addPeerToKnown, Readable]
    cases huri : message.uri with
    | none => simp
    | some text =>
      cases hparse : U.parse text with
      | error e => simp [hparse]
      | ok uri => simp [hparse]

/-- Unless the handler answers with the peers, nothing has changed. -/
theorem addPeerToKnown_unchanged
    (h : ∀ peers, (addPeerToKnown U consensusState toc message).2 ≠ some (.ok peers)) :
    (addPeerToKnown U consensusState toc message).1 = (consensusState, toc) := by
  cases consensusState with
  | none => rfl
  | some persistent =>
    rw [addPeerToKnown] at h ⊢
    split
    · rename_i uri huri
      simp only [huri] at h
      exact absurd rfl (h _)
    · rfl

end RaftService

namespace RemoteShard

variable (self : RemoteShard) (channelService : ChannelService)
  (connect : Uri → Except String PeerId)
  (answer : PeerId → GetPointsRequest → Except Status GetPointsResponse)
  (ids : Option (List PointId))

/-- Reading an answer panics over a payload. -/
theorem getPointsFrom_eq_none_iff :
    self.getPointsFrom X channelService connect answer ids = none ↔
      ∃ uri peer response, self.currentAddress channelService = .ok uri ∧ connect uri = .ok peer ∧
        answer peer (self.request ids) = .ok response ∧ ∃ p ∈ response.points, p.Garbled X := by
  rw [getPointsFrom]
  cases self.currentAddress channelService with
  | error e => simp
  | ok uri =>
    cases hpeer : connect uri with
    | error e => simp [hpeer]
    | ok peer =>
      cases hanswer : answer peer (self.request ids) with
      | error status => simp [hpeer, hanswer]
      | ok response => simp [hpeer, hanswer, decodePoints_eq_none_iff]

end RemoteShard

/-- **When a node survives a message of a peer.**  Storing points panics if the collection is there
and a payload is not JSON, looking points up never panics, the news of a peer panics if the URI is
missing or is not one, and reading an answer panics if a payload is not JSON.  A message that is
turned down has changed nothing. -/
theorem handlers_return_iff (U : UriCrate) (toc : TableOfContent X) (peer : PeerId) (w : Stores)
    (consensusState : Option Persistent) :
    (∀ remote env request,
      let r := PointsInternalService.upsertPoints toc peer remote env request w
      (r.2 ≠ none ↔
        (request.collectionName ∈ toc.collections → ∀ p ∈ request.points, ¬ p.Garbled X)) ∧
      ∀ status, r.2 = some (.error status) → status.code = .notFound ∨
        ((∀ s, env.sled s = .clean) ∧
          ∀ c, toc.collections.lookup request.collectionName = some c → c.WellFormed) → r.1 = w) ∧
    (∀ remote env request, PointsInternalService.getPoints toc peer remote env request w ≠ none) ∧
    (∀ message,
      let r := RaftService.addPeerToKnown U consensusState toc message
      (r.2 ≠ none ↔ consensusState = none ∨ RaftService.Readable U message) ∧
      ∀ status, r.2 = some (.error status) → r.1 = (consensusState, toc)) ∧
    ∀ (shard : RemoteShard) channelService connect answer ids,
      shard.getPointsFrom X channelService connect answer ids ≠ none ↔
        ∀ uri peer response, shard.currentAddress channelService = .ok uri →
          connect uri = .ok peer →
          answer peer (shard.request ids) = .ok response →
            ∀ p ∈ response.points, ¬ p.Garbled X := by
  refine ⟨fun remote env request ↦ ⟨?_, fun status hstatus hcause ↦ ?_⟩,
      fun remote env request ↦ ?_,
    fun message ↦ ⟨?_, fun status hstatus ↦ ?_⟩, fun shard channelService connect answer ids ↦ ?_⟩
  · rw [Ne, PointsInternalService.upsertPoints_eq_none_iff]
    simp only [not_and, not_exists]
  · obtain hcode | ⟨hsled, hc⟩ := hcause
    · exact PointsInternalService.upsertPoints_unchanged toc peer remote env request w
        (Or.inr ⟨hstatus, hcode⟩)
    · exact PointsInternalService.upsertPoints_unchanged_of_clean toc peer remote env
        request w hsled
        hc hstatus
  · exact PointsInternalService.getPoints_ne_none toc peer w remote env request
  · rw [Ne, RaftService.addPeerToKnown_eq_none_iff]
    tauto
  · refine RaftService.addPeerToKnown_unchanged consensusState toc message fun peers hpeers ↦ ?_
    rw [hstatus] at hpeers
    exact nomatch hpeers
  · rw [Ne, RemoteShard.getPointsFrom_eq_none_iff]
    simp only [not_and, not_exists]

/-! ## Messages to a node with a collection -/

/-- A node that has made a collection. -/
def Server.withCollection : Server Crates.bool :=
  (Server.first Crates.bool).run .plain [.createCollection "c" "" .insertion, .advance 0]

/-- A request to store one point. -/
def UpsertPointsRequest.ofPayload (payload : String) : UpsertPointsRequest :=
  ⟨"c", [⟨1, payload⟩], none⟩

/-- Nothing is lost, and nothing comes back. -/
def WriteEnv.plain : WriteEnv := ⟨.insertion, fun _ ↦ .clean⟩

theorem handlers_return_iff_withCollection :
    (PointsInternalService.upsertPoints Server.withCollection.toc 101 noRemote .plain
      (.ofPayload "true")
      Stores.empty).2 ≠ none := by
  refine ((handlers_return_iff .plain Server.withCollection.toc 101 Stores.empty
    (some Server.withCollection.persistent)).1 noRemote .plain (.ofPayload "true")).1.mpr ?_
  rintro - p hp ⟨e, he⟩
  rw [List.mem_singleton.mp hp] at he
  exact nomatch he

/-- A payload that is not JSON, a peer without a URI, and an answer with a payload that is not JSON.
-/
theorem not_handlers_return : Server.withCollection.Reachable .plain .plain ∧
    ¬ (∀ request, (PointsInternalService.upsertPoints Server.withCollection.toc 101 noRemote .plain
      request Stores.empty).2 ≠ none) ∧
    ¬ (∀ message, (RaftService.addPeerToKnown .plain (some Server.withCollection.persistent)
      Server.withCollection.toc message).2 ≠ none) ∧
    ¬ ∀ response, (⟨0, "c", 102⟩ : RemoteShard).getPointsFrom Crates.bool
      (⟨0, "c", 102⟩ : RemoteShard).getChannelService (fun _ ↦ .ok 102)
      (fun _ _ ↦ .ok response) none
      ≠ none := by
  refine ⟨(Server.reachable_first _ _).run _, fun h ↦ ?_, fun h ↦ ?_, fun h ↦ ?_⟩
  · exact h (.ofPayload "x") rfl
  · exact h ⟨none, none, 102⟩ rfl
  · exact h ⟨[⟨1, "x"⟩]⟩ rfl

end Smoldb
