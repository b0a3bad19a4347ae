import Smoldb.Consensus.Growth
import Smoldb.Consensus.Membership

/-!
# What a join does to the collections

The steps of a join add remote shards to the collections of the node that is bootstrapped from, and
to those of the node that joins: `Handshakes.grown`.  Nothing else happens to the collections, so
what becomes of upserts is a case of `Cluster.Grown.upsertPoints_ok_iff`.

`IsHandshake` picks the steps of joins among all that can happen in a `Network`: messages of joins
arrive, and operations go on that know what they are about, which is to add peers and remote shards.
`Handshakes` is any stretch of such steps, of any number of joins, and each of them makes the
cluster one that has `Grown`, which is a reflexive and transitive relation.

`join_upsert_iff` is about such a stretch, from the start of a node that joins, and about any upsert
at any node that succeeded before it.  Afterwards the upsert succeeds exactly if the collection had
remote shards already, gained none, or there is for every point one of the new peers that takes the
points of its shard.  A new node begins without collections, so it takes none: at the end of the
file a second node joins the first, and an upsert that the first node took before now fails.
-/

set_option autoImplicit false

namespace Smoldb

variable {V : Type} {X : Crates V} {U : UriCrate} {J : ConfigJson}

/-- The collections of all nodes. -/
def Network.cluster (self : Network X) : Cluster X :=
  ⟨fun p ↦ (self.nodes p).map Server.toc, RemoteShard.getChannelService⟩

theorem Network.collection_cluster {net : Network X} {p : PeerId} {name : CollectionName} :
    net.cluster.collection p name = (net.nodes p).bind fun s ↦ s.toc.collections.lookup name := by
  rw [Cluster.collection, cluster, Option.bind_map]
  rfl

/-! ## Growth -/

theorem Cluster.Grown.refl (cl : Cluster X) : cl.Grown cl where
  node _ := rfl
  collection peer := ⟨[], fun name ↦ by cases cl.collection peer name <;> rfl⟩
  channelService := rfl

theorem Cluster.Grown.trans {cl₁ cl₂ cl₃ : Cluster X} (h : cl₁.Grown cl₂) (h' : cl₂.Grown cl₃) :
    cl₁.Grown cl₃ where
  node peer := (h'.node peer).trans (h.node peer)
  collection peer := by
    obtain ⟨ps, hps⟩ := h.collection peer
    obtain ⟨qs, hqs⟩ := h'.collection peer
    refine ⟨ps ++ qs, fun name ↦ ?_⟩
    rw [hqs, hps, Option.map_map]
    exact Option.map_congr fun c _ ↦ (c.addRemotes_append name ps qs).symm
  channelService := h'.channelService.trans h.channelService

/-- A step of a node that inserts and deletes no collection adds remote shards at most. -/
def Server.Action.AddsOnly (s : Server X) : Server.Action → Prop
  | createCollection _ _ _ => False
  | deleteCollection _ => False
  | addPeerToKnown _ => True
  | bootstrap _ => True
  | advance i => ∀ name c, s.tasks[i]? ≠ some (.insertCollection name c)

theorem Server.Action.AddsOnly.toc_step {s : Server X} {a : Server.Action} (ha : a.AddsOnly s) :
    ∃ peers, ∀ name, (s.step U a).toc.collections.lookup name
      = (s.toc.collections.lookup name).map (Collection.addRemotes name peers) := by
  have hkeep : ∃ peers, ∀ name, s.toc.collections.lookup name
      = (s.toc.collections.lookup name).map (Collection.addRemotes name peers) :=
    ⟨[], fun name ↦ by cases s.toc.collections.lookup name <;> rfl⟩
  cases a with
  | createCollection name params order => exact ha.elim
  | deleteCollection name => exact ha.elim
  | addPeerToKnown message => rw [Server.step]; split <;> exact hkeep
  | bootstrap answer => exact hkeep
  | advance i =>
    cases hi : s.tasks[i]? with
    | none => rw [Server.step, hi]; exact hkeep
    | some t =>
      rw [step_advance hi]
      have heffect := t.effect U s.persistent s.toc
      generalize t.step U s.persistent s.toc = r at heffect ⊢
      cases heffect with
      | inserts name c => exact absurd hi (ha name c)
      | @adds _ rest p hp hrest =>
        exact ⟨[p], fun name ↦ TableOfContent.lookup_addRemoteShards s.toc p name⟩
      | learns peers hp huri => exact hkeep
      | talks ht hrest => exact hkeep

namespace Network

variable {net net' : Network X}

/-- The step belongs to a join: a message arrives, or an operation goes on that inserts no
collection. -/
def IsHandshake (self : Network X) : Action X → Prop
  | .request _ => True
  | .answer _ => True
  | .advance peer i => ∀ s, self.nodes peer = some s → Server.Action.AddsOnly s (.advance i)
  | _ => False

/-- What becomes of a cluster by such steps. -/
inductive Handshakes (U : UriCrate) (net : Network X) : Network X → Prop
  | refl : Handshakes U net net
  | step {net' : Network X} (h : Handshakes U net net') {a : Action X} (ha : net'.IsHandshake a) :
    Handshakes U net (net'.step U a)

theorem grown_stepAt (net : Network X) (peer : PeerId) {a : Server.Action}
    (ha : ∀ s, net.nodes peer = some s → a.AddsOnly s) :
    net.cluster.Grown (net.stepAt U peer a).cluster := by
  rw [stepAt]
  cases hs : net.nodes peer with
  | none => exact .refl _
  | some s =>
    obtain ⟨peers, hpeers⟩ := (ha s hs).toc_step (U := U)
    refine ⟨fun p ↦ ?_, fun p ↦ ?_, rfl⟩
    · by_cases hp : p = peer
      · subst hp; simp [cluster, hs]
      · simp [cluster, Function.update_of_ne hp]
    · by_cases hp : p = peer
      · subst hp
        refine ⟨peers, fun name ↦ ?_⟩
        simp only [collection_cluster, hs, Function.update_self, Option.bind_some, hpeers]
      · refine ⟨[], fun name ↦ ?_⟩
        simp only [collection_cluster, Function.update_of_ne hp]
        cases (net.nodes p).bind fun s ↦ s.toc.collections.lookup name <;> rfl

theorem IsHandshake.grown {a : Action X} (ha : net.IsHandshake a) :
    net.cluster.Grown (net.step U a).cluster := by
  cases a with
  | join joiner p2pUrl toc via => exact ha.elim
  | createCollection peer name params order => exact ha.elim
  | deleteCollection peer name => exact ha.elim
  | request i =>
    rw [step]
    split
    · exact .refl _
    · split
      · exact grown_stepAt net _ fun _ _ ↦ trivial
      · exact .refl _
  | answer i =>
    rw [step]
    split
    · exact .refl _
    · split
      · exact grown_stepAt net _ fun _ _ ↦ trivial
      · exact .refl _
  | advance peer i =>
    rw [step]
    split
    · exact .refl _
    · split
      · exact grown_stepAt (net.sendAnswer peer _ _) peer ha
      · exact grown_stepAt net peer ha

theorem Handshakes.grown (h : Handshakes U net net') : net.cluster.Grown net'.cluster := by
  induction h with
  | refl => exact .refl _
  | step _ ha ih => exact ih.trans ha.grown

end Network

/-- **Upserts before and after a join.**  If an upsert succeeded before, and nothing fails, it
succeeds afterwards exactly if the collection had remote shards already, gained none, or there is
for every point one of the new peers that calls lead to and that has a place for the points of the
shard. -/
theorem join_upsert_iff {net : Network X} (h : net.Reachable U J) {joiner : PeerId}
    {p2pUrl : String} {toc : TableOfContent X} (htoc : toc.Loaded J joiner) {via : PeerId}
    {after : Network X} (hjoin : Network.Handshakes U
      (net.step U (.join joiner p2pUrl toc via)) after)
    {peer : PeerId} {name : CollectionName} {c : Collection X}
    (hc : (net.step U (.join joiner p2pUrl toc via)).cluster.collection peer name = some c)
    {env : ClusterWriteEnv} (henv : env.FailureFree) {points : List (Point V)}
    (hnum : ∀ p ∈ points, p.id.isId = true) {w : Stores}
    (hok : ((net.step U (.join joiner p2pUrl toc via)).cluster.upsertPoints peer name c env points
      false w).2 = some (.ok ())) :
    ∃ c' known gained, after.cluster.collection peer name = some c' ∧
      c.Shaped name known ∧ c'.Shaped name (known ++ gained) ∧
      ((after.cluster.upsertPoints peer name c' env points false w).2 = some (.ok ()) ↔
        known ≠ [] ∨ gained = [] ∨ ∀ p ∈ points, ∃ q ∈ gained,
          after.cluster.PeerAccepts env name (c.shardOf p.id)
            (shardPoints c.shardOf points (c.shardOf p.id)) q) := by
  have hgrown := hjoin.grown
  have hbefore := h.step (a := .join joiner p2pUrl toc via) htoc
  generalize net.step U (.join joiner p2pUrl toc via) = before at *
  obtain ⟨peers, hpeers⟩ := hgrown.collection peer
  obtain ⟨s, hs, hlookup⟩ : ∃ s, before.nodes peer = some s ∧
      s.toc.collections.lookup name = some c := by
    rwa [Network.collection_cluster, Option.bind_eq_some_iff] at hc
  obtain ⟨known, hknown, -⟩ := (hbefore.node hs).shaped.toc name c hlookup
  obtain ⟨gained, hgained⟩ := hknown.addRemotes peers
  refine ⟨c.addRemotes name peers, known, gained, ?_, hknown, hgained, ?_⟩
  · rw [hpeers, hc, Option.map_some]
  · have hshard : ∀ s, ∀ p ∈ shardPoints c.shardOf points s, p.id.isId = true :=
      fun s p hp ↦ hnum p (LastWrite.mem_of_last (mem_shardPoints.mp hp).2)
    rw [hgrown.upsertPoints_ok_iff hknown hgained hok]
    simp only [Cluster.takenBy_iff henv (hshard _)]

/-! ## A collection that is not written to any more -/

namespace Network

/-- The first node of the table, with a collection. -/
def alone : Network Crates.bool :=
  (Network.start "http://0.0.0.0:5001/" 101 ⟨∅⟩).run .plain
    [.createCollection 101 "c" "" .insertion, .advance 101 0]

/-- The second node of the table, which has no collections, is about to join. -/
def aboutToJoin : Network Crates.bool :=
  alone.step .plain (.join 102 "http://0.0.0.0:5002" ⟨∅⟩ 101)

/-- The second node has joined. -/
def joinedBare : Network Crates.bool :=
  aboutToJoin.run .plain ([.request 0, .advance 101 0, .advance 101 0, .answer 0] ++
    List.replicate 4 (.advance 102 0))

theorem alone_reachable : alone.Reachable .plain .plain := by
  refine (Reachable.start (show UriCrate.plain.parse "http://0.0.0.0:5001" = .ok _ from rfl) 101
    (TableOfContent.loaded_empty .plain 101)).run fun a ha ↦ ?_
  simp only [List.mem_cons, List.not_mem_nil, or_false] at ha
  obtain rfl | rfl := ha <;> trivial

theorem isHandshake_advance {net : Network X} {peer : PeerId} {s : Server X}
    (hs : net.nodes peer = some s) {i : ℕ}
    (hi : ∀ name c, s.tasks[i]? ≠ some (.insertCollection name c)) :
    net.IsHandshake (.advance peer i) := by
  intro s' hs' name c
  rw [hs, Option.some.injEq] at hs'
  subst hs'
  exact hi name c

theorem joinedBare_handshakes : Handshakes .plain aboutToJoin joinedBare := by
  have h₀ : Handshakes .plain aboutToJoin aboutToJoin := .refl
  have h₁ := h₀.step (a := .request 0) trivial
  have h₂ := h₁.step (a := .advance 101 0) (isHandshake_advance rfl fun _ _ h ↦ nomatch h)
  have h₃ := h₂.step (a := .advance 101 0) (isHandshake_advance rfl fun _ _ h ↦ nomatch h)
  have h₄ := h₃.step (a := .answer 0) trivial
  have h₅ := h₄.step (a := .advance 102 0) (isHandshake_advance rfl fun _ _ h ↦ nomatch h)
  have h₆ := h₅.step (a := .advance 102 0) (isHandshake_advance rfl fun _ _ h ↦ nomatch h)
  have h₇ := h₆.step (a := .advance 102 0) (isHandshake_advance rfl fun _ _ h ↦ nomatch h)
  exact h₇.step (a := .advance 102 0) (isHandshake_advance rfl fun _ _ h ↦ nomatch h)

theorem joinedBare_quiet : joinedBare.Quiet := by
  refine quiet_of_idle fun j hj ↦ ?_
  obtain ⟨a, hjoins⟩ : ∃ a, joinedBare.joins = [⟨102, 101, .completed a⟩] := ⟨_, rfl⟩
  rw [hjoins, List.mem_singleton] at hj
  subst hj
  exact ⟨⟨a, rfl⟩, rfl⟩

end Network

theorem ClusterWriteEnv.failureFree_without : (ClusterWriteEnv.without []).FailureFree where
  sled _ := rfl
  request _ _ := rfl
  handler _ _ _ := rfl
  reply _ _ := rfl

/-- The collection of the first node gains a remote shard. -/
theorem join_upsert_iff_bare : ∃ c c' known gained,
    Network.aboutToJoin.cluster.collection 101 "c" = some c ∧
    Network.joinedBare.cluster.collection 101 "c" = some c' ∧
    c.Shaped "c" known ∧ c'.Shaped "c" (known ++ gained) := by
  obtain ⟨c, hc, hok⟩ : ∃ c, Network.aboutToJoin.cluster.collection 101 "c" = some c ∧
      (Network.aboutToJoin.cluster.upsertPoints 101 "c" c (.without []) [⟨.id 1, true⟩] false
        .empty).2 = some (.ok ()) := ⟨_, rfl, rfl⟩
  obtain ⟨c', known, gained, hc', hknown, hgained, -⟩ := join_upsert_iff Network.alone_reachable
    (TableOfContent.loaded_empty .plain 102) Network.joinedBare_handshakes hc
    ClusterWriteEnv.failureFree_without (by simp [PointId.isId]) hok
  exact ⟨c, c', known, gained, hc, hc', hknown, hgained⟩

/-- After the second node has joined, which does not have the collection, an upsert to it fails. -/
theorem not_writable_bare : ¬ ∀ (net after : Network Crates.bool) (joiner via : PeerId)
    (p2pUrl : String) (toc : TableOfContent Crates.bool), net.Reachable .plain .plain →
    toc.Loaded .plain joiner →
    Network.Handshakes .plain (net.step .plain (.join joiner p2pUrl toc via)) after →
    after.Quiet → ∀ peer name c c' env points w,
    (net.step .plain (.join joiner p2pUrl toc via)).cluster.collection peer name = some c →
    after.cluster.collection peer name = some c' → ClusterWriteEnv.FailureFree env →
    (∀ p ∈ points, p.id.isId = true) →
    ((net.step .plain (.join joiner p2pUrl toc via)).cluster.upsertPoints peer name c env points
      false w).2 = some (.ok ()) →
    (after.cluster.upsertPoints peer name c' env points false w).2 = some (.ok ()) := by
  intro h
  exact nomatch h _ _ 102 101 "http://0.0.0.0:5002" ⟨∅⟩ Network.alone_reachable
    (TableOfContent.loaded_empty .plain 102) Network.joinedBare_handshakes
    Network.joinedBare_quiet 101 "c" _ _ (.without []) [⟨.id 1, true⟩] .empty rfl rfl
    ClusterWriteEnv.failureFree_without (by simp [PointId.isId]) rfl

end Smoldb
