import Smoldb.Consensus

/-!
# The shape of the replica sets

The remote shards of a collection are added by two handlers, one shard at a time, to replica sets
that some other run of the same handlers may have been at before.  `Collection.Shaped` is what comes
out of it: every shard of the collection has the same peers as remotes, in the same order and each
of them once, under its own id and the name of the collection.

A node that is started has no remote shards at all (`Loaded.shaped`), and neither has a collection
that has just been made; adding the remote shards of a peer keeps the shape, as it adds the peer
behind the others of every shard, or nowhere.  `Server.Shaped` is that for all collections of a
node, with a clause for what its operations are about to do: the peers whose remote shards they will
add are known to the node by then.  Every step keeps it, so it holds in every state
(`Reachable.shaped`).

Two facts about `add_remote_shards` are of use by themselves.  Adding a peer for the second time
does nothing, and two peers can be added in either order, up to the order of the remotes
(`SameUpToOrder`).  So it does not matter to the replica sets which handler hears of a peer first.
-/

set_option autoImplicit false

namespace Smoldb

variable {V : Type} {X : Crates V}

/-! ## Adding the remote shards of a peer -/

namespace ReplicaHolder

variable {self : ReplicaHolder X} {p q : PeerId} {name : CollectionName} {s : ShardId}

theorem addRemote_of_any {rs : ReplicaSet} (h : ∃ r ∈ rs.remotes, r.peerId = p) :
    addRemote p name s rs = rs := by
  obtain ⟨r, hr, hp⟩ := h
  rw [addRemote, if_pos (List.any_eq_true.mpr ⟨r, hr, by simp [hp]⟩)]

theorem addRemote_of_new {rs : ReplicaSet} (h : ∀ r ∈ rs.remotes, r.peerId ≠ p) :
    addRemote p name s rs = { rs with remotes := rs.remotes ++ [⟨s, name, p⟩] } := by
  have hany : ¬ rs.remotes.any (fun r ↦ r.peerId = p) = true := by
    intro hany
    obtain ⟨r, hr, hp⟩ := List.any_eq_true.mp hany
    exact h r hr (of_decide_eq_true hp)
  rw [addRemote, if_neg hany]

/-- A replica set either has the peer, or it is added at the end. -/
theorem any_or_new (p : PeerId) (rs : ReplicaSet) :
    (∃ r ∈ rs.remotes, r.peerId = p) ∨ ∀ r ∈ rs.remotes, r.peerId ≠ p := by
  by_cases h : ∃ r ∈ rs.remotes, r.peerId = p
  · exact Or.inl h
  · exact Or.inr fun r hr hp ↦ h ⟨r, hr, hp⟩

@[simp] theorem addRemote_localShard (rs : ReplicaSet) :
    (addRemote p name s rs).localShard = rs.localShard := by
  rw [addRemote]
  split <;> rfl

theorem addRemote_idem (rs : ReplicaSet) :
    addRemote p name s (addRemote p name s rs) = addRemote p name s rs := by
  obtain h | h := any_or_new p rs
  · rw [addRemote_of_any h, addRemote_of_any h]
  · rw [addRemote_of_new h]
    exact addRemote_of_any ⟨⟨s, name, p⟩, List.mem_append_right _ (List.mem_singleton_self _), rfl⟩

/-- Remote shards of two peers can be added in any order, up to the order of the remotes. -/
theorem addRemote_comm (hpq : p ≠ q) (rs : ReplicaSet) :
    (addRemote p name s (addRemote q name s rs)).remotes.Perm
      (addRemote q name s (addRemote p name s rs)).remotes := by
  -- a peer that is there stays there, and one that is not does not come by adding the other
  have hkeep : ∀ {p q : PeerId} {rs : ReplicaSet}, (∃ r ∈ rs.remotes, r.peerId = p) →
      ∃ r ∈ (addRemote q name s rs).remotes, r.peerId = p := by
    intro p q rs ⟨r, hr, hp⟩
    obtain h | h := any_or_new q rs
    · rw [addRemote_of_any h]
      exact ⟨r, hr, hp⟩
    · rw [addRemote_of_new h]
      exact ⟨r, List.mem_append_left _ hr, hp⟩
  have hnew : ∀ {p q : PeerId} {rs : ReplicaSet}, p ≠ q → (∀ r ∈ rs.remotes, r.peerId ≠ q) →
      (∀ r ∈ rs.remotes, r.peerId ≠ p) →
      (addRemote p name s (addRemote q name s rs)).remotes
        = rs.remotes ++ [⟨s, name, q⟩] ++ [⟨s, name, p⟩] := by
    intro p q rs hpq hq hp
    rw [addRemote_of_new hq, addRemote_of_new]
    intro r hr
    obtain hr | hr := List.mem_append.mp hr
    · exact hp r hr
    · rw [List.mem_singleton.mp hr]
      exact hpq.symm
  obtain hp | hp := any_or_new p rs
  · rw [addRemote_of_any hp, addRemote_of_any (hkeep hp)]
  · obtain hq | hq := any_or_new q rs
    · rw [addRemote_of_any hq, addRemote_of_any (hkeep hq)]
    · rw [hnew hpq hq hp, hnew hpq.symm hp hq, List.append_assoc, List.append_assoc]
      exact (List.Perm.swap _ _ []).append_left _

/-- Two holders that differ in the order of the remotes only. -/
structure SameUpToOrder (self other : ReplicaHolder X) : Prop where
  ring : self.ring = other.ring
  keys : self.shards.keys = other.shards.keys
  remotes : ∀ s rs rs', self.shards.lookup s = some rs → other.shards.lookup s = some rs' →
    rs.localShard = rs'.localShard ∧ rs.remotes.Perm rs'.remotes

/-- **Adding the remote shards of a peer again** changes nothing. -/
theorem addRemoteShards_idem (self : ReplicaHolder X) (p : PeerId) (name : CollectionName) :
    (self.addRemoteShards p name).addRemoteShards p name = self.addRemoteShards p name := by
  have hshards : ((self.addRemoteShards p name).addRemoteShards p name).shards
      = (self.addRemoteShards p name).shards := by
    simp only [addRemoteShards, HashMap.mapValues_mapValues, addRemote_idem]
  rw [addRemoteShards, mk.injEq]
  exact ⟨hshards, rfl⟩

/-- **Remote shards of two peers** can be added in any order, up to the order of the remotes. -/
theorem addRemoteShards_comm (self : ReplicaHolder X) (hpq : p ≠ q) (name : CollectionName) :
    ((self.addRemoteShards p name).addRemoteShards q name).SameUpToOrder
      ((self.addRemoteShards q name).addRemoteShards p name) where
  ring := rfl
  keys := by simp only [addRemoteShards, HashMap.keys_mapValues]
  remotes s rs rs' hrs hrs' := by
    simp only [lookup_addRemoteShards, Option.map_map, Option.map_eq_some_iff] at hrs hrs'
    obtain ⟨rs₀, hrs₀, rfl⟩ := hrs
    obtain ⟨rs₁, hrs₁, rfl⟩ := hrs'
    rw [hrs₀, Option.some.injEq] at hrs₁
    subst hrs₁
    exact ⟨by simp, addRemote_comm hpq.symm rs₀⟩

/-- **Adding remote shards** is about nothing else: the shards of this node and the ring stay. -/
theorem addRemoteShards_frame (self : ReplicaHolder X) (p : PeerId) (name : CollectionName) :
    (self.addRemoteShards p name).ring = self.ring ∧
      ∀ s, ((self.addRemoteShards p name).shards.lookup s).map ReplicaSet.localShard
        = (self.shards.lookup s).map ReplicaSet.localShard := by
  refine ⟨rfl, fun s ↦ ?_⟩
  rw [lookup_addRemoteShards, Option.map_map]
  exact Option.map_congr fun rs _ ↦ addRemote_localShard rs

end ReplicaHolder

/-! ## The shape -/

/-- All shards of a collection have these peers as remotes, in this order. -/
structure Collection.Shaped (c : Collection X) (name : CollectionName) (peers : List PeerId) :
    Prop where
  nodup : peers.Nodup
  remotes : ∀ s rs, c.replicaHolder.shards.lookup s = some rs →
    rs.remotes = peers.map fun p ↦ ⟨s, name, p⟩

namespace Collection.Shaped

variable {c : Collection X} {name : CollectionName} {peers : List PeerId} {p : PeerId}

/-- Every shard has as many replicas. -/
theorem numReplicas (h : c.Shaped name peers) {s : ShardId} {rs : ReplicaSet}
    (hrs : c.replicaHolder.shards.lookup s = some rs) : rs.numReplicas = peers.length + 1 := by
  rw [ReplicaSet.numReplicas, h.remotes s rs hrs, List.length_map]

/-- No operation on a shard reaches a replica twice. -/
theorem replicas_nodup (h : c.Shaped name peers) {s : ShardId} {rs : ReplicaSet}
    (hrs : c.replicaHolder.shards.lookup s = some rs) : (rs.replicas false).Nodup := by
  have hremotes : (rs.remotes.map Replica.remoteShard).Nodup := by
    rw [h.remotes s rs hrs, List.map_map]
    refine h.nodup.map fun p q hpq ↦ ?_
    exact congrArg RemoteShard.peerId (Replica.remoteShard.inj hpq)
  exact List.nodup_cons.mpr ⟨by simp, hremotes⟩

theorem addRemoteShards (h : c.Shaped name peers) (p : PeerId) :
    ({ c with replicaHolder := c.replicaHolder.addRemoteShards p name } :
      Collection X).Shaped name (if p ∈ peers then peers else peers ++ [p]) := by
  have hremotes : ∀ s rs, (c.replicaHolder.addRemoteShards p name).shards.lookup s = some rs →
      ∃ rs₀, rs₀.remotes = peers.map (fun p ↦ ⟨s, name, p⟩) ∧
        rs = ReplicaHolder.addRemote p name s rs₀ := by
    intro s rs hrs
    rw [ReplicaHolder.lookup_addRemoteShards, Option.map_eq_some_iff] at hrs
    obtain ⟨rs₀, hrs₀, rfl⟩ := hrs
    exact ⟨rs₀, h.remotes s rs₀ hrs₀, rfl⟩
  by_cases hp : p ∈ peers
  · rw [if_pos hp]
    refine ⟨h.nodup, fun s rs hrs ↦ ?_⟩
    obtain ⟨rs₀, hrs₀, rfl⟩ := hremotes s rs hrs
    have hany : ∃ r ∈ rs₀.remotes, r.peerId = p :=
      ⟨⟨s, name, p⟩, hrs₀ ▸ List.mem_map.mpr ⟨p, hp, rfl⟩, rfl⟩
    rw [ReplicaHolder.addRemote_of_any hany, hrs₀]
  · rw [if_neg hp]
    refine ⟨List.nodup_append.mpr ⟨h.nodup, List.nodup_singleton p, ?_⟩, fun s rs hrs ↦ ?_⟩
    · intro q hq r hr hqr
      rw [hqr, List.mem_singleton.mp hr] at hq
      exact hp hq
    · obtain ⟨rs₀, hrs₀, rfl⟩ := hremotes s rs hrs
      have hnew : ∀ r ∈ rs₀.remotes, r.peerId ≠ p := by
        intro r hr hrp
        obtain ⟨q, hq, rfl⟩ := List.mem_map.mp (hrs₀ ▸ hr)
        exact hp (hrp ▸ hq)
      rw [ReplicaHolder.addRemote_of_new hnew, hrs₀, List.map_append]
      rfl

end Collection.Shaped

theorem Collection.init_shaped (id : CollectionName) (config : CollectionConfig) (path : Path)
    (order : IterOrder (Σ _ : ShardId, ReplicaSet)) :
    (Collection.init (X := X) id config path order).Shaped id [] := by
  refine ⟨List.nodup_nil, fun s rs hrs ↦ ?_⟩
  rw [Collection.lookup_init] at hrs
  split at hrs
  · rw [← Option.some.inj hrs]; rfl
  · split at hrs
    · rw [← Option.some.inj hrs]; rfl
    · exact nomatch hrs

/-! ## Collections that are loaded -/

/-- What `Collection::load` returns is named as it should be, and has no remote shards. -/
theorem Collection.returns_load (J : ConfigJson) (env : LoadEnv) (name : CollectionName)
    (path : Path) : (Collection.load (X := X) J env name path).Returns fun loaded ↦
      loaded.1.id = name ∧ loaded.1.Shaped name [] := by
  have hround : ∀ (loaded : HashMap ShardId ReplicaSet × Trees) (entry : Except String String),
      (∀ s rs, loaded.1.lookup s = some rs → rs.remotes = []) →
      (Collection.loadShard env name path loaded entry).Returns fun loaded ↦
        ∀ s rs, loaded.1.lookup s = some rs → rs.remotes = [] := by
    intro loaded entry hloaded
    refine (Program.returns_true _).bind fun file _ ↦ (Program.returns_true _).bind fun b _ ↦ ?_
    cases b with
    | false => exact hloaded
    | true =>
      refine (Program.returns_true _).bind fun made _ ↦ ?_
      intro s rs hrs
      by_cases hs : s = made.1.id
      · rw [hs, AList.lookup_insert] at hrs
        rw [← Option.some.inj hrs]
        rfl
      · rw [AList.lookup_insert_ne hs] at hrs
        exact hloaded s rs hrs
  refine (Program.returns_true _).bind fun b _ ↦ ?_
  cases b with
  | false => exact trivial
  | true =>
    refine (Program.returns_true _).bind fun _ _ ↦ (Program.returns_true _).bind fun config _ ↦
      (Program.returns_true _).bind fun entries _ ↦ ?_
    refine (Program.returns_foldlM hround entries fun s rs hrs ↦ ?_).bind fun loaded hloaded ↦ ?_
    · rw [AList.lookup_empty] at hrs
      exact nomatch hrs
    · refine ⟨rfl, List.nodup_nil, fun s rs hrs ↦ hloaded s rs ?_⟩
      rwa [ReplicaHolder.new, HashMap.lookup_arrangedBy] at hrs

/-- **A node that is started** has no remote shards in any of its collections. -/
theorem TableOfContent.Loaded.shaped {J : ConfigJson} {peer : PeerId} {toc : TableOfContent X}
    (h : toc.Loaded J peer) {name : CollectionName} {c : Collection X}
    (hc : toc.collections.lookup name = some c) : c.Shaped name [] := by
  obtain ⟨env, answer, d, d', memory, hrun, rfl⟩ := h
  have hround : ∀ (loaded : Memory X) (entry : Except String String),
      (∀ name c, loaded.toc.collections.lookup name = some c → c.Shaped name []) →
      (TableOfContent.loadCollection (ε := Empty) J env peer loaded entry).Returns fun loaded ↦
        ∀ name c, loaded.toc.collections.lookup name = some c → c.Shaped name [] := by
    intro loaded entry hloaded
    refine (Program.returns_true _).bind fun file _ ↦ (Program.returns_true _).bind fun b _ ↦ ?_
    cases b with
    | false => exact hloaded
    | true =>
      refine ((Collection.returns_load J env file _).expect _).bind fun made hmade ↦ ?_
      intro name c hc
      by_cases hname : name = made.1.id
      · rw [hname, Memory.insert, AList.lookup_insert] at hc
        rw [hname, ← Option.some.inj hc, hmade.1]
        exact hmade.2
      · rw [Memory.insert, AList.lookup_insert_ne hname] at hc
        exact hloaded name c hc
  have hload : (TableOfContent.load (X := X) (ε := Empty) J env peer).Returns fun memory ↦
      ∀ name c, memory.toc.collections.lookup name = some c → c.Shaped name [] := by
    refine (Program.returns_true _).bind fun _ _ ↦ (Program.returns_true _).bind fun entries _ ↦ ?_
    refine Program.returns_foldlM hround entries fun name c hc ↦ ?_
    rw [AList.lookup_empty] at hc
    exact nomatch hc
  exact hload.of_run hrun name c hc

/-! ## Every state of a node -/

/-- The peers of all remote shards are known. -/
def TableOfContent.Shaped (self : TableOfContent X) (persistent : Persistent) : Prop :=
  ∀ name c, self.collections.lookup name = some c →
    ∃ peers, c.Shaped name peers ∧ ∀ p ∈ peers, p ∈ persistent.peers

/-- A collection that is to be inserted is as `Collection::init` made it, and remote shards are to
be added for peers that are known. -/
def Task.Shaped (persistent : Persistent) : Task X → Prop
  | insertCollection name collection =>
    ∃ config path order, collection = .init name config path order
  | addRemotes p => p ∈ persistent.peers
  | bootstrapRemotes p _ => p ∈ persistent.peers
  | answer _ => True
  | bootstrap _ => True

theorem TableOfContent.Shaped.mono {toc : TableOfContent X} {persistent persistent' : Persistent}
    (h : toc.Shaped persistent) (hle : ∀ p ∈ persistent.peers, p ∈ persistent'.peers) :
    toc.Shaped persistent' := by
  intro name c hc
  obtain ⟨peers, hshaped, hpeers⟩ := h name c hc
  exact ⟨peers, hshaped, fun p hp ↦ hle p (hpeers p hp)⟩

theorem Task.Shaped.mono {t : Task X} {persistent persistent' : Persistent}
    (h : t.Shaped persistent) (hle : ∀ p ∈ persistent.peers, p ∈ persistent'.peers) :
    t.Shaped persistent' := by
  cases t with
  | insertCollection name collection => exact h
  | addRemotes p => exact hle p h
  | bootstrapRemotes p peers => exact hle p h
  | answer p => trivial
  | bootstrap peers => trivial

theorem TableOfContent.Shaped.addRemoteShards {toc : TableOfContent X} {persistent : Persistent}
    (h : toc.Shaped persistent) {p : PeerId} (hp : p ∈ persistent.peers) :
    (toc.addRemoteShards p).Shaped persistent := by
  intro name c hc
  rw [TableOfContent.lookup_addRemoteShards, Option.map_eq_some_iff] at hc
  obtain ⟨c₀, hc₀, rfl⟩ := hc
  obtain ⟨peers, hshaped, hpeers⟩ := h name c₀ hc₀
  refine ⟨_, hshaped.addRemoteShards p, fun q hq ↦ ?_⟩
  split at hq
  · exact hpeers q hq
  · obtain hq | hq := List.mem_append.mp hq
    · exact hpeers q hq
    · rwa [List.mem_singleton.mp hq]

/-- A task that only talks adds no remote shards. -/
theorem Task.Talks.shaped {t : Task X} (h : t.Talks) (persistent : Persistent) :
    t.Shaped persistent := by
  cases t with
  | answer p => trivial
  | bootstrap peers => trivial
  | insertCollection name collection => exact h.elim
  | addRemotes p => exact h.elim
  | bootstrapRemotes p peers => exact h.elim

theorem Task.Shaped.mem_of_adds {t : Task X} {persistent : Persistent} (h : t.Shaped persistent)
    {p : PeerId} (hp : t.Adds p) : p ∈ persistent.peers := by
  cases t with
  | addRemotes q => exact hp ▸ h
  | bootstrapRemotes q peers => exact hp ▸ h
  | insertCollection name collection => exact hp.elim
  | answer q => exact hp.elim
  | bootstrap peers => exact hp.elim

/-- A step of an operation keeps the shape, and makes no peer unknown. -/
theorem Task.Shaped.step {U : UriCrate} {t : Task X} {persistent : Persistent}
    {toc : TableOfContent X} (h : t.Shaped persistent) (htoc : toc.Shaped persistent)
    {r : Persistent × TableOfContent X × Option (Task X)} (hr : t.Effect U persistent toc r) :
    (∀ p ∈ persistent.peers, p ∈ r.1.peers) ∧ r.2.1.Shaped r.1 ∧
      ∀ rest, r.2.2 = some rest → rest.Shaped r.1 := by
  cases hr with
  | inserts name collection =>
    refine ⟨fun p hp ↦ hp, fun name' c hc ↦ ?_, fun rest hrest ↦ nomatch hrest⟩
    obtain hc | ⟨rfl, rfl⟩ := TableOfContent.lookup_insertCollection hc
    · exact htoc name' c hc
    · obtain ⟨config, path, order, rfl⟩ := h
      exact ⟨[], Collection.init_shaped name' config path order, fun p hp ↦ nomatch hp⟩
  | adds hp hrest =>
    refine ⟨fun p hp ↦ hp, htoc.addRemoteShards (h.mem_of_adds hp), fun rest hrest' ↦ ?_⟩
    rw [← Option.some.inj hrest']
    exact hrest.shaped _
  | @learns p text uri peers hp huri =>
    have hle : ∀ q ∈ persistent.peers, q ∈ (persistent.addPeer p uri).peers :=
      fun q hq ↦ Persistent.mem_addPeer.mpr (Or.inr hq)
    refine ⟨hle, htoc.mono hle, fun rest hrest ↦ ?_⟩
    rw [← Option.some.inj hrest]
    exact Persistent.mem_addPeer.mpr (Or.inl rfl)
  | talks ht hrest => exact ⟨fun p hp ↦ hp, htoc, fun rest h ↦ (hrest rest h).shaped _⟩

namespace Server

/-- The shape of everything a node has and does. -/
structure Shaped (s : Server X) : Prop where
  toc : s.toc.Shaped s.persistent
  tasks : ∀ t ∈ s.tasks, t.Shaped s.persistent

theorem Shaped.step {s : Server X} (h : s.Shaped) (U : UriCrate) (a : Action) :
    (s.step U a).Shaped := by
  cases a with
  | createCollection name params order =>
    refine ⟨h.toc, fun t ht ↦ ?_⟩
    obtain ht | ht := List.mem_append.mp ht
    · exact h.tasks t ht
    · rw [List.mem_singleton.mp ht]
      exact ⟨_, _, order, rfl⟩
  | deleteCollection name =>
    exact ⟨fun name' c hc ↦ h.toc name' c (TableOfContent.lookup_of_erase hc), h.tasks⟩
  | addPeerToKnown message =>
    rw [Server.step]
    split
    · rename_i uri _
      have hle : ∀ p ∈ s.persistent.peers, p ∈ (s.persistent.addPeer message.id uri).peers :=
        fun p hp ↦ Persistent.mem_addPeer.mpr (Or.inr hp)
      refine ⟨h.toc.mono hle, fun t ht ↦ ?_⟩
      obtain ht | ht := List.mem_append.mp ht
      · exact (h.tasks t ht).mono hle
      · rw [List.mem_singleton.mp ht]
        exact Persistent.mem_addPeer.mpr (Or.inl rfl)
    · exact h
  | bootstrap answer =>
    refine ⟨h.toc, fun t ht ↦ ?_⟩
    obtain ht | ht := List.mem_append.mp ht
    · exact h.tasks t ht
    · rw [List.mem_singleton.mp ht]
      trivial
  | advance i =>
    rw [Server.step]
    split
    · exact h
    · rename_i task hi
      have htask := (h.tasks task (List.mem_of_getElem? hi)).step h.toc (task.effect U _ _)
      refine ⟨htask.2.1, fun t ht ↦ ?_⟩
      obtain ht | ht := mem_tasks_advance ht
      · exact (h.tasks t ht).mono htask.1
      · exact htask.2.2 t ht

theorem Reachable.shaped {U : UriCrate} {J : ConfigJson} {s : Server X} (h : s.Reachable U J) :
    s.Shaped := by
  induction h with
  | start p2pUri peerId hloaded =>
    refine ⟨fun name c hc ↦ ⟨[], hloaded.shaped hc, fun p hp ↦ nomatch hp⟩, fun t ht ↦ ?_⟩
    exact nomatch ht
  | step _ a ih => exact ih.step U a

end Server

/-- **Replica sets have one shape.**  In every state of a node, all shards of a collection have the
same remotes in the same order, each once, under their own id and name, and known to the node.  So
all shards have the same number of replicas, and no replica is written to or counted twice. -/
theorem replicaSets_shaped {U : UriCrate} {J : ConfigJson} {s : Server X} (h : s.Reachable U J) :
    (∀ name c, s.toc.collections.lookup name = some c →
      ∃ peers : List PeerId, peers.Nodup ∧ (∀ p ∈ peers, p ∈ s.persistent.peers) ∧
        ∀ shardId rs, c.replicaHolder.shards.lookup shardId = some rs →
          rs.remotes = peers.map (fun p ↦ ⟨shardId, name, p⟩) ∧
          rs.numReplicas = peers.length + 1 ∧ (rs.replicas false).Nodup) ∧
    ∀ (holder : ReplicaHolder X) (name : CollectionName) (p q : PeerId),
      (holder.addRemoteShards p name).addRemoteShards p name = holder.addRemoteShards p name ∧
      (p ≠ q → ((holder.addRemoteShards p name).addRemoteShards q name).SameUpToOrder
        ((holder.addRemoteShards q name).addRemoteShards p name)) ∧
      (holder.addRemoteShards p name).ring = holder.ring ∧
      ∀ shardId, ((holder.addRemoteShards p name).shards.lookup shardId).map ReplicaSet.localShard
        = (holder.shards.lookup shardId).map ReplicaSet.localShard := by
  refine ⟨fun name c hc ↦ ?_, fun holder name p q ↦ ?_⟩
  · obtain ⟨peers, hshaped, hpeers⟩ := h.shaped.toc name c hc
    refine ⟨peers, hshaped.nodup, hpeers, fun shardId rs hrs ↦ ?_⟩
    exact ⟨hshaped.remotes shardId rs hrs, hshaped.numReplicas hrs, hshaped.replicas_nodup hrs⟩
  · exact ⟨holder.addRemoteShards_idem p name, fun hpq ↦ holder.addRemoteShards_comm hpq name,
      holder.addRemoteShards_frame p name⟩

/-- A node makes a collection, and then hears of a peer. -/
def secondHeard : List Server.Action :=
  [.createCollection "c" "" .insertion, .advance 0, .addPeerToKnown .second, .advance 0]

theorem replicaSets_shaped_second :
    ∃ c, ((Server.first Crates.bool).run .plain secondHeard).toc.collections.lookup "c" = some c ∧
      ∃ peers : List PeerId, peers.Nodup ∧
        ∀ shardId rs, c.replicaHolder.shards.lookup shardId = some rs →
          rs.remotes = peers.map (fun p ↦ ⟨shardId, "c", p⟩) ∧
          rs.numReplicas = peers.length + 1 ∧ (rs.replicas false).Nodup := by
  have hreach := (Server.reachable_first (X := Crates.bool) .plain .plain).run secondHeard
  refine ⟨_, rfl, ?_⟩
  obtain ⟨peers, hnodup, -, hshape⟩ := (replicaSets_shaped hreach).1 "c" _ rfl
  exact ⟨peers, hnodup, hshape⟩

end Smoldb
