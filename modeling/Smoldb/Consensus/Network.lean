import Smoldb.Consensus.Shape

/-!
# A cluster that grows

`Network` has every node of a cluster, and every join there has been.  A node that joins is started
with a peer id that is not in use, and sends its id and its URI to a node that is there already.
That node answers with all peers it knows, and nobody else is told.  `Join.Stage` says where between
the two the join is, with the message that is on its way.

* `requested`, with the message of the joining node;
* `received`, while the other node is at `add_peer_to_known`, which is an operation of its own there
  and takes two locks, one after the other;
* `answered`, with the answer, which has the peers that the other node knows at that time;
* `completed`, with the answer, of which the joining node then adds one peer after the other.

Any number of joins may be going on, through the same node or through one that is itself joining,
and collections are made and deleted in between.  What a node does with the messages, and with its
collections in between, is `Server.step`; so every node of a network that grew is in a state that
`Server.Reachable` is about, and what is known of one node in any surroundings holds of it
(`Reachable.node`).
-/

set_option autoImplicit false

namespace Smoldb

variable {V : Type} {X : Crates V}

/-- How far a join has come. -/
inductive Join.Stage where
  /-- The message of the joining node is on its way. -/
  | requested (message : AddPeerToKnownMessage)
  /-- The other node has begun `add_peer_to_known`. -/
  | received
  /-- The answer is on its way. -/
  | answered (answer : AllPeers)
  /-- The joining node has the answer. -/
  | completed (answer : AllPeers)

/-- A node that bootstraps from another. -/
structure Join where
  joiner : PeerId
  via : PeerId
  stage : Join.Stage

/-- The nodes of a cluster, and the joins it came about by. -/
structure Network {V : Type} (X : Crates V) where
  nodes : PeerId → Option (Server X)
  joins : List Join

namespace Network

/-- What can happen in a cluster. -/
inductive Action {V : Type} (X : Crates V) where
  /-- A node is started to join the cluster through another node. -/
  | join (joiner : PeerId) (p2pUrl : String) (toc : TableOfContent X) (via : PeerId)
  /-- The message of a join arrives. -/
  | request (i : ℕ)
  /-- The answer of a join arrives. -/
  | answer (i : ℕ)
  /-- An operation at a node goes on. -/
  | advance (peer : PeerId) (i : ℕ)
  | createCollection (peer : PeerId) (name params : String)
    (order : IterOrder (Σ _ : ShardId, ReplicaSet))
  | deleteCollection (peer : PeerId) (name : String)

/-- A node takes a step. -/
def stepAt (U : UriCrate) (self : Network X) (peer : PeerId) (a : Server.Action) : Network X :=
  match self.nodes peer with
  | none => self
  | some server => { self with nodes := Function.update self.nodes peer (some (server.step U a)) }

/-- A join gets to another stage. -/
def setStage (self : Network X) (i : ℕ) (join : Join) (stage : Join.Stage) : Network X :=
  { self with joins := self.joins.set i { join with stage := stage } }

/-- The node `peer` sends the answer to the message of `joiner`. -/
def sendAnswer (self : Network X) (peer : PeerId) (server : Server X) (joiner : PeerId) :
    Network X :=
  { self with joins := self.joins.map fun join ↦
      match join.stage with
      | .received =>
        if join.joiner = joiner ∧ join.via = peer then
          { join with stage := .answered server.persistent.allPeers }
        else join
      | _ => join }

/-- One step of a cluster. -/
def step (U : UriCrate) (self : Network X) : Action X → Network X
  | .join joiner p2pUrl toc via =>
    match U.parse p2pUrl, self.nodes joiner, self.nodes via with
    | .ok p2pUri, none, some _ =>
      let server := Server.start p2pUri joiner toc
      match server.persistent.bootstrapMessage with
      | .ok message =>
        ⟨Function.update self.nodes joiner (some server),
          self.joins ++ [⟨joiner, via, .requested message⟩]⟩
      | .error _ => self
    | _, _, _ => self
  | .request i =>
    match self.joins[i]? with
    | none => self
    | some join =>
      match join.stage with
      | .requested message =>
        (self.stepAt U join.via (.addPeerToKnown message)).setStage i join .received
      | _ => self
  | .answer i =>
    match self.joins[i]? with
    | none => self
    | some join =>
      match join.stage with
      | .answered answer =>
        (self.stepAt U join.joiner (.bootstrap answer)).setStage i join (.completed answer)
      | _ => self
  | .advance peer i =>
    match self.nodes peer with
    | none => self
    | some server =>
      match server.tasks[i]? with
      | some (.answer joiner) => (self.sendAnswer peer server joiner).stepAt U peer (.advance i)
      | _ => self.stepAt U peer (.advance i)
  | .createCollection peer name params order =>
    self.stepAt U peer (.createCollection name params order)
  | .deleteCollection peer name => self.stepAt U peer (.deleteCollection name)

/-- One step after the other. -/
def run (U : UriCrate) (actions : List (Action X)) (self : Network X) : Network X :=
  actions.foldl (step U) self

/-- A cluster of one node. -/
def start (p2pUri : Uri) (peerId : PeerId) (toc : TableOfContent X) : Network X :=
  ⟨fun p ↦ if p = peerId then some (.start p2pUri peerId toc) else none, []⟩

/-- A node that is started has loaded its collections from disk. -/
def Action.Proper (J : ConfigJson) : Action X → Prop
  | join joiner _ toc _ => toc.Loaded J joiner
  | _ => True

/-- The clusters that grow from one node. -/
inductive Reachable (U : UriCrate) (J : ConfigJson) : Network X → Prop
  | start {p2pUrl : String} {p2pUri : Uri} (hurl : U.parse p2pUrl = .ok p2pUri) (peerId : PeerId)
    {toc : TableOfContent X} (h : toc.Loaded J peerId) : Reachable U J (.start p2pUri peerId toc)
  | step {net : Network X} (h : Reachable U J net) {a : Action X} (ha : a.Proper J) :
    Reachable U J (net.step U a)

/-! ## Nodes -/

variable {U : UriCrate} {J : ConfigJson} {net : Network X}

/-- A node of a cluster after a step is as it was, has taken a step, or has just been started. -/
theorem nodes_step (a : Action X) {x : PeerId} {s : Server X}
    (hs : (net.step U a).nodes x = some s) :
    net.nodes x = some s ∨ (∃ s₀ b, net.nodes x = some s₀ ∧ s = s₀.step U b) ∨
      ∃ p2pUri p2pUrl toc via, a = .join x p2pUrl toc via ∧ s = .start p2pUri x toc := by
  have hstepAt : ∀ (net : Network X) peer b, (net.stepAt U peer b).nodes x = some s →
      net.nodes x = some s ∨ ∃ s₀ b, net.nodes x = some s₀ ∧ s = s₀.step U b := by
    intro net peer b hs
    rw [stepAt] at hs
    cases hpeer : net.nodes peer with
    | none => simp only [hpeer] at hs; exact Or.inl hs
    | some s₀ =>
      simp only [hpeer] at hs
      by_cases hx : x = peer
      · subst hx
        rw [Function.update_self, Option.some.injEq] at hs
        exact Or.inr ⟨s₀, b, hpeer, hs.symm⟩
      · rw [Function.update_of_ne hx] at hs
        exact Or.inl hs
  cases a with
  | join joiner p2pUrl toc via =>
    rw [step] at hs
    split at hs
    · simp only at hs
      split at hs
      · by_cases hx : x = joiner
        · subst hx
          simp only [Function.update_self, Option.some.injEq] at hs
          exact Or.inr (Or.inr ⟨_, p2pUrl, toc, via, rfl, hs.symm⟩)
        · simp only [Function.update_of_ne hx] at hs
          exact Or.inl hs
      · exact Or.inl hs
    · exact Or.inl hs
  | request i =>
    rw [step] at hs
    split at hs
    · exact Or.inl hs
    · split at hs
      · exact (hstepAt _ _ _ hs).imp_right Or.inl
      · exact Or.inl hs
  | answer i =>
    rw [step] at hs
    split at hs
    · exact Or.inl hs
    · split at hs
      · exact (hstepAt _ _ _ hs).imp_right Or.inl
      · exact Or.inl hs
  | advance peer i =>
    rw [step] at hs
    split at hs
    · exact Or.inl hs
    · split at hs
      · exact (hstepAt (net.sendAnswer _ _ _) _ _ hs).imp_right Or.inl
      · exact (hstepAt _ _ _ hs).imp_right Or.inl
  | createCollection peer name params order => exact (hstepAt _ _ _ hs).imp_right Or.inl
  | deleteCollection peer name => exact (hstepAt _ _ _ hs).imp_right Or.inl

/-- **A node of a cluster** is in a state that it can get into. -/
theorem Reachable.node (h : net.Reachable U J) {x : PeerId} {s : Server X}
    (hs : net.nodes x = some s) : s.Reachable U J := by
  induction h generalizing x s with
  | @start p2pUrl p2pUri hurl peerId toc htoc =>
    rw [Network.start] at hs
    simp only at hs
    split at hs
    · rw [← Option.some.inj hs]
      exact .start p2pUri peerId htoc
    · exact nomatch hs
  | @step net _ a ha ih =>
    obtain hs | ⟨s₀, b, hs₀, rfl⟩ | ⟨p2pUri, p2pUrl, toc, via, rfl, rfl⟩ := nodes_step a hs
    · exact ih hs
    · exact (ih hs₀).step b
    · exact .start p2pUri x ha

end Network

end Smoldb
