import Smoldb.Consensus.Network

/-!
# Who lists whom

A join tells two nodes of each other: the node that joins, and the one it bootstraps from.  The
joining node is told of more peers than that, all that the other one knew when it answered; but they
are not told of the joining node, by anybody.

`membership` is what follows from that for a whole cluster, whatever joins there have been and
however they overlapped.  When no join is in flight, a node lists exactly those that it is `Linked`
to, each with the URI that it announced: itself, the nodes that bootstrapped from it, and the peers
it was told of when it joined.

## The invariant

`Consistent` has a part for every node and one for every join.

* `NodeOk`: the node lists itself.  Everybody it lists, and everybody it is about to list, has
  announced that URI, and is `Linked` to it.  So there is a reason for every entry.
* `JoinOk`: both nodes of the join are there, and it is at some stage.  From when the message has
  been handled on, the other node lists the one that joins.  The answer has right URIs, and the node
  that sent it is in it.  And of every peer in an answer that has come in, the joining node lists it
  or is about to, which is `Settles`.  So every reason has an entry, in the end.

`Extends` is what one step does to a cluster, and is what makes the invariant easy to keep: nodes
stay, with their URIs, peers once listed stay listed, and a join that is completed stays so with its
answer.  All that `NodeOk` and `JoinOk` say of other nodes and of joins is kept by that, so a step
has to be looked at only where it happens.
-/

set_option autoImplicit false

namespace Smoldb

variable {V : Type} {X : Crates V} {U : UriCrate} {J : ConfigJson}

/-! ## What a step of a node does to the peers it knows -/

theorem Persistent.mem_allPeers {self : Persistent} {peer : Peer} :
    peer ∈ self.allPeers.allPeers ↔ self.peers[peer.id]? = some peer.uri := by
  rw [allPeers, List.mem_map]
  constructor
  · rintro ⟨⟨id, uri⟩, hmem, rfl⟩
    exact Std.ExtTreeMap.mem_toList_iff_getElem?_eq_some.mp hmem
  · exact fun h ↦ ⟨(peer.id, peer.uri), Std.ExtTreeMap.mem_toList_iff_getElem?_eq_some.mpr h, rfl⟩

namespace Task

/-- The peer is still to be added. -/
def Lists (peer : Peer) : Task X → Prop
  | bootstrap peers => peer ∈ peers
  | bootstrapRemotes _ peers => peer ∈ peers
  | _ => False

variable {persistent : Persistent} {toc : TableOfContent X} {t rest : Task X} {peer : Peer}

theorem lists_step (h : (t.step U persistent toc).2.2 = some rest) (hl : rest.Lists peer) :
    t.Lists peer := by
  cases t with
  | insertCollection name collection => cases h
  | addRemotes p => rw [← Option.some.inj h] at hl; exact hl.elim
  | answer p => cases h
  | bootstrapRemotes p peers => rw [← Option.some.inj h] at hl; exact hl
  | bootstrap peers =>
    cases peers with
    | nil => cases h
    | cons first peers =>
      rw [step] at h
      split at h
      · rw [← Option.some.inj h] at hl
        exact List.mem_cons_of_mem _ hl
      · split at h
        · cases h
        · rw [← Option.some.inj h] at hl
          exact List.mem_cons_of_mem _ hl

/-- A peer that is listed is added, or stays listed, unless it is the node itself. -/
theorem settles_step (persistent : Persistent) (toc : TableOfContent X)
    (hparse : ∀ peer, t.Lists peer → ∃ uri, U.parse peer.uri = .ok uri) (hl : t.Lists peer) :
    peer.id = persistent.peerId ∨
      peer.id ∈ (t.step U persistent toc).1.peers ∨
      ∃ rest, (t.step U persistent toc).2.2 = some rest ∧ rest.Lists peer := by
  cases t with
  | insertCollection name collection => exact hl.elim
  | addRemotes p => exact hl.elim
  | answer p => exact hl.elim
  | bootstrapRemotes p peers => exact Or.inr (Or.inr ⟨_, rfl, hl⟩)
  | bootstrap peers =>
    cases peers with
    | nil => exact nomatch hl
    | cons first peers =>
      obtain ⟨uri, huri⟩ := hparse first List.mem_cons_self
      rw [step]
      split
      · rename_i hself
        obtain rfl | hl := List.mem_cons.mp hl
        · exact Or.inl hself
        · exact Or.inr (Or.inr ⟨_, rfl, hl⟩)
      · rw [huri]
        obtain rfl | hl := List.mem_cons.mp hl
        · exact Or.inr (Or.inl (Persistent.mem_addPeer.mpr (Or.inl rfl)))
        · exact Or.inr (Or.inr ⟨_, rfl, hl⟩)

/-- No peer is forgotten. -/
theorem mem_peers_step {p : PeerId} (h : p ∈ persistent.peers) :
    p ∈ (t.step U persistent toc).1.peers := by
  have heffect := t.effect U persistent toc
  generalize t.step U persistent toc = r at heffect ⊢
  cases heffect with
  | inserts name collection => exact h
  | adds hp hrest => exact h
  | learns peers hp huri => exact Persistent.mem_addPeer.mpr (Or.inr h)
  | talks ht hrest => exact h

/-- What a node learns in a step, it has been told. -/
theorem getElem?_step {y : PeerId} {uri : Uri}
    (h : (t.step U persistent toc).1.peers[y]? = some uri) :
    persistent.peers[y]? = some uri ∨ ∃ text, t.Lists ⟨y, text⟩ ∧ U.parse text = .ok uri := by
  cases t with
  | insertCollection name collection => exact Or.inl h
  | addRemotes p => exact Or.inl h
  | answer p => exact Or.inl h
  | bootstrapRemotes p peers => exact Or.inl h
  | bootstrap peers =>
    cases peers with
    | nil => exact Or.inl h
    | cons first peers =>
      rw [step] at h
      split at h
      · exact Or.inl h
      · split at h
        · exact Or.inl h
        · rename_i uri' huri'
          have hget : (persistent.addPeer first.id uri').peers[y]? = some uri := h
          rw [Persistent.getElem?_addPeer] at hget
          split at hget
          · rename_i hid
            rw [Option.some.injEq] at hget
            subst hid hget
            exact Or.inr ⟨first.uri, List.mem_cons_self, huri'⟩
          · exact Or.inl hget

end Task

namespace Server

variable {s : Server X} {a : Action} {p : PeerId} {peer : Peer}

/-- A node never forgets a peer. -/
theorem mem_peers_step (h : p ∈ s.persistent.peers) : p ∈ (s.step U a).persistent.peers := by
  cases a with
  | createCollection name params order => exact h
  | deleteCollection name => exact h
  | bootstrap answer => exact h
  | addPeerToKnown message =>
    rw [step]
    split
    · exact Persistent.mem_addPeer.mpr (Or.inr h)
    · exact h
  | advance i =>
    cases hi : s.tasks[i]? with
    | none => rw [step, hi]; exact h
    | some t =>
      rw [step_advance hi]
      exact Task.mem_peers_step h

/-- What a node learns in a step, it has been told. -/
theorem getElem?_step {y : PeerId} {uri : Uri} (h : (s.step U a).persistent.peers[y]? = some uri) :
    s.persistent.peers[y]? = some uri ∨
      (∃ message, a = .addPeerToKnown message ∧ message.id = y ∧
        message.uri.map U.parse = some (.ok uri)) ∨
      ∃ t ∈ s.tasks, ∃ text, t.Lists ⟨y, text⟩ ∧ U.parse text = .ok uri := by
  cases a with
  | createCollection name params order => exact Or.inl h
  | deleteCollection name => exact Or.inl h
  | bootstrap answer => exact Or.inl h
  | addPeerToKnown message =>
    rw [step] at h
    split at h
    · rename_i uri' huri'
      have hget : (s.persistent.addPeer message.id uri').peers[y]? = some uri := h
      rw [Persistent.getElem?_addPeer] at hget
      split at hget
      · rename_i hid
        rw [Option.some.injEq] at hget
        exact Or.inr (Or.inl ⟨message, rfl, hid, hget ▸ huri'⟩)
      · exact Or.inl hget
    · exact Or.inl h
  | advance i =>
    cases hi : s.tasks[i]? with
    | none =>
      rw [step, hi] at h
      exact Or.inl h
    | some t =>
      rw [step_advance hi] at h
      obtain h | hlists := Task.getElem?_step h
      · exact Or.inl h
      · exact Or.inr (Or.inr ⟨t, List.mem_of_getElem? hi, hlists⟩)

/-- A peer that makes itself known is known. -/
theorem mem_peers_heard {message : AddPeerToKnownMessage} {uri : Uri}
    (h : message.uri.map U.parse = some (.ok uri)) :
    message.id ∈ (s.step U (.addPeerToKnown message)).persistent.peers := by
  rw [step, h]
  exact Persistent.mem_addPeer.mpr (Or.inl rfl)

/-- A peer that is still to be added after a step was so before, or has just been told of. -/
theorem lists_step {t : Task X} (ht : t ∈ (s.step U a).tasks) (hl : t.Lists peer) :
    (∃ t ∈ s.tasks, t.Lists peer) ∨ ∃ answer, a = .bootstrap answer ∧ peer ∈ answer.allPeers := by
  cases a with
  | createCollection name params order =>
    obtain ht | ht := List.mem_append.mp ht
    · exact Or.inl ⟨t, ht, hl⟩
    · rw [List.mem_singleton.mp ht] at hl
      exact hl.elim
  | deleteCollection name => exact Or.inl ⟨t, ht, hl⟩
  | bootstrap answer =>
    obtain ht | ht := List.mem_append.mp ht
    · exact Or.inl ⟨t, ht, hl⟩
    · rw [List.mem_singleton.mp ht] at hl
      exact Or.inr ⟨answer, rfl, hl⟩
  | addPeerToKnown message =>
    rw [step] at ht
    split at ht
    · obtain ht | ht := List.mem_append.mp ht
      · exact Or.inl ⟨t, ht, hl⟩
      · rw [List.mem_singleton.mp ht] at hl
        exact hl.elim
    · exact Or.inl ⟨t, ht, hl⟩
  | advance i =>
    cases hi : s.tasks[i]? with
    | none =>
      rw [step, hi] at ht
      exact Or.inl ⟨t, ht, hl⟩
    | some t₀ =>
      rw [step_advance hi] at ht
      obtain ht | ht := mem_tasks_advance ht
      · exact Or.inl ⟨t, ht, hl⟩
      · exact Or.inl ⟨t₀, List.mem_of_getElem? hi, Task.lists_step ht hl⟩

/-- The node knows the peer, or is about to. -/
def Settles (self : Server X) (peer : Peer) : Prop :=
  peer.id ∈ self.persistent.peers ∨ ∃ t ∈ self.tasks, t.Lists peer

/-- A peer that a node has been told of is not lost on the way. -/
theorem Settles.step (hown : s.persistent.peerId ∈ s.persistent.peers)
    (hparse : ∀ t ∈ s.tasks, ∀ peer, t.Lists peer → ∃ uri, U.parse peer.uri = .ok uri)
    (h : s.Settles peer) : (s.step U a).Settles peer := by
  obtain h | ⟨t, ht, hl⟩ := h
  · exact Or.inl (mem_peers_step h)
  · cases a with
    | createCollection name params order => exact Or.inr ⟨t, List.mem_append_left _ ht, hl⟩
    | deleteCollection name => exact Or.inr ⟨t, ht, hl⟩
    | bootstrap answer => exact Or.inr ⟨t, List.mem_append_left _ ht, hl⟩
    | addPeerToKnown message =>
      rw [Server.step]
      split
      · exact Or.inr ⟨t, List.mem_append_left _ ht, hl⟩
      · exact Or.inr ⟨t, ht, hl⟩
    | advance i =>
      cases hi : s.tasks[i]? with
      | none => rw [Server.step, hi]; exact Or.inr ⟨t, ht, hl⟩
      | some t₀ =>
        obtain ⟨j, hj⟩ := List.mem_iff_getElem?.mp ht
        rw [step_advance hi]
        by_cases hij : j = i
        · -- it is this operation that goes on
          rw [hij, hi, Option.some.injEq] at hj
          subst hj
          obtain hself | hmem | ⟨rest, hrest, hl⟩ :=
            Task.settles_step s.persistent s.toc (hparse t₀ ht) hl
          · rw [← hself] at hown
            exact Or.inl (Task.mem_peers_step hown)
          · exact Or.inl hmem
          · refine Or.inr ⟨rest, List.mem_append_right _ ?_, hl⟩
            rw [Option.mem_toList]
            exact hrest
        · exact Or.inr ⟨t, List.mem_append_left _
            (List.mem_eraseIdx_iff_getElem?.mpr ⟨j, hij, hj⟩), hl⟩

end Server

/-! ## The invariant -/

namespace Network

/-- The URI a node has announced itself with. -/
def Announces (self : Network X) (p : PeerId) (uri : Uri) : Prop :=
  ∃ s, self.nodes p = some s ∧ s.p2pUri = uri

/-- Why a node should list another: it is the node itself, or it has bootstrapped from the node, or
the node has been told of it when it joined. -/
def Linked (self : Network X) (x y : PeerId) : Prop :=
  y = x ∨ (∃ j ∈ self.joins, j.joiner = y ∧ j.via = x) ∨
    ∃ j ∈ self.joins, j.joiner = x ∧ ∃ answer, j.stage = .completed answer ∧
      ∃ peer ∈ answer.allPeers, peer.id = y

/-- What holds of a node. -/
structure NodeOk (U : UriCrate) (net : Network X) (x : PeerId) (s : Server X) : Prop where
  peerId : s.persistent.peerId = x
  uri : U.parse s.p2pUri = .ok s.p2pUri
  own : x ∈ s.persistent.peers
  known : ∀ y uri, s.persistent.peers[y]? = some uri → net.Announces y uri ∧ net.Linked x y
  told : ∀ t ∈ s.tasks, ∀ peer, t.Lists peer → net.Announces peer.id peer.uri ∧
    ∃ j ∈ net.joins, j.joiner = x ∧ ∃ answer, j.stage = .completed answer ∧ peer ∈ answer.allPeers

/-- What holds of an answer: the URIs are right, and the node that sent it is in it. -/
structure AnswerOk (net : Network X) (via : PeerId) (answer : AllPeers) : Prop where
  announced : ∀ peer ∈ answer.allPeers, net.Announces peer.id peer.uri
  via : ∃ peer ∈ answer.allPeers, peer.id = via

/-- What holds of a join, with the nodes it is between. -/
def StageOk (net : Network X) (j : Join) (joiner via : Server X) : Join.Stage → Prop
  | .requested message => message.id = j.joiner ∧ message.uri = some joiner.p2pUri
  | .received => j.joiner ∈ via.persistent.peers
  | .answered answer => j.joiner ∈ via.persistent.peers ∧ net.AnswerOk j.via answer
  | .completed answer => j.joiner ∈ via.persistent.peers ∧ net.AnswerOk j.via answer ∧
    ∀ peer ∈ answer.allPeers, joiner.Settles peer

/-- What holds of a join. -/
def JoinOk (net : Network X) (j : Join) : Prop :=
  ∃ joiner via, net.nodes j.joiner = some joiner ∧ net.nodes j.via = some via ∧
    net.StageOk j joiner via j.stage

/-- What holds of a cluster. -/
structure Consistent (U : UriCrate) (net : Network X) : Prop where
  nodes : ∀ x s, net.nodes x = some s → net.NodeOk U x s
  joins : ∀ j ∈ net.joins, net.JoinOk j

theorem Consistent.parse {net : Network X} (h : net.Consistent U) {p : PeerId} {uri : Uri}
    (ha : net.Announces p uri) : U.parse uri = .ok uri := by
  obtain ⟨s, hs, rfl⟩ := ha
  exact (h.nodes p s hs).uri

/-- A cluster with everything a cluster had before it, and what has come of that. -/
structure Extends (net net' : Network X) : Prop where
  nodes : ∀ p s, net.nodes p = some s → ∃ s', net'.nodes p = some s' ∧ s'.p2pUri = s.p2pUri ∧
    (∀ q ∈ s.persistent.peers, q ∈ s'.persistent.peers) ∧ ∀ peer, s.Settles peer → s'.Settles peer
  joins : ∀ j ∈ net.joins, ∃ j' ∈ net'.joins, j'.joiner = j.joiner ∧ j'.via = j.via ∧
    ∀ answer, j.stage = .completed answer → j'.stage = .completed answer

section Extends

variable {net net' : Network X} (h : net.Extends net')

include h

theorem Extends.announces {p : PeerId} {uri : Uri} (ha : net.Announces p uri) :
    net'.Announces p uri := by
  obtain ⟨s, hs, rfl⟩ := ha
  obtain ⟨s', hs', huri, -⟩ := h.nodes p s hs
  exact ⟨s', hs', huri⟩

theorem Extends.told {x : PeerId} {peer : Peer} (ht : ∃ j ∈ net.joins, j.joiner = x ∧
      ∃ answer, j.stage = .completed answer ∧ peer ∈ answer.allPeers) :
    ∃ j ∈ net'.joins, j.joiner = x ∧ ∃ answer, j.stage = .completed answer ∧
      peer ∈ answer.allPeers := by
  obtain ⟨j, hj, hx, answer, hstage, hpeer⟩ := ht
  obtain ⟨j', hj', hjoiner, -, hkeep⟩ := h.joins j hj
  exact ⟨j', hj', hjoiner.trans hx, answer, hkeep answer hstage, hpeer⟩

theorem Extends.linked {x y : PeerId} (hl : net.Linked x y) : net'.Linked x y := by
  obtain hl | ⟨j, hj, hy, hx⟩ | ⟨j, hj, hx, answer, hstage, peer, hpeer, hy⟩ := hl
  · exact Or.inl hl
  · obtain ⟨j', hj', hjoiner, hvia, -⟩ := h.joins j hj
    exact Or.inr (Or.inl ⟨j', hj', hjoiner.trans hy, hvia.trans hx⟩)
  · obtain ⟨j', hj', hx', answer', hstage', hpeer'⟩ := h.told ⟨j, hj, hx, answer, hstage, hpeer⟩
    exact Or.inr (Or.inr ⟨j', hj', hx', answer', hstage', peer, hpeer', hy⟩)

theorem Extends.nodeOk {x : PeerId} {s : Server X} (hs : net.NodeOk U x s) : net'.NodeOk U x s where
  peerId := hs.peerId
  uri := hs.uri
  own := hs.own
  known y uri hy := (hs.known y uri hy).imp h.announces h.linked
  told t ht peer hl := (hs.told t ht peer hl).imp h.announces h.told

theorem Extends.answerOk {via : PeerId} {answer : AllPeers} (ha : net.AnswerOk via answer) :
    net'.AnswerOk via answer :=
  ⟨fun peer hpeer ↦ h.announces (ha.announced peer hpeer), ha.via⟩

theorem Extends.joinOk {j : Join} (hj : net.JoinOk j) : net'.JoinOk j := by
  obtain ⟨joiner, via, hjoiner, hvia, hstage⟩ := hj
  obtain ⟨joiner', hjoiner', huri, -, hsettles⟩ := h.nodes _ joiner hjoiner
  obtain ⟨via', hvia', -, hpeers, -⟩ := h.nodes _ via hvia
  refine ⟨joiner', via', hjoiner', hvia', ?_⟩
  revert hstage
  cases j.stage with
  | requested message => exact fun hs ↦ ⟨hs.1, hs.2.trans (congrArg some huri.symm)⟩
  | received => exact fun hs ↦ hpeers _ hs
  | answered answer => exact fun hs ↦ ⟨hpeers _ hs.1, h.answerOk hs.2⟩
  | completed answer =>
    exact fun hs ↦ ⟨hpeers _ hs.1, h.answerOk hs.2.1, fun peer hp ↦ hsettles _ (hs.2.2 peer hp)⟩

/-- What a step leaves of a node. -/
theorem NodeOk.step (hnet : net.Consistent U) {x : PeerId} {s : Server X}
    (hs : net.NodeOk U x s) {a : Server.Action}
    (hheard : ∀ message uri, a = .addPeerToKnown message →
      message.uri.map U.parse = some (.ok uri) →
      net'.Announces message.id uri ∧ net'.Linked x message.id)
    (htold : ∀ answer, a = .bootstrap answer → ∀ peer ∈ answer.allPeers,
      net'.Announces peer.id peer.uri ∧ ∃ j ∈ net'.joins, j.joiner = x ∧
        ∃ answer, j.stage = .completed answer ∧ peer ∈ answer.allPeers) :
    net'.NodeOk U x (s.step U a) where
  peerId := by rw [Server.step_peerId, hs.peerId]
  uri := by rw [Server.step_p2pUri, hs.uri]
  own := Server.mem_peers_step hs.own
  known y uri hy := by
    obtain hy | ⟨message, ha, rfl, huri⟩ | ⟨t, ht, text, hl, huri⟩ := Server.getElem?_step hy
    · exact (hs.known y uri hy).imp h.announces h.linked
    · exact hheard message uri ha huri
    · obtain ⟨hannounced, htold⟩ := hs.told t ht _ hl
      -- what has been announced is parsed as it is
      rw [hnet.parse hannounced, Except.ok.injEq] at huri
      subst huri
      obtain ⟨j, hj, hx, answer, hstage, hpeer⟩ := h.told htold
      exact ⟨h.announces hannounced, Or.inr (Or.inr ⟨j, hj, hx, answer, hstage, _, hpeer, rfl⟩)⟩
  told t ht peer hl := by
    obtain ⟨t₀, ht₀, hl₀⟩ | ⟨answer, ha, hpeer⟩ := Server.lists_step ht hl
    · exact (hs.told t₀ ht₀ peer hl₀).imp h.announces h.told
    · exact htold answer ha peer hpeer

end Extends

section Step

variable {net : Network X}

/-- A node that is stepped keeps what it has settled. -/
theorem Consistent.settles (h : net.Consistent U) {x : PeerId} {s : Server X}
    (hs : net.nodes x = some s) {peer : Peer} (hsettles : s.Settles peer) (a : Server.Action) :
    (s.step U a).Settles peer := by
  have hok := h.nodes x s hs
  refine hsettles.step (by rw [hok.peerId]; exact hok.own) fun t ht peer hl ↦ ?_
  exact ⟨_, h.parse (hok.told t ht peer hl).1⟩

/-- A cluster in which a node has taken a step and joins have got further. -/
theorem Consistent.extends (h : net.Consistent U) {x : PeerId} {s : Server X}
    (hs : net.nodes x = some s) (a : Server.Action) {joins : List Join}
    (hjoins : ∀ j ∈ net.joins, ∃ j' ∈ joins, j'.joiner = j.joiner ∧ j'.via = j.via ∧
      ∀ answer, j.stage = .completed answer → j'.stage = .completed answer) :
    net.Extends ⟨Function.update net.nodes x (some (s.step U a)), joins⟩ where
  nodes p s₀ hs₀ := by
    by_cases hp : p = x
    · subst hp
      rw [hs, Option.some.injEq] at hs₀
      subst hs₀
      exact ⟨s.step U a, Function.update_self .., Server.step_p2pUri,
        fun q hq ↦ Server.mem_peers_step hq, fun peer hsettles ↦ h.settles hs hsettles a⟩
    · exact ⟨s₀, (Function.update_of_ne hp ..).trans hs₀, rfl, fun q hq ↦ hq, fun peer hp ↦ hp⟩
  joins := hjoins

/-- **The step lemma**: a node takes a step, and joins get further by it. -/
theorem Consistent.stepped (h : net.Consistent U) {x : PeerId} {s : Server X}
    (hs : net.nodes x = some s) {a : Server.Action} {joins : List Join}
    (hjoins : ∀ j ∈ net.joins, ∃ j' ∈ joins, j'.joiner = j.joiner ∧ j'.via = j.via ∧
      ∀ answer, j.stage = .completed answer → j'.stage = .completed answer)
    (hnew : ∀ j ∈ joins, j ∈ net.joins ∨
      JoinOk ⟨Function.update net.nodes x (some (s.step U a)), joins⟩ j)
    (hheard : ∀ message uri, a = .addPeerToKnown message →
      message.uri.map U.parse = some (.ok uri) →
      net.Announces message.id uri ∧ ∃ j ∈ joins, j.joiner = message.id ∧ j.via = x)
    (htold : ∀ answer, a = .bootstrap answer →
      (∀ peer ∈ answer.allPeers, net.Announces peer.id peer.uri) ∧
        ∃ j ∈ joins, j.joiner = x ∧ j.stage = .completed answer) :
    Consistent U ⟨Function.update net.nodes x (some (s.step U a)), joins⟩ := by
  have hext := h.extends hs a hjoins
  refine ⟨fun p s₀ hs₀ ↦ ?_, fun j hj ↦ ?_⟩
  · by_cases hp : p = x
    · subst hp
      simp only [Function.update_self, Option.some.injEq] at hs₀
      subst hs₀
      refine NodeOk.step hext h (h.nodes p s hs) (fun message uri ha huri ↦ ?_)
        fun answer ha peer hpeer ↦ ?_
      · obtain ⟨hannounced, j, hj, hjoiner, hvia⟩ := hheard message uri ha huri
        exact ⟨hext.announces hannounced, Or.inr (Or.inl ⟨j, hj, hjoiner, hvia⟩)⟩
      · obtain ⟨hannounced, j, hj, hjoiner, hstage⟩ := htold answer ha
        exact ⟨hext.announces (hannounced peer hpeer), j, hj, hjoiner, answer, hstage, hpeer⟩
    · simp only [Function.update_of_ne hp] at hs₀
      exact hext.nodeOk (h.nodes p s₀ hs₀)
  · obtain hj | hj := hnew j hj
    · exact hext.joinOk (h.joins j hj)
    · exact hj

/-- Joins, one of which gets to another stage. -/
theorem setStage_joins {joins : List Join} {i : ℕ} {j : Join} (hi : joins[i]? = some j)
    (hopen : ∀ answer, j.stage ≠ .completed answer) (stage : Join.Stage) :
    ∀ j₀ ∈ joins, ∃ j' ∈ joins.set i { j with stage := stage },
      j'.joiner = j₀.joiner ∧ j'.via = j₀.via ∧
      ∀ answer, j₀.stage = .completed answer → j'.stage = .completed answer := by
  intro j₀ hj₀
  obtain ⟨k, hk⟩ := List.mem_iff_getElem?.mp hj₀
  by_cases hik : i = k
  · subst hik
    rw [hi, Option.some.injEq] at hk
    subst hk
    refine ⟨{ j with stage := stage }, ?_, rfl, rfl, fun answer hs ↦ absurd hs (hopen answer)⟩
    exact List.mem_set (List.getElem?_eq_some_iff.mp hi).1 _
  · refine ⟨j₀, List.mem_iff_getElem?.mpr ⟨k, ?_⟩, rfl, rfl, fun _ hs ↦ hs⟩
    rw [List.getElem?_set_ne hik, hk]

/-- The message of a join arrives. -/
theorem Consistent.request (h : net.Consistent U) (i : ℕ) :
    (net.step U (.request i)).Consistent U := by
  rw [step]
  cases hi : net.joins[i]? with
  | none => exact h
  | some j =>
    obtain ⟨sj, sv, hsj, hsv, hstage⟩ := h.joins j (List.mem_of_getElem? hi)
    cases hs : j.stage with
    | received => simp only [hs]; exact h
    | answered answer => simp only [hs]; exact h
    | completed answer => simp only [hs]; exact h
    | requested message =>
      simp only [hs]
      rw [hs] at hstage
      obtain ⟨hid, huri⟩ := hstage
      have hparse : message.uri.map U.parse = some (.ok sj.p2pUri) := by
        rw [huri, Option.map_some, (h.nodes _ sj hsj).uri]
      have hjoins := setStage_joins hi (by simp [hs]) .received
      have hext := h.extends hsv (.addPeerToKnown message) hjoins
      rw [stepAt, hsv, setStage]
      refine h.stepped hsv hjoins (fun j' hj' ↦ ?_) (fun m uri ha hm ↦ ?_)
        fun answer ha ↦ by cases ha
      · obtain hj' | rfl := List.mem_or_eq_of_mem_set hj'
        · exact Or.inl hj'
        · obtain ⟨sj', hsj', -⟩ := hext.nodes _ sj hsj
          refine Or.inr ⟨sj', _, hsj', Function.update_self .., ?_⟩
          rw [← hid]
          exact Server.mem_peers_heard hparse
      · obtain rfl := Server.Action.addPeerToKnown.inj ha
        rw [hparse, Option.some.injEq, Except.ok.injEq] at hm
        exact ⟨⟨sj, hid ▸ hsj, hm⟩, { j with stage := .received },
          List.mem_set (List.getElem?_eq_some_iff.mp hi).1 _, hid.symm, rfl⟩

/-- The answer of a join arrives. -/
theorem Consistent.answer (h : net.Consistent U) (i : ℕ) :
    (net.step U (.answer i)).Consistent U := by
  rw [step]
  cases hi : net.joins[i]? with
  | none => exact h
  | some j =>
    obtain ⟨sj, sv, hsj, hsv, hstage⟩ := h.joins j (List.mem_of_getElem? hi)
    cases hs : j.stage with
    | received => simp only [hs]; exact h
    | requested message => simp only [hs]; exact h
    | completed answer => simp only [hs]; exact h
    | answered answer =>
      simp only [hs]
      rw [hs] at hstage
      obtain ⟨hmem, hanswer⟩ := hstage
      have hjoins := setStage_joins hi (by simp [hs]) (.completed answer)
      have hext := h.extends hsj (.bootstrap answer) hjoins
      rw [stepAt, hsj, setStage]
      refine h.stepped hsj hjoins (fun j' hj' ↦ ?_) (fun m uri ha hm ↦ by cases ha) fun a ha ↦ ?_
      · obtain hj' | rfl := List.mem_or_eq_of_mem_set hj'
        · exact Or.inl hj'
        · obtain ⟨sv', hsv', -, hpeers, -⟩ := hext.nodes _ sv hsv
          refine Or.inr ⟨_, sv', Function.update_self .., hsv', hpeers _ hmem,
            hext.answerOk hanswer, fun peer hpeer ↦ ?_⟩
          exact Or.inr ⟨_, List.mem_append_right _ (List.mem_singleton_self _), hpeer⟩
      · obtain rfl := Server.Action.bootstrap.inj ha
        exact ⟨hanswer.announced, { j with stage := .completed answer },
          List.mem_set (List.getElem?_eq_some_iff.mp hi).1 _, rfl, rfl⟩

/-- A node takes a step that no other node is told of. -/
theorem Consistent.stepAt (h : net.Consistent U) (peer : PeerId) {a : Server.Action}
    (hheard : ∀ message, a ≠ .addPeerToKnown message) (htold : ∀ answer, a ≠ .bootstrap answer) :
    (net.stepAt U peer a).Consistent U := by
  rw [Network.stepAt]
  cases hs : net.nodes peer with
  | none => exact h
  | some s =>
    exact h.stepped hs (fun j hj ↦ ⟨j, hj, rfl, rfl, fun _ hs ↦ hs⟩) (fun j hj ↦ Or.inl hj)
      (fun message _ ha _ ↦ absurd ha (hheard message)) fun answer ha ↦ absurd ha (htold answer)

/-- A node sends its answer, and goes on. -/
theorem Consistent.sendAnswer (h : net.Consistent U) {x : PeerId} {s : Server X}
    (hs : net.nodes x = some s) (joiner : PeerId) (i : ℕ) :
    ((net.sendAnswer x s joiner).stepAt U x (.advance i)).Consistent U := by
  have hnodes : (net.sendAnswer x s joiner).nodes x = some s := hs
  rw [Network.stepAt, hnodes]
  have hjoins : ∀ j ∈ net.joins, ∃ j' ∈ (net.sendAnswer x s joiner).joins,
      j'.joiner = j.joiner ∧ j'.via = j.via ∧
      ∀ answer, j.stage = .completed answer → j'.stage = .completed answer := by
    intro j hj
    refine ⟨_, List.mem_map_of_mem hj, ?_⟩
    cases hstage : j.stage with
    | received =>
      simp only
      split
      · exact ⟨rfl, rfl, by simp⟩
      · exact ⟨rfl, rfl, by simp⟩
    | requested message => exact ⟨rfl, rfl, by simp⟩
    | answered answer => exact ⟨rfl, rfl, by simp⟩
    | completed answer => exact ⟨rfl, rfl, fun answer hc ↦ hstage.trans hc⟩
  have hext := h.extends hs (.advance i) hjoins
  refine h.stepped hs hjoins (fun j' hj' ↦ ?_) (fun m _ ha _ ↦ by cases ha) fun a ha ↦ by cases ha
  obtain ⟨j, hj, rfl⟩ := List.mem_map.mp hj'
  cases hstage : j.stage with
  | received =>
    simp only
    split
    · rename_i hj₀
      obtain ⟨sj, sv, hsj, hsv, hok⟩ := h.joins j hj
      rw [hj₀.2, hs, Option.some.injEq] at hsv
      subst hsv
      rw [hstage] at hok
      obtain ⟨sj', hsj', -⟩ := hext.nodes _ sj hsj
      have hnode := h.nodes x s hs
      refine Or.inr ⟨sj', s.step U (.advance i), hsj', ?_, Server.mem_peers_step hok, ?_, ?_⟩
      · rw [hj₀.2]
        exact Function.update_self ..
      · intro peer hpeer
        exact hext.announces (hnode.known _ _ (Persistent.mem_allPeers.mp hpeer)).1
      · obtain ⟨uri, huri⟩ := Option.isSome_iff_exists.mp
          (Std.ExtTreeMap.isSome_getElem?_iff_mem.mpr hnode.own)
        exact ⟨⟨x, uri⟩, Persistent.mem_allPeers.mpr huri, hj₀.2.symm⟩
    · exact Or.inl hj
  | requested message => exact Or.inl hj
  | answered answer => exact Or.inl hj
  | completed answer => exact Or.inl hj

/-- A node that is started knows itself and nobody else. -/
theorem nodeOk_start {p2pUri : Uri} (huri : U.parse p2pUri = .ok p2pUri) (x : PeerId)
    (toc : TableOfContent X) {net : Network X}
    (hx : net.nodes x = some (.start p2pUri x toc)) : net.NodeOk U x (.start p2pUri x toc) where
  peerId := rfl
  uri := huri
  own := ConsensusState.mem_dummy.mpr rfl
  known y uri hy := by
    rw [Server.start, ConsensusState.getElem?_dummy] at hy
    split at hy
    · rename_i hxy
      rw [Option.some.injEq] at hy
      subst hxy hy
      exact ⟨⟨_, hx, rfl⟩, Or.inl rfl⟩
    · exact nomatch hy
  told t ht := nomatch ht

/-- A node is started to join the cluster. -/
theorem Consistent.join (h : net.Consistent U) (joiner : PeerId) (p2pUrl : String)
    (toc : TableOfContent X) (via : PeerId) :
    (net.step U (.join joiner p2pUrl toc via)).Consistent U := by
  rw [step]
  split
  · rename_i p2pUri sv hurl hnone hvia
    have huri := U.parse_display _ _ hurl
    have hmessage : (Server.start p2pUri joiner toc).persistent.bootstrapMessage
        = .ok ⟨some p2pUri, some 9920, joiner⟩ := by
      have hown : (ConsensusState.dummy p2pUri joiner).peers[joiner]? = some p2pUri := by
        rw [ConsensusState.getElem?_dummy, if_pos rfl]
      rw [Server.start, Persistent.bootstrapMessage]
      simp only [ConsensusState.dummy_peerId, hown]
    simp only [hmessage]
    have hother : ∀ p s, net.nodes p = some s → p ≠ joiner := by
      rintro p s hs rfl
      rw [hnone] at hs
      cases hs
    have hext : net.Extends ⟨Function.update net.nodes joiner (some (.start p2pUri joiner toc)),
        net.joins ++ [⟨joiner, via, .requested ⟨some p2pUri, some 9920, joiner⟩⟩]⟩ := by
      refine ⟨fun p s hs ↦ ?_, fun j hj ↦ ?_⟩
      · exact ⟨s, (Function.update_of_ne (hother p s hs) ..).trans hs, rfl, fun q hq ↦ hq,
          fun peer hp ↦ hp⟩
      · exact ⟨j, List.mem_append_left _ hj, rfl, rfl, fun _ hs ↦ hs⟩
    refine ⟨fun p s hs ↦ ?_, fun j hj ↦ ?_⟩
    · by_cases hp : p = joiner
      · subst hp
        simp only [Function.update_self, Option.some.injEq] at hs
        subst hs
        exact nodeOk_start huri p toc (Function.update_self ..)
      · simp only [Function.update_of_ne hp] at hs
        exact hext.nodeOk (h.nodes p s hs)
    · obtain hj | hj := List.mem_append.mp hj
      · exact hext.joinOk (h.joins j hj)
      · rw [List.mem_singleton.mp hj]
        exact ⟨_, sv, Function.update_self ..,
          (Function.update_of_ne (hother via sv hvia) ..).trans hvia, rfl, rfl⟩
  · exact h

/-- Every step of a cluster keeps the invariant. -/
theorem Consistent.step (h : net.Consistent U) (a : Action X) : (net.step U a).Consistent U := by
  cases a with
  | join joiner p2pUrl toc via => exact h.join joiner p2pUrl toc via
  | request i => exact h.request i
  | answer i => exact h.answer i
  | advance peer i =>
    rw [Network.step]
    split
    · exact h
    · rename_i s hs
      split
      · exact h.sendAnswer hs _ i
      · exact h.stepAt peer (fun _ hm ↦ by cases hm) fun _ ha ↦ by cases ha
  | createCollection peer name params order =>
    exact h.stepAt peer (fun _ hm ↦ by cases hm) fun _ ha ↦ by cases ha
  | deleteCollection peer name =>
    exact h.stepAt peer (fun _ hm ↦ by cases hm) fun _ ha ↦ by cases ha

end Step

/-- No join is in flight. -/
def Quiet (self : Network X) : Prop :=
  ∀ j ∈ self.joins, (∃ answer, j.stage = .completed answer) ∧
    ∀ s, self.nodes j.joiner = some s → ∀ t ∈ s.tasks, ∃ name c, t = .insertCollection name c

theorem Announces.unique {net : Network X} {p : PeerId} {uri uri' : Uri} (h : net.Announces p uri)
    (h' : net.Announces p uri') : uri = uri' := by
  obtain ⟨s, hs, rfl⟩ := h
  obtain ⟨s', hs', rfl⟩ := h'
  rw [hs, Option.some.injEq] at hs'
  rw [hs']

end Network

namespace Network

theorem Reachable.run {net : Network X} (h : net.Reachable U J) {actions : List (Action X)}
    (hproper : ∀ a ∈ actions, a.Proper J) : (net.run U actions).Reachable U J := by
  induction actions generalizing net with
  | nil => exact h
  | cons a actions ih =>
    exact ih (h.step (hproper a List.mem_cons_self)) fun b hb ↦
        hproper b (List.mem_cons_of_mem _ hb)

/-- A cluster is quiet if its joins are completed and the nodes that joined have nothing to do. -/
theorem quiet_of_idle {net : Network X} (h : ∀ j ∈ net.joins,
    (∃ answer, j.stage = .completed answer) ∧
    (net.nodes j.joiner).map Server.tasks = some []) : net.Quiet := by
  intro j hj
  refine ⟨(h j hj).1, fun s hs t ht ↦ ?_⟩
  have htasks := (h j hj).2
  rw [hs, Option.map_some, Option.some.injEq] at htasks
  rw [htasks] at ht
  exact nomatch ht

end Network

end Smoldb
