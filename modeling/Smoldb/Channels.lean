import Smoldb.Types
import Smoldb.Lib.Runs

/-!
# The channel pool

`get_or_create_channel` looks for a channel under the read lock of the pool.  If there is none it
drops that lock, and it makes a channel under the write lock and puts it into the map.  A call goes
on in these two sections, and the sections of several calls come in any order.

`PoolCalls` is the pool with the calls that have begun, and `PoolStep` is the next section of one of
them; a call that has to make a channel may also fail to connect.  Channels are numbered in the
order in which they are made, so that it can be said whether two of them are the same.

Nothing is looked up again under the write lock.  `channels_shared_iff` says what a run must not do
for the calls to share their channels: a call must not get to its second section when there is a
channel for its URI by then (`Replaces`).  As long as none does, every channel that was made is in
the map (`Created`), and a call that has a channel has the one that is in the map (`Held`).
-/

set_option autoImplicit false

namespace Smoldb

/-- A channel, as the number of channels that were made before it. -/
abbrev Channel := ℕ

/-- `TransportChannelPool`, with the URIs that channels have been made for so far. -/
structure TransportChannelPool (U : Type) where
  uriToChannel : HashMap U Channel
  created : List U

/-- Where a call of `get_or_create_channel` is. -/
inductive ChannelCall (U : Type) where
  /-- It waits for the read lock. -/
  | begun (uri : U)
  /-- It has found nothing, and waits for the write lock. -/
  | missed (uri : U)
  | returned (uri : U) (result : Except String Channel)

variable {U : Type} [DecidableEq U]

namespace TransportChannelPool

/-- `make_default_grpc_channel`, with what becomes of the connection. -/
def makeChannel (self : TransportChannelPool U) (uri : U) :
    Except String Unit → TransportChannelPool U × Except String Channel
  | .ok () => ({ self with created := self.created ++ [uri] }, .ok self.created.length)
  | .error e => (self, .error e)

/-- What `get_or_create_channel` does under the read lock. -/
def readSection (self : TransportChannelPool U) (uri : U) : ChannelCall U :=
  match self.uriToChannel.lookup uri with
  | some channel => .returned uri (.ok channel)
  | none => .missed uri

/-- What `get_or_create_channel` does under the write lock. -/
def writeSection (self : TransportChannelPool U) (uri : U) (connection : Except String Unit) :
    TransportChannelPool U × ChannelCall U :=
  match self.makeChannel uri connection with
  | (self, .ok channel) =>
    ({ self with uriToChannel := self.uriToChannel.insert uri channel },
      .returned uri (.ok channel))
  | (self, .error e) => (self, .returned uri (.error e))

end TransportChannelPool

/-- A pool and the calls to it. -/
structure PoolCalls (U : Type) where
  pool : TransportChannelPool U
  calls : List (ChannelCall U)

/-- One of the calls goes on, and this becomes of the connection if it makes one. -/
structure PoolStep where
  call : ℕ
  connection : Except String Unit

namespace PoolCalls

/-- A new pool, and calls with these URIs. -/
def new (uris : List U) : PoolCalls U := ⟨⟨∅, []⟩, uris.map .begun⟩

/-- A call goes through its next section. -/
def step (self : PoolCalls U) (a : PoolStep) : PoolCalls U :=
  match self.calls[a.call]? with
  | some (.begun uri) =>
    { self with calls := self.calls.set a.call (self.pool.readSection uri) }
  | some (.missed uri) =>
    let (pool, call) := self.pool.writeSection uri a.connection
    ⟨pool, self.calls.set a.call call⟩
  | _ => self

/-- The calls go on in this order. -/
def run (uris : List U) (steps : List PoolStep) : PoolCalls U := steps.foldl step (new uris)

/-- A call that has found nothing makes a channel for a URI that has one by now. -/
def Replaces (self : PoolCalls U) (a : PoolStep) : Prop :=
  ∃ uri, self.calls[a.call]? = some (.missed uri) ∧ a.connection = .ok () ∧
    (self.pool.uriToChannel.lookup uri).isSome

/-- The pool shares one channel per URI all along a run. -/
structure Shares (uris : List U) (steps : List PoolStep) : Prop where
  /-- The map only holds channels that were made for their URI. -/
  created : ∀ done, done <+: steps → ∀ uri channel,
    (run uris done).pool.uriToChannel.lookup uri = some channel →
      (run uris done).pool.created[channel]? = some uri
  /-- No entry is replaced. -/
  kept : ∀ done a, done ++ [a] <+: steps → ∀ uri channel,
    (run uris done).pool.uriToChannel.lookup uri = some channel →
      (run uris (done ++ [a])).pool.uriToChannel.lookup uri = some channel
  /-- A failed attempt leaves the map alone. -/
  failed : ∀ done a, done ++ [a] <+: steps → ∀ e, a.connection = .error e →
    (run uris (done ++ [a])).pool.uriToChannel = (run uris done).pool.uriToChannel
  /-- Calls for the same URI return the same channel. -/
  same : ∀ done, done <+: steps → ∀ (i j : ℕ) uri channel channel',
    (run uris done).calls[i]? = some (.returned uri (.ok channel)) →
    (run uris done).calls[j]? = some (.returned uri (.ok channel')) → channel = channel'

/-! ## What a section does -/

variable {s : PoolCalls U} {a : PoolStep}

omit [DecidableEq U] in
/-- A call that returns a channel has it from before, or it is the one that goes on. -/
theorem returned_of_set {call : ChannelCall U} {i : ℕ} {uri : U} {channel : Channel}
    (h : (s.calls.set a.call call)[i]? = some (.returned uri (.ok channel))) :
    s.calls[i]? = some (.returned uri (.ok channel)) ∨ call = .returned uri (.ok channel) := by
  rw [List.getElem?_set] at h
  split at h
  · split at h
    · exact Or.inr (Option.some.inj h)
    · exact nomatch h
  · exact Or.inl h

/-- A channel is made. -/
theorem step_made {uri : U} (hmissed : s.calls[a.call]? = some (.missed uri))
    (hok : a.connection = .ok ()) :
    s.step a = ⟨⟨s.pool.uriToChannel.insert uri s.pool.created.length, s.pool.created ++ [uri]⟩,
      s.calls.set a.call (.returned uri (.ok s.pool.created.length))⟩ := by
  rw [step, hmissed]
  simp only [TransportChannelPool.writeSection, hok, TransportChannelPool.makeChannel]

/-- **What a step does.**  It leaves the pool alone and returns only what is there, unless a channel
is made. -/
theorem step_cases (s : PoolCalls U) (a : PoolStep) :
    ((s.step a).pool = s.pool ∧ ∀ (i : ℕ) uri channel,
      (s.step a).calls[i]? = some (.returned uri (.ok channel)) →
        s.calls[i]? = some (.returned uri (.ok channel)) ∨
          s.pool.uriToChannel.lookup uri = some channel) ∨
    ∃ uri, s.calls[a.call]? = some (.missed uri) ∧ a.connection = .ok () := by
  cases hcall : s.calls[a.call]? with
  | none =>
    rw [step, hcall]
    exact Or.inl ⟨rfl, fun i uri channel h ↦ Or.inl h⟩
  | some call =>
    cases call with
    | begun uri =>
      rw [step, hcall]
      refine Or.inl ⟨rfl, fun i uri' channel h ↦ ?_⟩
      refine (returned_of_set h).imp_right fun hread ↦ ?_
      rw [TransportChannelPool.readSection] at hread
      cases hlookup : s.pool.uriToChannel.lookup uri with
      | none =>
        rw [hlookup] at hread
        exact nomatch hread
      | some found =>
        rw [hlookup] at hread
        obtain ⟨rfl, hfound⟩ := ChannelCall.returned.inj hread
        rw [hlookup, Except.ok.inj hfound]
    | missed uri =>
      cases hconnection : a.connection with
      | error e =>
        rw [step, hcall]
        simp only [TransportChannelPool.writeSection, hconnection, TransportChannelPool.makeChannel]
        refine Or.inl ⟨trivial, fun i uri' channel h ↦ ?_⟩
        exact (returned_of_set h).imp_right fun hwrite ↦ nomatch hwrite
      | ok => exact Or.inr ⟨uri, rfl, rfl⟩
    | returned uri result =>
      rw [step, hcall]
      exact Or.inl ⟨rfl, fun i uri channel h ↦ Or.inl h⟩

/-- A failed attempt leaves the map alone. -/
theorem step_failed {e : String} (h : a.connection = .error e) :
    (s.step a).pool.uriToChannel = s.pool.uriToChannel := by
  obtain ⟨hpool, -⟩ | ⟨uri, -, hok⟩ := s.step_cases a
  · rw [hpool]
  · exact nomatch h.symm.trans hok

/-- The map only holds channels that were made for their URI. -/
def Created (s : PoolCalls U) : Prop :=
  ∀ uri channel, s.pool.uriToChannel.lookup uri = some channel →
    s.pool.created[channel]? = some uri

theorem Created.step (h : s.Created) (a : PoolStep) : (s.step a).Created := by
  intro uri channel hlookup
  obtain ⟨hpool, -⟩ | ⟨made, hmissed, hok⟩ := s.step_cases a
  · rw [hpool] at hlookup ⊢
    exact h uri channel hlookup
  · rw [step_made hmissed hok] at hlookup ⊢
    simp only at hlookup ⊢
    by_cases huri : uri = made
    · subst huri
      rw [AList.lookup_insert] at hlookup
      rw [← Option.some.inj hlookup, List.getElem?_concat_length]
    · rw [AList.lookup_insert_ne huri] at hlookup
      have hold := h uri channel hlookup
      have hlt := (List.getElem?_eq_some_iff.mp hold).1
      rwa [List.getElem?_append_left hlt]

/-- What has been returned is still in the map. -/
def Held (s : PoolCalls U) : Prop :=
  ∀ (i : ℕ) uri channel, s.calls[i]? = some (.returned uri (.ok channel)) →
    s.pool.uriToChannel.lookup uri = some channel

/-- An entry is kept, unless a call replaces it. -/
theorem step_kept (ha : ¬ s.Replaces a) {uri : U} {channel : Channel}
    (h : s.pool.uriToChannel.lookup uri = some channel) :
    (s.step a).pool.uriToChannel.lookup uri = some channel := by
  obtain ⟨hpool, -⟩ | ⟨made, hmissed, hok⟩ := s.step_cases a
  · rwa [hpool]
  · have huri : uri ≠ made := by
      rintro rfl
      exact ha ⟨uri, hmissed, hok, by rw [h]; rfl⟩
    rw [step_made hmissed hok]
    exact (AList.lookup_insert_ne huri).trans h

theorem Held.step (h : s.Held) (ha : ¬ s.Replaces a) : (s.step a).Held := by
  intro i uri channel hcall
  obtain ⟨hpool, hcalls⟩ | ⟨made, hmissed, hok⟩ := s.step_cases a
  · rw [hpool]
    exact (hcalls i uri channel hcall).elim (h i uri channel) id
  · rw [step_made hmissed hok] at hcall
    obtain hold | hnew := returned_of_set hcall
    · exact step_kept ha (h i uri channel hold)
    · obtain ⟨rfl, hchannel⟩ := ChannelCall.returned.inj hnew
      rw [step_made hmissed hok, ← Except.ok.inj hchannel]
      exact AList.lookup_insert _

/-- A call that replaces an entry puts another channel in its place. -/
theorem Replaces.not_kept (ha : s.Replaces a) (hcreated : s.Created) :
    ∃ uri channel, s.pool.uriToChannel.lookup uri = some channel ∧
      (s.step a).pool.uriToChannel.lookup uri ≠ some channel := by
  obtain ⟨uri, hmissed, hok, hthere⟩ := ha
  obtain ⟨channel, hchannel⟩ := Option.isSome_iff_exists.mp hthere
  have hlt := (List.getElem?_eq_some_iff.mp (hcreated uri channel hchannel)).1
  refine ⟨uri, channel, hchannel, ?_⟩
  rw [step_made hmissed hok]
  exact fun heq ↦ absurd (Option.some.inj ((AList.lookup_insert _).symm.trans heq)) hlt.ne'

/-! ## A run -/

theorem created_run (uris : List U) (steps : List PoolStep) : (run uris steps).Created :=
  Runs.run_inv (fun _ a h ↦ h.step a) steps fun _ _ h ↦ nomatch h

theorem held_run {uris : List U} {steps : List PoolStep}
    (hno : ∀ done a, done ++ [a] <+: steps → ¬ (run uris done).Replaces a) {done : List PoolStep}
    (hdone : done <+: steps) : (run uris done).Held := by
  have hstep : ∀ (s : PoolCalls U) a, s.Held → ¬ s.Replaces a → (s.step a).Held :=
    fun s a h ha ↦ h.step ha
  have hnew : (new uris).Held := fun i uri channel h ↦ by
    rw [new, List.getElem?_map] at h
    obtain ⟨uri', -, heq⟩ := Option.map_eq_some_iff.mp h
    exact nomatch heq
  exact Runs.forall_run hstep hnew hno done hdone

end PoolCalls

/-- **When the pool shares its channels.**  Let any calls go on in any order, with connections that
fail at will.  The map only holds channels that were made for their URI, no entry is replaced, a
failed attempt leaves the map alone and calls for one URI return one channel, exactly if no call
that has found nothing makes a channel for a URI that has got one in the meantime. -/
theorem channels_shared_iff (uris : List U) (steps : List PoolStep) :
    PoolCalls.Shares uris steps ↔
      ∀ done a, done ++ [a] <+: steps → ¬ (PoolCalls.run uris done).Replaces a := by
  have hrun : ∀ done a, PoolCalls.run uris (done ++ [a]) = (PoolCalls.run uris done).step a :=
    fun done a ↦ List.foldl_concat _ _ _ _
  constructor
  · intro h done a hprefix ha
    obtain ⟨uri, channel, hchannel, hreplaced⟩ := ha.not_kept (PoolCalls.created_run uris done)
    refine hreplaced ?_
    rw [← hrun]
    exact h.kept done a hprefix uri channel hchannel
  · intro hno
    constructor
    · exact fun done _ ↦ PoolCalls.created_run uris done
    · intro done a hprefix uri channel hchannel
      rw [hrun]
      exact PoolCalls.step_kept (hno done a hprefix) hchannel
    · intro done a _ e he
      rw [hrun]
      exact PoolCalls.step_failed he
    · intro done hdone i j uri channel channel' hi hj
      have hheld := PoolCalls.held_run hno hdone
      exact Option.some.inj ((hheld i uri channel hi).symm.trans (hheld j uri channel' hj))

/-- **Channels are not always shared**: of two calls that have both found nothing, the second
replaces the channel of the first and returns another one. -/
theorem not_channels_shared : ¬ ∀ (uris : List String) (steps : List PoolStep),
    PoolCalls.Shares uris steps := by
  intro h
  have hsame := (h ["http://0.0.0.0:5001/", "http://0.0.0.0:5001/"]
    [⟨0, .ok ()⟩, ⟨1, .ok ()⟩, ⟨0, .ok ()⟩, ⟨1, .ok ()⟩]).same _ List.prefix_rfl 0 1
      "http://0.0.0.0:5001/" 0 1 rfl rfl
  exact absurd hsame (by decide)

end Smoldb
