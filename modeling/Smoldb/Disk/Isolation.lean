import Smoldb.Disk.Faults
import Smoldb.Lib.Runs

/-!
# Collections are kept apart

The name of a collection is joined to a path as it is.  As long as it is the name of a file, every
collection has a directory of its own, next to the others: `isolated_of_run` says what follows from
that, for whole runs.

* `Node.Isolated` is about a state: the directory of each collection is one of the directories of
  collections, none is in that of another, and a restart finds every collection under its name, with
  its config, its shards and what is in them.
* `Node.LeavesAlone` is about an event: it changes nothing in the directory of a collection that it
  is not about.

The condition is on the creates only, and `Node.Event.NamesFile` has it: the name is one that a file
can have, or the create is turned away since there is something on disk where it leads.  The other
requests go by the names that there are.

A name with a slash in it leads elsewhere, such as into the directory of another collection, where
what is made is taken for a shard at the next start: `not_isolated_inside`.

The invariant behind it is `Node.Represents` (`Disk/Node.lean`), which every event keeps whose name
is that of a file, and which a create that is turned away does not touch.
-/

set_option autoImplicit false

namespace Smoldb

open FileTree (View)
open TableOfContent (collectionsPath newPath)

variable {V : Type} {X : Crates V} {J : ConfigJson} {peer : PeerId}

/-! ## What it means -/

/-- A node has a collection again, under its name, with its shards and what is in them. -/
def Node.Reopens (peer : PeerId) (node node' : Node X) (name : CollectionName) : Prop :=
  ∀ c, node.memory.toc.collections.lookup name = some c →
    ∃ c', node'.memory.toc.collections.lookup name = some c' ∧ c'.id = name ∧
      c'.config = c.config ∧
      (∀ s, c'.replicaHolder.shards.lookup s = c.replicaHolder.shards.lookup s) ∧
      ∀ s, node'.memory.stores ⟨peer, name, s⟩ 0 = node.memory.stores ⟨peer, name, s⟩ 0

/-- The collections of a node are kept apart by their names. -/
structure Node.Isolated (J : ConfigJson) (peer : PeerId) (node : Node X) : Prop where
  /-- The directory of a collection is one of the directories of collections. -/
  child : ∀ name c, node.memory.toc.collections.lookup name = some c →
    ∃ s, node.disk.resolve c.path = some (collectionsPath ++ [s])
  /-- No directory of a collection is in that of another, or the same. -/
  apart : ∀ name name' c c', name ≠ name' → node.memory.toc.collections.lookup name = some c →
    node.memory.toc.collections.lookup name' = some c' → ∀ p p',
      node.disk.resolve c.path = some p → node.disk.resolve c'.path = some p' → ¬ p <+: p'
  /-- A restart finds every collection. -/
  loads : ∀ env, ∃ node' : Node X, Node.start J peer env node.disk = (node', []) ∧
    ∀ name, node.Reopens peer node' name

/-- An event changes nothing in the directories of the collections it is not about. -/
def Node.LeavesAlone (J : ConfigJson) (peer : PeerId) (event : Node.Event V) (node : Node X) :
    Prop :=
  ∀ name c p, node.memory.toc.collections.lookup name = some c →
    (∀ r ∈ event.request, r.name ≠ name) → node.disk.resolve c.path = some p →
      View.below p (Node.step J peer event node).1.disk.lookup = View.below p node.disk.lookup

/-- A create is for a name that can be the name of a file, or does not get as far as doing
something. -/
def Node.Event.NamesFile (node : Node X) : Node.Event V → Prop
  | .metaOp listing _ (.createCollection name params) =>
    Path.IsFileName name ∨
      CollectionMetaOperation.Refused (fun _ ↦ none) listing node (.createCollection name params)
  | .metaOp _ _ (.deleteCollection _) => True
  | .upsert _ _ _ => True
  | .restart _ => True

/-! ## One event -/

theorem TableOfContent.newPath_eq {name : CollectionName} (hname : Path.IsFileName name) :
    newPath name = collectionDir name :=
  Path.join_of_isFileName hname (by decide)

namespace Node.Represents

variable {node : Node X} {cat : Catalog} (h : node.Represents J peer cat)

include h

theorem path_eq {name : CollectionName} {c : Collection X}
    (hc : node.memory.toc.collections.lookup name = some c) :
    Path.IsFileName name ∧ c.path = collectionDir name ∧
      node.disk.resolve c.path = some (collectionDir name) := by
  obtain ⟨e, he⟩ := h.exists_entry hc
  have hname := h.proper.isFileName name e he
  have hpath := (h.opened he hc).path
  refine ⟨hname, hpath, ?_⟩
  rw [hpath]
  refine FileTree.resolve_of_ordinary (collectionDir_isOrdinary hname) ?_
  rw [dropLast_collectionDir]
  exact h.disk.dir

/-- A collection that is open in both nodes is the same in both. -/
theorem reopens {node' : Node X} {name : CollectionName}
    (h' : ∀ e, cat name = some e → node'.memory.Opens peer name e) :
    node.Reopens peer node' name := by
  intro c hc
  obtain ⟨e, he⟩ := h.exists_entry hc
  obtain ⟨c', hc', hopened', hstores'⟩ := h' e he
  have hopened := h.opened he hc
  refine ⟨c', hc', hopened'.id, ?_, fun s ↦ ?_, fun s ↦ ?_⟩
  · rw [hopened'.config, hopened.config]
  · rw [hopened'.shards, hopened.shards]
  · rw [hstores', h.stores he]

theorem isolated : node.Isolated J peer := by
  refine ⟨fun name c hc ↦ ⟨name, (h.path_eq hc).2.2⟩, ?_, fun env ↦ ?_⟩
  · intro name name' c c' hne hc hc' p p' hp hp'
    rw [(h.path_eq hc).2.2, Option.some_inj] at hp
    rw [(h.path_eq hc').2.2, Option.some_inj] at hp'
    rw [← hp, ← hp']
    simpa using collectionDir_apart hne []
  · obtain ⟨node', hstart, h'⟩ := h.start env
    exact ⟨node', hstart, fun name ↦ h.reopens fun e he ↦ h'.memory.of_some he⟩

/-- What a catalog does not say stays as it is. -/
theorem leavesAlone {event : Node.Event V} {cat' : Catalog}
    (h' : (Node.step J peer event node).1.Represents J peer cat')
    (hcat : ∀ name, (∀ r ∈ event.request, r.name ≠ name) → cat' name = cat name) :
    node.LeavesAlone J peer event := by
  intro name c p hc hother hp
  rw [(h.path_eq hc).2.2, Option.some_inj] at hp
  have hbefore : View.below (collectionDir name) node.disk.lookup = _ := h.disk.files name
  have hafter : View.below (collectionDir name) (Node.step J peer event node).1.disk.lookup = _ :=
    h'.disk.files name
  rw [← hp, hafter, hbefore, hcat name hother]

/-- Only what is on the disk counts, not in which order it got there. -/
theorem of_lookup {node' : Node X} (hmemory : node'.memory = node.memory)
    (hdisk : node'.disk.lookup = node.disk.lookup) : node'.Represents J peer cat := by
  refine ⟨h.proper, h.placed, ⟨by rw [hdisk]; exact h.disk.dir, fun name ↦ ?_⟩, ?_⟩
  · rw [HoldsAt, hdisk]
    exact h.disk.files name
  · rw [hmemory]
    exact h.memory

end Node.Represents

theorem Disk.faulty_none (listing : Path → IterOrder String) (d : Disk) (op : DiskOp) :
    d.faulty (fun _ ↦ none) listing op = d.answer listing op := rfl

/-- A create that does not get as far as doing something. -/
theorem Node.performCollectionMetaOp_refused {listing : Path → IterOrder String}
    {order : IterOrder (Σ _ : ShardId, ReplicaSet)} {name params : String} {node : Node X}
    (h : CollectionMetaOperation.Refused (fun _ ↦ none) listing node
      (.createCollection name params)) :
    (node.performCollectionMetaOp J peer listing order (.createCollection name params)).1.memory
        = node.memory ∧
      (node.performCollectionMetaOp J peer listing order
        (.createCollection name params)).1.disk.lookup = node.disk.lookup ∧
      ∃ e, (node.performCollectionMetaOp J peer listing order
        (.createCollection name params)).2 = some (.error e) := by
  obtain ⟨d', e, hmkdir, hlookup⟩ : ∃ d' e, Fs.exec listing
      (TableOfContent.mkdirCollectionDir name) node.disk = (d', .error e) ∧
        d'.lookup = node.disk.lookup := by
    rcases hcheck : node.disk.answer listing (.pathExists (newPath name)) with ⟨d₁, _ | _⟩
    · obtain rfl : d₁ = node.disk := congrArg Prod.fst hcheck.symm
      have hrun := TableOfContent.run_mkdirCollectionDir hcheck
      rcases h with h | ⟨⟨e, he⟩, hlookup⟩
      · rw [Disk.faulty_none, hcheck] at h
        exact nomatch h
      · rw [Disk.faulty_none] at he hlookup
        rcases hmkdir : node.disk.answer listing (.createDirAll (newPath name)) with ⟨d₂, r⟩
        rw [hmkdir] at he hlookup hrun
        obtain rfl : r = .error e := he
        exact ⟨d₂, _, hrun, hlookup⟩
    · obtain rfl : d₁ = node.disk := congrArg Prod.fst hcheck.symm
      exact ⟨_, _, TableOfContent.run_mkdirCollectionDir_of_exists hcheck, rfl⟩
  have hmade : Fs.exec listing (do
      let path ← TableOfContent.mkdirCollectionDir name
      Collection.initOnDisk (X := X) J name ⟨params⟩ path order) node.disk = (d', .error e) :=
    Program.run_bind_of_error hmkdir _
  rw [Node.performCollectionMetaOp, Fs.exec, TableOfContent.performCollectionMetaOp,
    Program.run_bind_of (Program.run_attempt_of_error hmade)]
  exact ⟨rfl, hlookup, e, rfl⟩

namespace Node.Represents

variable {node : Node X} {cat : Catalog} (h : node.Represents J peer cat)

include h

/-- A delete, whatever the name. -/
theorem performDelete (listing : Path → IterOrder String)
    (order : IterOrder (Σ _ : ShardId, ReplicaSet)) (name : CollectionName) :
    (node.performCollectionMetaOp J peer listing order
        (.deleteCollection name)).1.Represents J peer
      (cat.perform X (.metaOp (.deleteCollection name))).1 := by
  cases he : cat name with
  | none =>
    rw [Node.performCollectionMetaOp,
      TableOfContent.exec_delete_of_none (h.memory.lookup_of_none he), Catalog.perform, he]
    exact h
  | some e =>
    have hname : Path.IsFileName (Request.metaOp (.deleteCollection name) : Request V).name :=
      h.proper.isFileName name e he
    obtain ⟨node', hrun, h'⟩ := h.performCollectionMetaOp listing order hname
    rw [hrun]
    exact h'

/-- **One event**, if the names of new collections are names of files: the node represents a
catalog that is the same as before but for the collection the event is about. -/
theorem step {event : Node.Event V} (hname : event.NamesFile node) :
    ∃ cat', (Node.step J peer event node).1.Represents J peer cat' ∧
      ∀ name, (∀ r ∈ event.request, r.name ≠ name) → cat' name = cat name := by
  cases event with
  | metaOp listing order operation =>
    have hother : ∀ name, (∀ r ∈ Node.Event.request (V := V) (.metaOp listing order operation),
        r.name ≠ name) → (cat.perform X (.metaOp operation)).1 name = cat name :=
      fun name hr ↦ Catalog.perform_of_ne (hr _ rfl) cat
    cases operation with
    | createCollection name params =>
      rcases hname with hname | hrefused
      · have hfile : Path.IsFileName
            (Request.metaOp (.createCollection name params) : Request V).name := hname
        obtain ⟨node', hrun, h'⟩ := h.performCollectionMetaOp listing order hfile
        refine ⟨_, ?_, hother⟩
        rw [Node.step, hrun]
        exact h'
      · obtain ⟨hmemory, hdisk, -⟩ := Node.performCollectionMetaOp_refused hrefused
        exact ⟨cat, h.of_lookup hmemory hdisk, fun _ _ ↦ rfl⟩
    | deleteCollection name => exact ⟨_, h.performDelete listing order name, hother⟩
  | upsert order name points =>
    obtain ⟨node', hrun, h'⟩ := h.performPointsOp order name points
    refine ⟨(cat.perform X (.upsert name points)).1, ?_, fun n hr ↦
      Catalog.perform_of_ne (hr _ rfl) cat⟩
    rw [Node.step, hrun]
    exact h'
  | restart env =>
    obtain ⟨node', hrun, h'⟩ := h.start env
    refine ⟨cat, ?_, fun _ _ ↦ rfl⟩
    rw [Node.step, hrun]
    exact h'

end Node.Represents

/-! ## Runs -/

theorem Node.run_fst (J : ConfigJson) (peer : PeerId) (events : List (Node.Event V))
    (node : Node X) : (Node.run J peer events node).1
      = events.foldl (fun node event ↦ (Node.step J peer event node).1) node := by
  induction events generalizing node with
  | nil => rfl
  | cons event events ih => exact ih _

/-- **A run represents a catalog**, as long as the names of new collections are names of files. -/
theorem Node.exists_represents (X : Crates V) (J : ConfigJson) (peer : PeerId) (env : LoadEnv)
    {events : List (Node.Event V)}
    (hnames : ∀ done event, done ++ [event] <+: events →
      event.NamesFile (Node.run J peer (.restart env :: done) (Node.down : Node X)).1) :
    ∀ done, done <+: events →
      ∃ cat, (Node.run J peer (.restart env :: done) (Node.down : Node X)).1.Represents J
        peer cat := by
  obtain ⟨start, hstart, h⟩ := Node.represents_start X J peer env
  have hrun : ∀ done, (Node.run J peer (.restart env :: done) (Node.down : Node X)).1
      = done.foldl (fun node event ↦ (Node.step J peer event node).1) start := by
    intro done
    rw [Node.run_fst, List.foldl_cons, Node.step, Node.down, hstart]
  simp only [hrun] at hnames ⊢
  exact Runs.forall_run (fun (node : Node X) (event : Node.Event V)
    (hgood : ∃ cat, node.Represents J peer cat) hname ↦ by
      obtain ⟨cat, hcat⟩ := hgood
      obtain ⟨cat', h', -⟩ := hcat.step hname
      exact ⟨cat', h'⟩) ⟨_, h⟩ hnames

/-- **Names that are names of files keep collections apart.**  Take a run of a node in which every
create is for a name that can be the name of a file, or is turned away before anything is done.  In
every state of the run the directory of each collection is next to the others, none is in another,
and a restart finds each under its name; and no event of the run changes anything in the directory
of a collection it is not about. -/
theorem isolated_of_run (X : Crates V) (J : ConfigJson) (peer : PeerId) (env : LoadEnv)
    (events : List (Node.Event V))
    (hnames : ∀ done event, done ++ [event] <+: events →
      event.NamesFile (Node.run J peer (.restart env :: done) (Node.down : Node X)).1) :
    ∀ done, done <+: events →
      (Node.run J peer (.restart env :: done) (Node.down : Node X)).1.Isolated J peer ∧
      ∀ event, done ++ [event] <+: events →
        (Node.run J peer (.restart env :: done) (Node.down : Node X)).1.LeavesAlone J
          peer event := by
  have hall := Node.exists_represents X J peer env hnames
  intro done hdone
  obtain ⟨cat, hcat⟩ := hall done hdone
  refine ⟨hcat.isolated, fun event hevent ↦ ?_⟩
  obtain ⟨cat', h', hother⟩ := hcat.step (hnames done event hevent)
  exact hcat.leavesAlone h' hother

/-- Two collections are made, and one of them is deleted. -/
def neighbours : List (Node.Event Bool) :=
  [.metaOp (fun _ ↦ .insertion) .insertion (.createCollection "a" "p"),
    .metaOp (fun _ ↦ .insertion) .insertion (.createCollection "b" "q"),
    .metaOp (fun _ ↦ .insertion) .insertion (.deleteCollection "a")]

/-- A run with names of files. -/
theorem isolated_of_run_neighbours :
    (Node.run .plain 101 (.restart .insertion :: neighbours)
      (Node.down : Node Crates.bool)).1.Isolated .plain 101 := by
  refine (isolated_of_run Crates.bool .plain 101 .insertion neighbours (fun done event h ↦ ?_)
    neighbours List.prefix_rfl).1
  have hmem : event ∈ neighbours := h.subset (by simp)
  simp only [neighbours, List.mem_cons, List.not_mem_nil, or_false] at hmem
  rcases hmem with rfl | rfl | rfl
  · exact Or.inl (by decide)
  · exact Or.inl (by decide)
  · exact trivial

/-- A collection is made inside another. -/
def inside : List (Node.Event Bool) :=
  [.metaOp (fun _ ↦ .insertion) .insertion (.createCollection "c1" "p"),
    .metaOp (fun _ ↦ .insertion) .insertion (.createCollection "c1/7" "q")]

/-- **Not every name keeps a collection apart.**  A collection `c1/7` is made in the directory of
`c1`. -/
theorem not_isolated_inside : ¬ ∀ (events : List (Node.Event Bool)) done, done <+: events →
    (Node.run .plain 101 (.restart .insertion :: done)
      (Node.down : Node Crates.bool)).1.Isolated .plain 101 ∧
    ∀ event, done ++ [event] <+: events →
      (Node.run .plain 101 (.restart .insertion :: done)
        (Node.down : Node Crates.bool)).1.LeavesAlone .plain 101 event := by
  intro h
  have hisolated := (h inside inside List.prefix_rfl).1
  generalize hnode : (Node.run .plain 101 (.restart .insertion :: inside)
    (Node.down : Node Crates.bool)).1 = node at hisolated
  have hpath : (node.memory.toc.collections.lookup "c1/7").map (·.path)
      = some ["storage", "collections", "c1", "7"] := by
    rw [← hnode]
    decide +kernel
  have hresolve : node.disk.resolve ["storage", "collections", "c1", "7"]
      = some ["storage", "collections", "c1", "7"] := by
    rw [← hnode]
    decide +kernel
  obtain ⟨c, hc, hcpath⟩ := Option.map_eq_some_iff.mp hpath
  obtain ⟨s, hs⟩ := hisolated.child "c1/7" c hc
  rw [hcpath, hresolve] at hs
  simp [collectionsPath] at hs

end Smoldb
