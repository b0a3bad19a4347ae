import Smoldb.Disk.Tasks

/-!
# A create on its way

Once a create has looked, it makes a list of calls, `initOps`, and it ends as soon as one of them
fails.  Two of the calls open the trees of its segments, once each (`opened_initOps`).

`LiveNode.Underway` is what there is to say about a create between two of its steps, so that it
comes to a good end whatever other tasks do in the meantime: what it has still to do stays in the
directory of its collection, none of the trees it has yet to open is open, and from the disk as it
is now it makes the collection.  It begins to hold when the create has looked (`Underway.start`),
the create's own steps keep it (`Underway.step`), and the steps of tasks that leave the directory
and its trees alone do too (`Underway.congr`).
-/

set_option autoImplicit false

namespace Smoldb

open FileTree (View LocalTo)
open TableOfContent (collectionsPath newPath makeCollection)

variable {V : Type} {X : Crates V} {J : ConfigJson} {peer : PeerId}

/-! ## What a create opens -/

/-- The tree a call opens. -/
def DiskOp.opened : DiskOp → Option Path
  | openTree path => some path
  | _ => none

/-- A program makes some calls of a list, in this order, and it makes all of them if it ends with a
value. -/
def Fs.MakesCalls {ε α : Type} (l : List DiskOp) (p : Fs ε α) : Prop :=
  p.Makes (fun _ _ ↦ True) (fun _ _ ↦ True) l True

namespace Fs.MakesCalls

variable {ε ε' α β : Type} {l l' : List DiskOp}

theorem pure (a : α) : Fs.MakesCalls [] (Pure.pure a : Fs ε α) := ⟨rfl, trivial⟩

theorem ofExcept (r : Except ε α) : Fs.MakesCalls [] (Program.ofExcept r : Fs ε α) := by
  cases r with
  | error e => exact trivial
  | ok a => exact pure a

theorem call_iff {op : DiskOp} {next : op.Reply → Fs ε α} :
    Fs.MakesCalls (op :: l) (Program.call op next) ↔ ∀ r, (next r).MakesCalls l := by
  simp only [Fs.MakesCalls, Program.Makes, or_self, List.cons.injEq, true_and]
  exact ⟨fun ⟨m, hm, h⟩ r ↦ hm ▸ h r, fun h ↦ ⟨l, rfl, h⟩⟩

theorem call {op : DiskOp} {next : op.Reply → Fs ε α} (h : ∀ r, (next r).MakesCalls l) :
    Fs.MakesCalls (op :: l) (Program.call op next) := call_iff.mpr h

/-- Go on behind a program, whatever it ends with. -/
theorem handle {p : Fs ε α} (h : p.MakesCalls l) {f : α → Fs ε' β} {g : ε → Fs ε' β}
    (hf : ∀ a, (f a).MakesCalls l') (hg : ∀ e m, (g e).MakesCalls m) :
    Fs.MakesCalls (l ++ l') (p.handle f g) := by
  refine Program.Makes.handle h (fun a s hs _ ↦ ?_) fun e m s hs ↦ ?_
  · obtain rfl : s = True := eq_true (hs trivial)
    exact hf a
  · obtain rfl : s = True := eq_true hs
    exact hg e m

theorem bind {p : Fs ε α} (h : p.MakesCalls l) {f : α → Fs ε β} (hf : ∀ a, (f a).MakesCalls l') :
    Fs.MakesCalls (l ++ l') (p >>= f) :=
  h.handle hf fun _ _ ↦ trivial

theorem expect {p : Fs ε α} (h : p.MakesCalls l) (message : String) :
    Fs.MakesCalls l (p.expect message : Fs ε' α) := by
  rw [← List.append_nil l]
  exact h.handle (fun _ ↦ pure _) fun _ _ ↦ trivial

theorem mapError {p : Fs ε α} (h : p.MakesCalls l) (f : ε → ε') :
    Fs.MakesCalls l (p.mapError f) := by
  rw [← List.append_nil l]
  exact h.handle (fun _ ↦ pure _) fun _ _ ↦ trivial

end Fs.MakesCalls

/-- The calls for a shard. -/
def shardOps (path : Path) : List DiskOp :=
  [.createDirAll (path ++ ["segments"]), .createDirAll (path ++ ["segments"] ++ ["0"]),
    .openTree (path ++ ["segments"] ++ ["0"])]

/-- The calls for the config of a collection and its shards. -/
def initOps (J : ConfigJson) (config : CollectionConfig) (path : Path) : List DiskOp :=
  [.createFile (path ++ ["config.json"]),
    .writeFile (path ++ ["config.json"]) (J.encode config)] ++
    (shardOps (path ++ ["0"]) ++ shardOps (path ++ ["1"]))

theorem LocalShard.makesCalls_initOnDisk {ε : Type} (path : Path) (id : ShardId) :
    Fs.MakesCalls (shardOps path) (initOnDisk path id : Fs ε _) := by
  have hmkdir : ∀ path, Fs.MakesCalls [.createDirAll path] (Fs.createDirAll path) :=
    fun _ ↦ .call fun _ ↦ .ofExcept _
  have hopen : ∀ path, Fs.MakesCalls [.openTree path] (Fs.openTree path) :=
    fun _ ↦ .call fun _ ↦ .ofExcept _
  have hsegment : ∀ dir : Path, Fs.MakesCalls
      [.createDirAll (dir ++ ["0"]), .openTree (dir ++ ["0"])] (Segment.create dir) :=
    fun dir ↦ ((hmkdir _).expect _).bind fun _ ↦ ((hopen _).mapError _).bind fun _ ↦ .pure _
  exact ((hmkdir _).expect _).bind fun _ ↦ ((hsegment _).expect _).bind fun _ ↦ .pure _

theorem CollectionConfig.makesCalls_save (J : ConfigJson) (config : CollectionConfig)
    (path : Path) : Fs.MakesCalls [.createFile (path ++ ["config.json"]),
      .writeFile (path ++ ["config.json"]) (J.encode config)] (config.save J path) := by
  have hcreate : Fs.MakesCalls [.createFile (path ++ ["config.json"])]
      (Fs.createFile (path ++ ["config.json"])) := .call fun _ ↦ .ofExcept _
  have hwrite : Fs.MakesCalls [.writeFile (path ++ ["config.json"]) (J.encode config)]
      (Fs.writeFile (path ++ ["config.json"]) (J.encode config)) := .call fun _ ↦ .ofExcept _
  rw [save, J.toVec_eq]
  refine (hcreate.mapError _).bind fun _ ↦ ?_
  split
  · have hattempt : Fs.MakesCalls [.writeFile (path ++ ["config.json"]) (J.encode config)]
        ((Fs.writeFile (path ++ ["config.json"]) (J.encode config)).attempt : Fs StorageError _) :=
      .call fun r ↦ by cases r <;> exact .pure _
    exact hattempt.bind fun _ ↦ .pure _
  · exact hwrite.mapError _

theorem Collection.makesCalls_initOnDisk (J : ConfigJson) (id : CollectionName)
    (config : CollectionConfig) (path : Path) (order : IterOrder (Σ _ : ShardId, ReplicaSet)) :
    Fs.MakesCalls (initOps J config path) (initOnDisk (X := X) J id config path order) :=
  (config.makesCalls_save J path).bind fun _ ↦
    (LocalShard.makesCalls_initOnDisk _ 0).bind fun _ ↦
      (LocalShard.makesCalls_initOnDisk _ 1).bind fun _ ↦ .pure _

/-- A create opens the trees of its two segments, once each. -/
theorem opened_initOps (J : ConfigJson) (config : CollectionConfig) (path : Path) :
    (initOps J config path).filterMap DiskOp.opened
      = [path ++ ["0", "segments", "0"], path ++ ["1", "segments", "0"]] := by
  simp [initOps, shardOps, DiskOp.opened, List.filterMap]

theorem TableOfContent.makesCalls_makeCollection (J : ConfigJson)
    (order : IterOrder (Σ _ : ShardId, ReplicaSet)) (name : CollectionName) (params : String) :
    Fs.MakesCalls (.pathExists (newPath name) :: .createDirAll (newPath name) ::
      initOps J ⟨params⟩ (newPath name)) (makeCollection X J order name params) := by
  refine .call fun found ↦ ?_
  cases found with
  | true => exact trivial
  | false =>
    refine .call fun r ↦ ?_
    cases r with
    | error e => exact trivial
    | ok _ => exact Collection.makesCalls_initOnDisk J name ⟨params⟩ (newPath name) order

/-! ## A create on its way -/

/-- A create has not found the directory of its collection, and what it has still to do makes the
collection from what is there. -/
structure LiveNode.Underway (J : ConfigJson) (node : LiveNode X) (name params : String)
    (rest : Fs StorageError (Collection X × Trees)) : Prop where
  calls : rest.Calls (DiskOp.Makes (collectionDir name))
  opens : ∃ l, rest.MakesCalls l ∧ (l.filterMap DiskOp.opened).Nodup ∧
    ∀ path ∈ l.filterMap DiskOp.opened, collectionDir name <+: path ∧ node.held path = none
  runs : ∃ d' order, rest.run (Disk.answer fun _ ↦ .insertion) node.disk
      = (d', .ok (Collection.init name ⟨params⟩ (collectionDir name) order, fun _ _ ↦ ∅)) ∧
    HoldsAt J d' name (some ⟨⟨params⟩, fun _ ↦ ∅⟩)
  began : node.disk.lookup (collectionDir name) = some .dir ∨
    HoldsAt J node.disk name none ∧ ∃ next, rest = .call (.createDirAll (collectionDir name)) next

namespace LiveNode.Underway

variable {node node' : LiveNode X} {name params : String}
  {rest : Fs StorageError (Collection X × Trees)}

/-- A create has looked. -/
theorem start (hdir : node.disk.lookup collectionsPath = some .dir) (hname : Path.IsFileName name)
    (hfiles : HoldsAt J node.disk name none)
    (hheld : ∀ path, collectionDir name <+: path → node.held path = none)
    {order : IterOrder (Σ _ : ShardId, ReplicaSet)} {next : Bool → Fs StorageError _}
    (hnext : makeCollection X J order name params = .call (.pathExists (newPath name)) next) :
    Underway J node name params (next false) := by
  have hpath : newPath name = collectionDir name := TableOfContent.newPath_eq hname
  have hcalls := TableOfContent.calls_makeCollection (X := X) J order name params
  have hops := TableOfContent.makesCalls_makeCollection (X := X) J order name params
  have hfound : (node.disk.answer (fun _ ↦ .insertion) (.pathExists (collectionDir name))).2
      = false := by
    have hl : node.disk.lookup (collectionDir name) = none := by simpa using hfiles.lookup_none []
    rw [Disk.answer, FileTree.get_eq_lookup (collectionDir_isOrdinary hname), hl]
    rfl
  obtain ⟨d', hrun, hview⟩ := TableOfContent.exec_make (X := X) hdir hname
    (by simpa using hfiles.lookup_none []) (fun _ ↦ .insertion) J order params
  replace hrun : (makeCollection X J order name params).run (Disk.answer fun _ ↦ .insertion)
      node.disk = _ := hrun
  have hmkdir : ∃ next', next false = .call (.createDirAll (newPath name)) next' := by
    cases hnext
    exact ⟨_, rfl⟩
  rw [hnext, hpath] at hcalls hops hrun
  rw [Program.run_call, hfound] at hrun
  refine ⟨hcalls.2 false, ⟨_, Fs.MakesCalls.call_iff.mp hops false, ?_, ?_⟩, ⟨d', order, hrun, ?_⟩,
    Or.inr ⟨hfiles, ?_⟩⟩
  · rw [List.filterMap_cons_none rfl, opened_initOps]
    simp
  · rw [List.filterMap_cons_none rfl, opened_initOps]
    rintro path hmem
    have hbelow : collectionDir name <+: path := by
      rcases List.mem_pair.mp hmem with rfl | rfl <;> exact List.prefix_append _ _
    exact ⟨hbelow, hheld path hbelow⟩
  · rw [HoldsAt, hview, below_collectionFiles, hfiles]
    rfl
  · rw [← hpath]
    exact hmkdir

/-- Nothing has changed where the create is at work. -/
theorem congr (h : node.Underway J name params rest) (hname : Path.IsFileName name)
    (hdir : node.disk.lookup collectionsPath = some .dir)
    (hdir' : node'.disk.lookup collectionsPath = some .dir)
    (hdisk : View.below (collectionDir name) node'.disk.lookup
      = View.below (collectionDir name) node.disk.lookup)
    (hheld : ∀ path, collectionDir name <+: path → node.held path = none →
      node'.held path = none) : node'.Underway J name params rest := by
  have hord := collectionDir_isOrdinary hname
  have hne : collectionDir name ≠ [] := by simp [collectionDir]
  obtain ⟨l, hl, hnodup, hopens⟩ := h.opens
  obtain ⟨d', order, hrun, hfiles⟩ := h.runs
  rw [← dropLast_collectionDir name] at hdir hdir'
  obtain ⟨hresult, hbelow⟩ :=
    (Disk.localTo_run hord hne h.calls).congr _ _ hdir' hdir hdisk
  refine ⟨h.calls, ⟨l, hl, hnodup, fun path hpath ↦ ?_⟩, ⟨_, order, Prod.ext rfl ?_, ?_⟩, ?_⟩
  · obtain ⟨hbelow, hfree⟩ := hopens path hpath
    exact ⟨hbelow, hheld path hbelow hfree⟩
  · exact hresult.trans (Prod.ext_iff.mp hrun).2
  · rw [HoldsAt, hbelow, hrun]
    exact hfiles
  · rw [FileTree.lookup_congr_below hdisk List.prefix_rfl, HoldsAt, hdisk]
    exact h.began

/-- What the tasks are does not matter to a create. -/
theorem setTask (h : node.Underway J name params rest) (i : ℕ) (task : MetaTask X) :
    (node.setTask i task).Underway J name params rest := ⟨h.calls, h.opens, h.runs, h.began⟩

/-- **A create makes its next call.** -/
theorem step {op : DiskOp} {next : op.Reply → Fs StorageError (Collection X × Trees)}
    (h : node.Underway J name params (.call op next)) (hname : Path.IsFileName name)
    (hdir : node.disk.lookup collectionsPath = some .dir) (i : ℕ) :
    (node.answer i op).1.Underway J name params (next (node.answer i op).2) := by
  obtain ⟨l, hl, hnodup, hopens⟩ := h.opens
  obtain ⟨d', order, hrun, hfiles⟩ := h.runs
  obtain ⟨l, rfl⟩ : ∃ m, l = op :: m := by
    obtain ⟨m, rfl, -⟩ := hl
    exact ⟨m, rfl⟩
  have hfree : ∀ path, op = .openTree path → node.held path = none := by
    rintro path rfl
    exact (hopens path (by simp [DiskOp.opened])).2
  obtain ⟨hdisk, hreply⟩ := answer_of_free (i := i) hfree
  refine ⟨h.calls.2 _, ⟨l, Fs.MakesCalls.call_iff.mp hl _, ?_, fun path hpath ↦ ?_⟩,
    ⟨d', order, ?_, hfiles⟩, Or.inl ?_⟩
  · exact hnodup.sublist ((List.sublist_cons_self op l).filterMap _)
  · have hmem : path ∈ (op :: l).filterMap DiskOp.opened :=
      ((List.sublist_cons_self op l).filterMap _).subset hpath
    obtain ⟨hbelow, hheld⟩ := hopens path hmem
    refine ⟨hbelow, ?_⟩
    by_cases hop : ∃ q, op = .openTree q
    · -- what is opened now is not opened again
      obtain ⟨q, rfl⟩ := hop
      have hne : (q :: l.filterMap DiskOp.opened).Nodup := hnodup
      refine answer_openTree_held (fun heq ↦ ?_) hheld
      exact (List.nodup_cons.mp hne).1 (heq ▸ hpath)
    · exact answer_held (fun q hq ↦ hop ⟨q, hq⟩) hheld
  · rw [hdisk, hreply]
    exact hrun
  · rw [hdisk]
    rcases h.began with hdir' | ⟨hfiles, next', hcall⟩
    · exact Disk.keepsDirs_answer _ _ h.calls.1 _ hdir'
    · cases hcall
      have hparent : node.disk.lookup (collectionDir name).dropLast = some .dir := by
        rwa [dropLast_collectionDir]
      have hnone : node.disk.lookup (collectionDir name) = none := by
        simpa using hfiles.lookup_none []
      obtain ⟨d₁, hmkdir, hview⟩ := FileTree.createDirAll_spec (collectionDir_isOrdinary hname)
        fun q a hq ↦ FileTree.not_file_below (r := []) hparent hnone (by rwa [List.append_nil]) a
      rw [Disk.answer, hmkdir, hview, View.withDirs, if_pos List.prefix_rfl]

end LiveNode.Underway

end Smoldb
