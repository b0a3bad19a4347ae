import Smoldb.Disk.Underway

/-!
# What becomes of a name

At any time there is at most one task that works in the directory of a name, and the others that are
about the name have not begun or are as good as over.  So a name is in one of four situations, which
is its `Fate`:

* it is absent, from the map and from the disk;
* a create of it is under way, and it is not in the map;
* it is present, and the disk has what the map says;
* a delete has taken it out of the map, and removes its directory.

`LiveNode.Sound` says that every name has a fate and that all tasks which do not take part in it are
idle.  That is the invariant: `Sound.step` shows that a step keeps it as long as it is no race.  The
proof goes by what the task does next.  A step touches one name (`LiveNode.Touches`), and the fates
of all other names stay as they are (`Keeps.fate`, `Keeps.othersIdle`), so there is only the fate of
the name itself to look at, in one lemma for each kind of step.
-/

set_option autoImplicit false

namespace Smoldb

open FileTree (View LocalTo)
open TableOfContent (collectionsPath newPath makeCollection)

variable {V : Type} {X : Crates V} {J : ConfigJson} {peer : PeerId}

/-! ## What becomes of a name -/

/-- A task that is not at work on the files of its collection: it has not begun, or nothing is left
for it to do there. -/
def MetaTask.Idle (J : ConfigJson) : MetaTask X → Prop
  | creating name params rest =>
    (∃ order, rest = makeCollection X J order name params) ∨ ∃ e, rest = .error e
  | waiting _ => True
  | deleting _ _ rest => rest = .ok ()
  | done _ _ => True

/-- What a delete has still to do as long as it has not removed the directory. -/
def Removing (X : Crates V) (name : CollectionName) (rest : Fs StorageError Unit) : Prop :=
  (∃ c : Collection X, c.path = collectionDir name ∧ rest = c.delete) ∨
    rest = (Fs.removeDirAll (collectionDir name)).mapError fun e ↦
      .serviceError s!"Failed to delete collection: {e}"

namespace LiveNode

variable {node node' : LiveNode X} {name : CollectionName} {i : ℕ} {o : Option ℕ}

/-- How it stands with a name, and the task that is at work on its files. -/
inductive Fate (J : ConfigJson) (node : LiveNode X) (name : CollectionName) : Option ℕ → Prop
  | absent (hfiles : HoldsAt J node.disk name none)
      (hmap : node.memory.toc.collections.lookup name = none)
      (hheld : ∀ path, collectionDir name <+: path → node.held path = none) : Fate J node name none
  | making (i : ℕ) (params : String) (rest : Fs StorageError (Collection X × Trees))
      (htask : node.tasks[i]? = some (.creating name params rest))
      (hmap : node.memory.toc.collections.lookup name = none)
      (hrest : node.Underway J name params rest) : Fate J node name (some i)
  | present (c : Collection X) (e : CatalogEntry)
      (hmap : node.memory.toc.collections.lookup name = some c) (hc : c.Opened name e.config)
      (hfiles : HoldsAt J node.disk name (some e)) : Fate J node name none
  | deleting (i : ℕ) (opener : Opener) (rest : Fs StorageError Unit)
      (htask : node.tasks[i]? = some (.deleting name opener rest))
      (hmap : node.memory.toc.collections.lookup name = none)
      (hdir : node.disk.lookup (collectionDir name) = some .dir)
      (hrest : Removing X name rest) : Fate J node name (some i)

theorem Fate.task (h : node.Fate J name (some i)) :
    ∃ task, node.tasks[i]? = some task ∧ task.name = name := by
  cases h with
  | making i params rest htask => exact ⟨_, htask, rfl⟩
  | deleting i opener rest htask => exact ⟨_, htask, rfl⟩

/-- The task that is at work is not idle. -/
theorem Fate.not_idle (h : node.Fate J name (some i)) (hname : Path.IsFileName name)
    {task : MetaTask X} (htask : node.tasks[i]? = some task) : ¬ task.Idle J := by
  have hpath : newPath name = collectionDir name := TableOfContent.newPath_eq hname
  have hget := FileTree.get_eq_lookup (t := node.disk) (collectionDir_isOrdinary hname)
  cases h with
  | making i params rest htask' hmap hrest =>
    obtain rfl := Option.some.inj (htask'.symm.trans htask)
    obtain ⟨d', order', hrun, -⟩ := hrest.runs
    rintro (⟨order, rfl⟩ | ⟨e, rfl⟩)
    · rcases hrest.began with hdir | ⟨-, next, hcall⟩
      · -- it would be stopped by what it finds
        obtain ⟨next, hnext, e, herror⟩ : ∃ next, makeCollection X J order name params
            = .call (.pathExists (newPath name)) next ∧ ∃ e, next true = .error e :=
          ⟨_, rfl, _, rfl⟩
        rw [hdir, ← hpath] at hget
        rw [hnext, Program.run_call, Disk.answer, hget] at hrun
        change (next true).run _ _ = _ at hrun
        rw [herror] at hrun
        cases (Prod.ext_iff.mp hrun).2
      · cases hcall
    · cases (Prod.ext_iff.mp hrun).2
  | deleting i opener rest htask' hmap hdir hrest =>
    obtain rfl := Option.some.inj (htask'.symm.trans htask)
    rcases hrest with ⟨c, -, rfl⟩ | rfl <;> exact fun hidle ↦ by cases hidle

/-- No other task is at work on the files of a name. -/
def OthersIdle (J : ConfigJson) (node : LiveNode X) (name : CollectionName) (o : Option ℕ) : Prop :=
  ∀ (k : ℕ) (task : MetaTask X), node.tasks[k]? = some task → task.name = name →
    o ≠ some k → task.Idle J

/-- At most one task is at work on the files of each name, and where none is, the map and the disk
agree. -/
structure Sound (J : ConfigJson) (node : LiveNode X) : Prop where
  dir : node.disk.lookup collectionsPath = some .dir
  proper : ∀ name ∈ node.memory.toc.collections, Path.IsFileName name
  tasks : ∀ (k : ℕ) (task : MetaTask X), node.tasks[k]? = some task → Path.IsFileName task.name
  fate : ∀ name, Path.IsFileName name → ∃ o, node.Fate J name o ∧ node.OthersIdle J name o

/-- A step of a task changes nothing about a name, but that the task may become idle. -/
structure Keeps (J : ConfigJson) (name : CollectionName) (i : ℕ) (node node' : LiveNode X) :
    Prop where
  disk : View.below (collectionDir name) node'.disk.lookup
    = View.below (collectionDir name) node.disk.lookup
  held : ∀ path, collectionDir name <+: path → node.held path = none → node'.held path = none
  map : node'.memory.toc.collections.lookup name = node.memory.toc.collections.lookup name
  idle : ∀ task : MetaTask X, node'.tasks[i]? = some task → task.name = name → task.Idle J
  others : ∀ k, k ≠ i → node'.tasks[k]? = node.tasks[k]?

/-- A step of a task changes something about one name only. -/
structure Touches (name : CollectionName) (i : ℕ) (node node' : LiveNode X) : Prop where
  disk : ∀ q, ¬ collectionDir name <+: q → node'.disk.lookup q = node.disk.lookup q
  held : ∀ q, ¬ collectionDir name <+: q → node.held q = none → node'.held q = none
  map : ∀ m, m ≠ name →
    node'.memory.toc.collections.lookup m = node.memory.toc.collections.lookup m
  task : ∀ task : MetaTask X, node'.tasks[i]? = some task → task.name = name
  others : ∀ k, k ≠ i → node'.tasks[k]? = node.tasks[k]?

/-- Other names are kept. -/
theorem Touches.keeps (h : Touches name i node node') {m : CollectionName} (hm : m ≠ name) :
    Keeps J m i node node' where
  disk := by
    funext r
    exact h.disk _ (collectionDir_apart hm.symm r)
  held path hpath := h.held path fun hp ↦ by
    obtain ⟨r, rfl⟩ := hpath
    exact collectionDir_apart hm.symm r hp
  map := h.map m hm
  idle task htask hname := absurd ((h.task task htask).symm.trans hname) hm.symm
  others := h.others

namespace Keeps

variable (h : Keeps J name i node node')

include h

theorem fate (hname : Path.IsFileName name)
    (hdir : node.disk.lookup collectionsPath = some .dir)
    (hdir' : node'.disk.lookup collectionsPath = some .dir) (ho : o ≠ some i)
    (hfate : node.Fate J name o) : node'.Fate J name o := by
  cases hfate with
  | absent hfiles hmap hheld =>
    refine .absent ?_ (h.map.trans hmap) fun path hpath ↦ h.held path hpath (hheld path hpath)
    rwa [HoldsAt, h.disk]
  | making k params rest htask hmap hrest =>
    have hk : k ≠ i := fun heq ↦ ho (congrArg some heq)
    exact .making k params rest ((h.others k hk).trans htask) (h.map.trans hmap)
      (hrest.congr hname hdir hdir' h.disk h.held)
  | present c e hmap hc hfiles =>
    refine .present c e (h.map.trans hmap) hc ?_
    rwa [HoldsAt, h.disk]
  | deleting k opener rest htask hmap hdir hrest =>
    have hk : k ≠ i := fun heq ↦ ho (congrArg some heq)
    refine .deleting k opener rest ((h.others k hk).trans htask) (h.map.trans hmap) ?_ hrest
    rwa [FileTree.lookup_congr_below h.disk List.prefix_rfl]

theorem othersIdle (hidle : node.OthersIdle J name o) : node'.OthersIdle J name o := by
  intro k task htask hname ho
  by_cases hk : k = i
  · subst hk
    exact h.idle task htask hname
  · exact hidle k task ((h.others k hk).symm.trans htask) hname ho

end Keeps

/-- A task gets to work, goes on, or is done. -/
theorem OthersIdle.of_others {o' : Option ℕ} (h : node.OthersIdle J name o)
    (ho : ∀ k, o = some k → k = i) (hsame : ∀ k, k ≠ i → node'.tasks[k]? = node.tasks[k]?)
    (hi : o' = some i ∨ ∀ task, node'.tasks[i]? = some task → task.Idle J) :
    node'.OthersIdle J name o' := by
  intro k task htask hname hk
  by_cases hki : k = i
  · subst hki
    exact hi.resolve_left hk task htask
  · exact h k task ((hsame k hki).symm.trans htask) hname fun hok ↦ hki (ho k hok)

/-- A task that becomes idle, next to things that stay as they are or are closed. -/
theorem keeps_of_idle {task task' : MetaTask X} (htask : node.tasks[i]? = some task)
    (hdisk : node'.disk = node.disk) (hmemory : node'.memory = node.memory)
    (hheld : ∀ path, node.held path = none → node'.held path = none)
    (htasks : node'.tasks = node.tasks.set i task') (hidle : task'.Idle J) :
    Keeps J name i node node' where
  disk := by rw [hdisk]
  held path _ := hheld path
  map := by rw [hmemory]
  idle task hset _ := by
    rw [htasks, List.getElem?_set_self (List.getElem?_eq_some_iff.mp htask).1] at hset
    rwa [← Option.some.inj hset]
  others k hk := by rw [htasks, List.getElem?_set_ne (Ne.symm hk)]

/-- A task has taken a step that has nothing to do with the disk. -/
theorem touches_of {task task' : MetaTask X} (htask : node.tasks[i]? = some task)
    (hdisk : node'.disk = node.disk)
    (hheld : ∀ path, node.held path = none → node'.held path = none)
    (hmap : ∀ m, m ≠ name →
      node'.memory.toc.collections.lookup m = node.memory.toc.collections.lookup m)
    (htasks : node'.tasks = node.tasks.set i task') (hname : task'.name = name) :
    Touches name i node node' where
  disk q _ := by rw [hdisk]
  held q _ := hheld q
  map := hmap
  task task hset := by
    rw [htasks, List.getElem?_set_self (List.getElem?_eq_some_iff.mp htask).1] at hset
    rwa [← Option.some.inj hset]
  others k hk := by rw [htasks, List.getElem?_set_ne (Ne.symm hk)]

/-- A task has made a call. -/
theorem touches_answer {task task' : MetaTask X} {op : DiskOp}
    (htask : node.tasks[i]? = some task) (hname : Path.IsFileName name)
    (hdir : node.disk.lookup collectionsPath = some .dir)
    (hop : op.Makes (collectionDir name) ∨ op.Removes (collectionDir name))
    (hname' : task'.name = name) :
    Touches name i node ((node.answer i op).1.setTask i task') := by
  have htasks : (node.answer i op).1.tasks = node.tasks := by rw [answer_eq]
  have hmemory : (node.answer i op).1.memory = node.memory := by rw [answer_eq]
  refine ⟨fun q hq ↦ ?_, fun q hq hfree ↦ ?_, fun m _ ↦ ?_, fun task hset ↦ ?_, fun k hk ↦ ?_⟩
  · rw [← dropLast_collectionDir name] at hdir
    exact answer_outside (collectionDir_isOrdinary hname) (by simp [collectionDir]) hdir hop hq
  · show (node.answer i op).1.held q = none
    by_cases hopen : ∃ path, op = .openTree path
    · obtain ⟨path, rfl⟩ := hopen
      refine answer_openTree_held (fun heq ↦ hq ?_) hfree
      obtain ⟨s, -, rfl⟩ := hop.resolve_right id
      rw [heq]
      exact List.prefix_append _ _
    · exact answer_held (fun path hpath ↦ hopen ⟨path, hpath⟩) hfree
  · show (node.answer i op).1.memory.toc.collections.lookup m = _
    rw [hmemory]
  · change ((node.answer i op).1.tasks.set i task')[i]? = some task at hset
    rw [htasks, List.getElem?_set_self (List.getElem?_eq_some_iff.mp htask).1] at hset
    rwa [← Option.some.inj hset]
  · show ((node.answer i op).1.tasks.set i task')[k]? = _
    rw [htasks, List.getElem?_set_ne (Ne.symm hk)]

namespace Sound

variable (h : node.Sound J)

include h

/-- What a step touches is one name, and for that name all is well again. -/
theorem of_touches {task : MetaTask X} (htask : node.tasks[i]? = some task)
    (hname : task.name = name) (htouches : Touches name i node node')
    (hown : node'.disk.lookup collectionsPath = some .dir →
      ∃ o, node'.Fate J name o ∧ node'.OthersIdle J name o) : node'.Sound J := by
  have hfile : Path.IsFileName name := hname ▸ h.tasks i task htask
  have hdir' : node'.disk.lookup collectionsPath = some .dir := by
    rw [htouches.disk]
    · exact h.dir
    · exact fun hp ↦ by simpa [collectionDir] using hp.length_le
  refine ⟨hdir', fun m hm ↦ ?_, fun k task' htask' ↦ ?_, fun m hm ↦ ?_⟩
  · by_cases hmn : m = name
    · rwa [hmn]
    · refine h.proper m ?_
      rwa [← AList.lookup_isSome, ← htouches.map m hmn, AList.lookup_isSome]
  · by_cases hk : k = i
    · subst hk
      rwa [htouches.task task' htask']
    · exact h.tasks k task' ((htouches.others k hk).symm.trans htask')
  · by_cases hmn : m = name
    · rw [hmn]
      exact hown hdir'
    · obtain ⟨o, hfate, hidle⟩ := h.fate m hm
      have hkeeps : Keeps J m i node node' := htouches.keeps hmn
      -- the task is at work on the other name
      have ho : o ≠ some i := by
        rintro rfl
        obtain ⟨task', htask', hname'⟩ := hfate.task
        rw [Option.some.inj (htask'.symm.trans htask), hname] at hname'
        exact hmn hname'.symm
      exact ⟨o, hkeeps.fate hm h.dir hdir' ho hfate, hkeeps.othersIdle hidle⟩

/-- A task that is not at work on files has taken a step, and is idle again. -/
theorem of_idle {task task' : MetaTask X} (htask : node.tasks[i]? = some task)
    (hbefore : task.Idle J) (hdisk : node'.disk = node.disk)
    (hmemory : node'.memory = node.memory)
    (hheld : ∀ path, node.held path = none → node'.held path = none)
    (htasks : node'.tasks = node.tasks.set i task') (hname : task'.name = task.name)
    (hidle : task'.Idle J) : node'.Sound J := by
  refine h.of_touches htask rfl (touches_of htask hdisk hheld (fun m _ ↦ by rw [hmemory]) htasks
    hname) fun hdir' ↦ ?_
  obtain ⟨o, hfate, hothers⟩ := h.fate task.name (h.tasks i task htask)
  have hkeeps : Keeps J task.name i node node' :=
    keeps_of_idle htask hdisk hmemory hheld htasks hidle
  have ho : o ≠ some i := by
    rintro rfl
    exact hfate.not_idle (h.tasks i task htask) htask hbefore
  exact ⟨o, hkeeps.fate (h.tasks i task htask) h.dir hdir' ho hfate, hkeeps.othersIdle hothers⟩

/-- A create looks for the directory of its collection. -/
theorem look {params : String} {next : Bool → Fs StorageError (Collection X × Trees)}
    {order : IterOrder (Σ _ : ShardId, ReplicaSet)}
    (hnext : makeCollection X J order name params = .call (.pathExists (newPath name)) next)
    (htask : node.tasks[i]? = some (.creating name params
      (.call (.pathExists (newPath name)) next)))
    (hrace : ¬ node.Races i) :
    (node.setTask i
      (.creating name params (next (node.disk.get (newPath name)).isOk))).Sound J := by
  have hname : Path.IsFileName name := h.tasks i _ htask
  have hpath : newPath name = collectionDir name := TableOfContent.newPath_eq hname
  have hget := FileTree.get_eq_lookup (t := node.disk) (collectionDir_isOrdinary hname)
  obtain ⟨e, herror⟩ : ∃ e, next true = .error e := by
    cases hnext
    exact ⟨_, rfl⟩
  cases hl : node.disk.lookup (collectionDir name) with
  | none =>
    rw [hl, ← hpath] at hget
    simp only at hget
    rw [hget]
    obtain ⟨o, hfate, hothers⟩ := h.fate name hname
    have hnone : o = none ∧ HoldsAt J node.disk name none ∧
        node.memory.toc.collections.lookup name = none ∧
        ∀ path, collectionDir name <+: path → node.held path = none := by
      cases hfate with
      | absent hfiles hmap hheld => exact ⟨rfl, hfiles, hmap, hheld⟩
      | making k params' rest htask' hmap hrest =>
        rcases hrest.began with hdir | ⟨-, next', rfl⟩
        · exact nomatch hl.symm.trans hdir
        · refine absurd ⟨name, ⟨params, next, htask⟩, hget, k, params', next', ?_⟩ hrace
          rwa [hpath]
      | present c e hmap hc hfiles => exact nomatch hl.symm.trans hfiles.lookup_dir
      | deleting k opener rest htask' hmap hdir hrest => exact nomatch hl.symm.trans hdir
    obtain ⟨rfl, hfiles, hmap, hheld⟩ := hnone
    refine h.of_touches htask rfl (touches_of htask rfl (fun _ hfree ↦ hfree) (fun _ _ ↦ rfl) rfl
      rfl) fun hdir' ↦ ⟨some i, .making i params (next false) ?_ hmap ?_, ?_⟩
    · exact List.getElem?_set_self (List.getElem?_eq_some_iff.mp htask).1
    · exact (Underway.start h.dir hname hfiles hheld hnext).setTask i _
    · exact hothers.of_others (fun _ hk ↦ nomatch hk)
        (fun k hk ↦ List.getElem?_set_ne (Ne.symm hk)) (Or.inl rfl)
  | some n =>
    rw [hl, ← hpath] at hget
    simp only at hget
    rw [hget]
    show (node.setTask i (.creating name params (next true))).Sound J
    rw [herror]
    exact h.of_idle htask (Or.inl ⟨order, hnext.symm⟩) rfl rfl (fun _ hfree ↦ hfree) rfl rfl
      (Or.inr ⟨e, rfl⟩)

/-- A create that is on its way makes its next call. -/
theorem make {params : String} {op : DiskOp}
    {next : op.Reply → Fs StorageError (Collection X × Trees)}
    (htask : node.tasks[i]? = some (.creating name params (.call op next)))
    (hfate : node.Fate J name (some i)) (hothers : node.OthersIdle J name (some i)) :
    ((node.answer i op).1.setTask i
      (.creating name params (next (node.answer i op).2))).Sound J := by
  have hname : Path.IsFileName name := h.tasks i _ htask
  have htasks : (node.answer i op).1.tasks = node.tasks := by rw [answer_eq]
  have hmemory : (node.answer i op).1.memory = node.memory := by rw [answer_eq]
  cases hfate with
  | making i params' rest htask' hmap hrest =>
    cases htask'.symm.trans htask
    have htouches : Touches name i node _ :=
      touches_answer htask hname h.dir (Or.inl hrest.calls.1)
        (show (MetaTask.creating name params (next (node.answer i op).2)).name = name from rfl)
    refine h.of_touches htask rfl htouches fun _ ↦
      ⟨some i, .making i params (next (node.answer i op).2) ?_ ?_ ?_, ?_⟩
    · show ((node.answer i op).1.tasks.set i _)[i]? = _
      rw [htasks]
      exact List.getElem?_set_self (List.getElem?_eq_some_iff.mp htask).1
    · show (node.answer i op).1.memory.toc.collections.lookup name = none
      rw [hmemory, hmap]
    · exact (hrest.step hname h.dir i).setTask i _
    · exact hothers.of_others (fun k hk ↦ (Option.some.inj hk).symm) htouches.others (Or.inl rfl)
  | deleting i opener rest htask' => exact nomatch htask'.symm.trans htask

/-- A create that has made its collection takes the lock. -/
theorem insertMade (peer : PeerId) {params : String} {collection : Collection X} {trees : Trees}
    (htask : node.tasks[i]? = some (.creating name params (.ok (collection, trees))))
    (hfate : node.Fate J name (some i)) (hothers : node.OthersIdle J name (some i)) :
    (node.insertMade peer i name params collection trees).Sound J := by
  have hname : Path.IsFileName name := h.tasks i _ htask
  cases hfate with
  | deleting i opener rest htask' => exact nomatch htask'.symm.trans htask
  | making i params' rest htask' hmap hrest =>
    cases htask'.symm.trans htask
    obtain ⟨d', order, hrun, hfiles⟩ := hrest.runs
    cases hrun
    have hnot : name ∉ node.memory.toc.collections := AList.lookup_eq_none.mp hmap
    rw [LiveNode.insertMade, if_neg hnot]
    split
    · exact h
    · refine h.of_touches htask rfl (touches_of htask rfl (fun _ hfree ↦ hfree)
        (fun m hm ↦ ?_) rfl rfl) fun _ ↦ ⟨none, .present _ ⟨⟨params⟩, fun _ ↦ ∅⟩
          (AList.lookup_insert _) (Collection.init_opened name ⟨params⟩ order) hfiles, ?_⟩
      · exact AList.lookup_insert_ne hm
      refine hothers.of_others (fun k hk ↦ (Option.some.inj hk).symm)
        (fun k hk ↦ List.getElem?_set_ne (Ne.symm hk)) (Or.inr fun task hset ↦ ?_)
      rw [finish, List.getElem?_set_self (List.getElem?_eq_some_iff.mp htask).1] at hset
      rw [← Option.some.inj hset]
      exact trivial

/-- A delete takes the lock. -/
theorem takeLock (htask : node.tasks[i]? = some (.waiting name)) :
    (node.takeLock i name).Sound J := by
  have hname : Path.IsFileName name := h.tasks i _ htask
  rw [LiveNode.takeLock]
  split
  · exact h
  · split
    · exact h.of_idle htask trivial rfl rfl (fun _ hfree ↦ hfree) rfl rfl trivial
    · rename_i c hc
      obtain ⟨o, hfate, hothers⟩ := h.fate name hname
      cases hfate with
      | absent hfiles hmap hheld => exact nomatch hmap.symm.trans hc
      | making k params rest htask' hmap hrest => exact nomatch hmap.symm.trans hc
      | deleting k opener rest htask' hmap hdir hrest => exact nomatch hmap.symm.trans hc
      | present c' e hmap hopened hfiles =>
        obtain rfl : c' = c := Option.some.inj (hmap.symm.trans hc)
        refine h.of_touches htask rfl (touches_of htask rfl (fun _ hfree ↦ hfree)
          (fun m hm ↦ ?_) rfl rfl) fun _ ↦ ⟨some i, .deleting i (node.opener name) c'.delete ?_
            (AList.lookup_erase name _) hfiles.lookup_dir (Or.inl ⟨c', hopened.path, rfl⟩), ?_⟩
        · exact AList.lookup_erase_ne hm
        · exact List.getElem?_set_self (List.getElem?_eq_some_iff.mp htask).1
        · exact hothers.of_others (fun _ hk ↦ nomatch hk)
            (fun k hk ↦ List.getElem?_set_ne (Ne.symm hk)) (Or.inl rfl)

section Remove

variable {opener : Opener} (hmap : node.memory.toc.collections.lookup name = none)
  (hdir : node.disk.lookup (collectionDir name) = some .dir)
  (hothers : node.OthersIdle J name (some i))

include hmap hdir hothers

/-- A delete finds the directory of its collection. -/
theorem find {next : Bool → Fs StorageError Unit}
    (htask : node.tasks[i]?
      = some (.deleting name opener (.call (.pathExists (collectionDir name)) next)))
    (hnext : next true = (Fs.removeDirAll (collectionDir name)).mapError fun e ↦
      .serviceError s!"Failed to delete collection: {e}") :
    (node.setTask i
      (.deleting name opener (next (node.disk.get (collectionDir name)).isOk))).Sound J := by
  have hname : Path.IsFileName name := h.tasks i _ htask
  have hget : node.disk.get (collectionDir name) = .ok .dir := by
    rw [FileTree.get_eq_lookup (collectionDir_isOrdinary hname), hdir]
  rw [hget]
  refine h.of_touches htask rfl (touches_of htask rfl (fun _ hfree ↦ hfree) (fun _ _ ↦ rfl) rfl
    rfl) fun _ ↦ ⟨some i, .deleting i opener (next true) ?_ hmap hdir (Or.inr hnext), ?_⟩
  · exact List.getElem?_set_self (List.getElem?_eq_some_iff.mp htask).1
  · exact hothers.of_others (fun k hk ↦ (Option.some.inj hk).symm)
      (fun k hk ↦ List.getElem?_set_ne (Ne.symm hk)) (Or.inl rfl)

/-- A delete removes the directory of its collection. -/
theorem remove {next : Except String Unit → Fs StorageError Unit}
    (htask : node.tasks[i]?
      = some (.deleting name opener (.call (.removeDirAll (collectionDir name)) next)))
    (hnext : next (.ok ()) = .ok ()) :
    ((node.answer i (.removeDirAll (collectionDir name))).1.setTask i (.deleting name opener
      (next (node.answer i (.removeDirAll (collectionDir name))).2))).Sound J := by
  have hname : Path.IsFileName name := h.tasks i _ htask
  have hord := collectionDir_isOrdinary hname
  have hanswer : node.answer i (.removeDirAll (collectionDir name))
      = ({ node with
          disk := node.disk.prune (collectionDir name)
          held := fun q ↦ if collectionDir name <+: q then none else node.held q }, .ok ()) := by
    rw [answer, FileTree.removeDirAll_of_dir hord hdir]
  have hview : (node.disk.prune (collectionDir name)).lookup
      = View.without (collectionDir name) node.disk.lookup :=
    FileTree.lookup_prune_eq (by simp [collectionDir])
  have htouches : Touches name i node ((node.answer i
      (.removeDirAll (collectionDir name))).1.setTask
      i (.deleting name opener (next (node.answer i (.removeDirAll (collectionDir name))).2))) :=
    touches_answer htask hname h.dir (Or.inr rfl) rfl
  rw [hanswer] at htouches ⊢
  refine h.of_touches htask rfl htouches fun _ ↦ ⟨none, .absent ?_ hmap fun path hpath ↦ ?_, ?_⟩
  · exact (congrArg _ hview).trans (View.below_without_self _)
  · exact if_pos hpath
  · refine hothers.of_others (fun k hk ↦ (Option.some.inj hk).symm) htouches.others
      (Or.inr fun task hset ↦ ?_)
    rw [setTask, List.getElem?_set_self (List.getElem?_eq_some_iff.mp htask).1] at hset
    rw [← Option.some.inj hset]
    exact hnext

end Remove

/-- **A step keeps the node sound** unless it is a create that does not find what another one is
about to make. -/
theorem step (peer : PeerId) (hrace : ¬ node.Races i) : (node.step peer i).Sound J := by
  cases htask : node.tasks[i]? with
  | none =>
    rw [LiveNode.step, htask]
    exact h
  | some task =>
    obtain ⟨o, hfate, hothers⟩ := h.fate task.name (h.tasks i task htask)
    rw [LiveNode.step, htask]
    by_cases ho : o = some i
    · -- the task is at work on the files of its collection
      subst ho
      cases task with
      | creating name params rest =>
        have hfate : node.Fate J name (some i) := hfate
        cases rest with
        | ok made => exact h.insertMade peer htask hfate hothers
        | error e => exact absurd (Or.inr ⟨e, rfl⟩) (hfate.not_idle (h.tasks i _ htask) htask)
        | panicked message =>
          cases hfate with
          | making i params' rest htask' hmap hrest =>
            cases htask'.symm.trans htask
            obtain ⟨d', order, hrun, -⟩ := hrest.runs
            exact nomatch (Prod.ext_iff.mp hrun).2
          | deleting i opener rest htask' => exact nomatch htask'.symm.trans htask
        | call op next => exact h.make htask hfate hothers
      | waiting name => exact h.takeLock htask
      | deleting name opener rest =>
        have hfate : node.Fate J name (some i) := hfate
        have hothers : node.OthersIdle J name (some i) := hothers
        cases hfate with
        | making i params rest' htask' => exact nomatch htask'.symm.trans htask
        | deleting i opener' rest' htask' hmap hdir hrest =>
          cases htask'.symm.trans htask
          rcases hrest with ⟨c, hpath, rfl⟩ | rfl
          · rw [Collection.delete, hpath] at htask ⊢
            exact h.find hmap hdir hothers htask rfl
          · exact h.remove hmap hdir hothers htask rfl
      | done operation answer => exact h
    · have hidle : task.Idle J := hothers i task htask rfl ho
      cases task with
      | creating name params rest =>
        rcases hidle with ⟨order, rfl⟩ | ⟨e, rfl⟩
        · exact h.look rfl htask hrace
        · exact h.of_idle htask (Or.inr ⟨e, rfl⟩) rfl rfl
            (fun _ hfree ↦ by simp [close, finish, hfree]) rfl rfl trivial
      | waiting name => exact h.takeLock htask
      | deleting name opener rest =>
        obtain rfl : rest = .ok () := hidle
        exact h.of_idle htask rfl rfl rfl
          (fun _ hfree ↦ by simp [release, close, finish, hfree]) rfl rfl trivial
      | done operation answer => exact h

end Sound

end LiveNode

end Smoldb
