import Smoldb.Disk.Fates

/-!
# Creates and deletes at the same time

Between the look of a create and the making of the directory another create of the name may look
too, and then both go on in one directory.  `agrees_of_no_race` says that nothing else goes wrong:
as long as no two creates do that, the map and the disk agree at any time, and a name is not created
twice without a delete in between.

The first half is in the fates of the names (`LiveNode.Sound`).  The second is a matter of what has
been returned so far: `LiveNode.Logged` says that a name of which the last success was a create is
in the map, unless a delete that holds the lock has just taken it out.  It is kept by everything
that can happen, since an insert into the map is what a create returns after, and since a delete
keeps the lock of the map until it has returned.

The schedule at the end of the file is what the theorem excludes.  Two creates of one name both find
that there is no directory, and both make it; the second one to write the config leaves its params
on disk, while the map has those of the first one to insert.
-/

set_option autoImplicit false

namespace Smoldb

open FileTree (View LocalTo)
open TableOfContent (collectionsPath newPath makeCollection)

variable {V : Type} {X : Crates V} {J : ConfigJson} {peer : PeerId}

/-! ## The start -/

/-- A collection has its trees open in its own directory. -/
theorem Collection.Opened.segmentPaths_below {c : Collection X} {name : CollectionName}
    {config : CollectionConfig} (h : c.Opened name config) {path : Path}
    (hpath : path ∈ c.segmentPaths) : collectionDir name <+: path := by
  obtain ⟨⟨s, rs⟩, hrs, hsegment⟩ := List.mem_flatMap.mp hpath
  obtain ⟨-, hshard⟩ := h.eq_openedShard (AList.mem_lookup_iff.mpr hrs)
  rw [hshard] at hsegment
  obtain ⟨e, he, rfl⟩ := List.mem_map.mp hsegment
  obtain rfl := List.mem_singleton.mp he
  exact (List.prefix_append _ _).trans (List.prefix_append _ _)

theorem MetaTask.start_idle (J : ConfigJson) (order : IterOrder (Σ _ : ShardId, ReplicaSet))
    (operation : CollectionMetaOperation) : (start (X := X) J order operation).Idle J := by
  cases operation with
  | createCollection name params => exact Or.inl ⟨order, rfl⟩
  | deleteCollection name => exact trivial

theorem MetaTask.start_name (J : ConfigJson) (order : IterOrder (Σ _ : ShardId, ReplicaSet))
    (operation : CollectionMetaOperation) :
    (start (X := X) J order operation).name = operation.collectionName := by
  cases operation <;> rfl

/-- A node is sound when operations are sent to it. -/
theorem Node.Represents.begin {node : Node X} {cat : Catalog} (h : node.Represents J peer cat)
    (order : ℕ → IterOrder (Σ _ : ShardId, ReplicaSet)) {operations : List CollectionMetaOperation}
    (hnames : ∀ operation ∈ operations, Path.IsFileName operation.collectionName) :
    (node.begin J order operations).Sound J := by
  have htasks : ∀ (k : ℕ) (task : MetaTask X), (node.begin J order operations).tasks[k]?
      = some task →
      ∃ operation ∈ operations, task = .start J (order k) operation := by
    intro k task htask
    rw [Node.begin, List.getElem?_mapIdx, Option.map_eq_some_iff] at htask
    obtain ⟨operation, hoperation, rfl⟩ := htask
    exact ⟨operation, List.mem_of_getElem? hoperation, rfl⟩
  refine ⟨h.disk.dir, fun name hmem ↦ ?_, fun k task htask ↦ ?_, fun name hname ↦ ⟨none, ?_, ?_⟩⟩
  · obtain ⟨c, hc⟩ := Option.isSome_iff_exists.mp (AList.lookup_isSome.mpr hmem)
    exact (h.path_eq hc).1
  · obtain ⟨operation, hmem, rfl⟩ := htasks k task htask
    rw [MetaTask.start_name]
    exact hnames operation hmem
  · cases he : cat name with
    | none =>
      have hmap : name ∉ node.memory.toc.collections := h.memory.of_none he
      refine .absent (h.disk.none_of he) (AList.lookup_eq_none.mpr hmap) fun path hpath ↦ ?_
      -- no collection of another name has a tree open there
      rw [Node.begin, Option.map_eq_none_iff, List.find?_eq_none]
      intro entry hentry hopen
      have hlookup := AList.mem_lookup_iff.mpr hentry
      obtain ⟨e, he'⟩ := h.exists_entry hlookup
      have hbelow := (h.opened he' hlookup).segmentPaths_below (by simpa using hopen)
      have hne : name ≠ entry.1 := by
        rintro rfl
        exact nomatch he.symm.trans he'
      obtain ⟨r, rfl⟩ := hpath
      exact collectionDir_apart hne.symm r hbelow
    | some e =>
      obtain ⟨c, hc, hopened, -⟩ := h.memory.of_some he
      exact .present c e hc hopened (h.disk.some_of he)
  · intro k task htask _ _
    obtain ⟨operation, -, rfl⟩ := htasks k task htask
    exact MetaTask.start_idle J (order k) operation

/-! ## What is returned -/

/-- Of the operations on a name that succeeded, the last was a create. -/
def LastCreates (returned : List (CollectionMetaOperation × Answer)) (name : CollectionName) :
    Prop :=
  ∃ params before after, returned = before ++ (.createCollection name params,
    some (.ok true)) :: after ∧
    (CollectionMetaOperation.deleteCollection name, some (.ok true)) ∉ after

theorem lastCreates_concat {returned : List (CollectionMetaOperation × Answer)}
    {x : CollectionMetaOperation × Answer} {name : CollectionName}
    (h : LastCreates (returned ++ [x]) name) :
    (∃ params, x = (.createCollection name params, some (.ok true))) ∨
      LastCreates returned name ∧ x ≠ (.deleteCollection name, some (.ok true)) := by
  obtain ⟨params, before, after, heq, hnot⟩ := h
  rcases List.eq_nil_or_concat' after with rfl | ⟨after, y, rfl⟩
  · obtain ⟨-, rfl⟩ := List.append_singleton_inj.mp heq
    exact Or.inl ⟨params, rfl⟩
  · rw [← List.cons_append, ← List.append_assoc] at heq
    obtain ⟨rfl, rfl⟩ := List.append_singleton_inj.mp heq
    refine Or.inr ⟨⟨params, before, after, rfl, fun hmem ↦ hnot (List.mem_append_left _ hmem)⟩, ?_⟩
    rintro rfl
    exact hnot (List.mem_append_right _ (List.mem_singleton_self _))

namespace LiveNode

variable {node node' : LiveNode X} {name : CollectionName} {i : ℕ}

/-- A create that succeeds now is the first since a delete. -/
theorem CreatesOnce.concat (h : node.CreatesOnce) {x : CollectionMetaOperation × Answer}
    (hreturned : node'.returned = node.returned ++ [x])
    (hx : ∀ name params, x = (.createCollection name params, some (.ok true)) →
      ¬ LastCreates node.returned name) : node'.CreatesOnce := by
  intro name params params' before between after heq
  rw [hreturned] at heq
  rcases List.eq_nil_or_concat' after with rfl | ⟨after, y, rfl⟩
  · obtain ⟨hl, rfl⟩ := List.append_singleton_inj.mp heq
    by_contra hnot
    exact hx name params' rfl ⟨params, before, between, hl, hnot⟩
  · rw [← List.cons_append, ← List.append_assoc] at heq
    exact h name params params' before between after (List.append_singleton_inj.mp heq).1

/-- A task is a delete of a name that holds the lock. -/
def Deletes (node : LiveNode X) (name : CollectionName) (k : ℕ) : Prop :=
  ∃ opener rest, node.tasks[k]? = some (.deleting name opener rest)

/-- A name that was created last is in the map, or a delete has just taken it out. -/
structure Logged (node : LiveNode X) : Prop where
  lock : ∀ name k, node.Deletes name k → node.lock = some k
  last : ∀ name, LastCreates node.returned name →
    name ∈ node.memory.toc.collections ∨ ∃ k, node.Deletes name k
  once : node.CreatesOnce

/-- Nothing has happened to the map and the lock, and no delete or create has succeeded. -/
theorem Logged.of_same (h : node.Logged) (htoc : node'.memory.toc = node.memory.toc)
    (hlock : node'.lock = node.lock) (hdeletes : ∀ name k, node'.Deletes name k ↔
      node.Deletes name k)
    (hreturned : node'.returned = node.returned ∨ ∃ operation answer,
      node'.returned = node.returned ++ [(operation, answer)] ∧ answer ≠ some (.ok true)) :
    node'.Logged := by
  refine ⟨fun name k hk ↦ ?_, fun name hlast ↦ ?_, ?_⟩
  · rw [hlock]
    exact h.lock name k ((hdeletes name k).mp hk)
  · rw [htoc]
    refine (h.last name ?_).imp_right fun ⟨k, hk⟩ ↦ ⟨k, (hdeletes name k).mpr hk⟩
    rcases hreturned with hsame | ⟨operation, answer, hconcat, hanswer⟩
    · rwa [hsame] at hlast
    · rw [hconcat] at hlast
      exact ((lastCreates_concat hlast).resolve_left fun ⟨_, hx⟩ ↦ hanswer (Prod.ext_iff.mp hx).2).1
  · rcases hreturned with hsame | ⟨operation, answer, hconcat, hanswer⟩
    · rw [CreatesOnce, hsame]
      exact h.once
    · exact h.once.concat hconcat fun _ _ hx ↦ absurd (Prod.ext_iff.mp hx).2 hanswer

/-- Only the task that takes a step can begin or end to hold the lock. -/
theorem deletes_set {task task' : MetaTask X} (htask : node.tasks[i]? = some task)
    (htasks : node'.tasks = node.tasks.set i task') (name : CollectionName) (k : ℕ) :
    node'.Deletes name k ↔
      if k = i then ∃ opener rest, task' = .deleting name opener rest else node.Deletes name k := by
  rw [Deletes, htasks]
  split
  · rename_i hk
    subst hk
    rw [List.getElem?_set_self (List.getElem?_eq_some_iff.mp htask).1]
    simp only [Option.some_inj]
  · rename_i hk
    rw [List.getElem?_set_ne (Ne.symm hk)]
    exact Iff.rfl

theorem deletes_same {task task' : MetaTask X} (htask : node.tasks[i]? = some task)
    (htasks : node'.tasks = node.tasks.set i task')
    (hsame : ∀ name, (∃ opener rest, task' = .deleting name opener rest) ↔
      ∃ opener rest, task = .deleting name opener rest) (name : CollectionName) (k : ℕ) :
    node'.Deletes name k ↔ node.Deletes name k := by
  rw [deletes_set htask htasks]
  split
  · rename_i hk
    subst hk
    rw [hsame, Deletes, htask]
    simp only [Option.some_inj]
  · exact Iff.rfl

namespace Logged

variable (h : node.Logged)

include h

theorem answer {task task' : MetaTask X} (htask : node.tasks[i]? = some task) (op : DiskOp)
    (hsame : ∀ name, (∃ opener rest, task' = .deleting name opener rest) ↔
      ∃ opener rest, task = .deleting name opener rest) :
    ((node.answer i op).1.setTask i task').Logged := by
  have htasks : ((node.answer i op).1.setTask i task').tasks = node.tasks.set i task' := by
    rw [answer_eq]
    rfl
  refine h.of_same ?_ ?_ (deletes_same htask htasks hsame) (Or.inl ?_)
  all_goals
    rw [answer_eq]
    rfl

theorem insertMade (peer : PeerId) {params : String} {collection : Collection X} {trees : Trees}
    (htask : node.tasks[i]? = some (.creating name params (.ok (collection, trees)))) :
    (node.insertMade peer i name params collection trees).Logged := by
  have hdeletes : ∀ (node' : LiveNode X) operation answer,
      node'.tasks = node.tasks.set i (.done operation answer) →
        ∀ m k, node'.Deletes m k ↔ node.Deletes m k := fun node' operation answer htasks ↦
    deletes_same htask htasks fun m ↦ by simp
  rw [LiveNode.insertMade]
  split
  · exact h
  · rename_i hlock
    have hnone : ∀ m k, ¬ node.Deletes m k := fun m k hk ↦ hlock (by rw [h.lock m k hk]; rfl)
    split
    · exact h.of_same rfl rfl (hdeletes _ _ _ rfl) (Or.inr ⟨_, _, rfl, by simp⟩)
    · rename_i hnot
      refine ⟨fun m k hk ↦ absurd ((hdeletes _ _ _ rfl m k).mp hk) (hnone m k), fun m hlast ↦ ?_,
        h.once.concat rfl fun m params' hx hlast ↦ ?_⟩
      · refine Or.inl ((AList.mem_insert _).mpr ?_)
        rcases lastCreates_concat hlast with ⟨params', hx⟩ | ⟨hlast, -⟩
        · cases hx
          exact Or.inl rfl
        · exact Or.inr ((h.last m hlast).resolve_right fun hk ↦ hk.elim (hnone m))
      · cases hx
        exact (h.last name hlast).elim hnot fun hk ↦ hk.elim (hnone name)

theorem takeLock (htask : node.tasks[i]? = some (.waiting name)) :
    (node.takeLock i name).Logged := by
  rw [LiveNode.takeLock]
  split
  · exact h
  · rename_i hlock
    have hnone : ∀ m k, ¬ node.Deletes m k := fun m k hk ↦ hlock (by rw [h.lock m k hk]; rfl)
    split
    · exact h.of_same rfl rfl (deletes_same htask rfl fun m ↦ by simp) (Or.inr ⟨_, _, rfl, by simp⟩)
    · refine ⟨fun m k hk ↦ ?_, fun m hlast ↦ ?_, h.once⟩
      · rw [deletes_set htask rfl] at hk
        split at hk
        · rename_i hki
          rw [hki]
          rfl
        · exact absurd hk (hnone m k)
      · by_cases hm : m = name
        · subst hm
          refine Or.inr ⟨i, ?_⟩
          rw [deletes_set htask rfl, if_pos rfl]
          exact ⟨_, _, rfl⟩
        · refine Or.inl (AList.mem_erase.mpr ⟨hm, ?_⟩)
          exact (h.last m hlast).resolve_right fun hk ↦ hk.elim (hnone m)

theorem release {opener : Opener} {rest : Fs StorageError Unit}
    (htask : node.tasks[i]? = some (.deleting name opener rest)) :
    (node.release i name opener (some (.ok true))).Logged := by
  have hdeletes : ∀ m k, (node.release i name opener (some (.ok true))).Deletes m k →
      k ≠ i ∧ node.Deletes m k := by
    intro m k hk
    rw [deletes_set htask rfl] at hk
    split at hk
    · obtain ⟨_, _, hdone⟩ := hk
      cases hdone
    · rename_i hki
      exact ⟨hki, hk⟩
  -- it was the only one to hold the lock
  have hown : ∀ m k, node.Deletes m k → k = i ∧ m = name := by
    intro m k hk
    obtain rfl : k = i :=
      Option.some.inj ((h.lock m k hk).symm.trans (h.lock name i ⟨opener, rest, htask⟩))
    obtain ⟨_, _, htask'⟩ := hk
    cases htask'.symm.trans htask
    exact ⟨rfl, rfl⟩
  refine ⟨fun m k hk ↦ ?_, fun m hlast ↦ ?_, h.once.concat rfl fun m params hx ↦ by cases hx⟩
  · obtain ⟨hki, hk⟩ := hdeletes m k hk
    exact absurd (hown m k hk).1 hki
  · rcases lastCreates_concat hlast with ⟨params, hx⟩ | ⟨hlast, hx⟩
    · cases hx
    · refine Or.inl ((h.last m hlast).resolve_right fun hdeletes ↦ ?_)
      obtain ⟨k, hk⟩ := hdeletes
      exact hx (by rw [(hown m k hk).2])

/-- **A step keeps to the order** of creates and deletes. -/
theorem step (hsound : node.Sound J) (peer : PeerId) (i : ℕ) : (node.step peer i).Logged := by
  cases htask : node.tasks[i]? with
  | none =>
    rw [LiveNode.step, htask]
    exact h
  | some task =>
    rw [LiveNode.step, htask]
    cases task with
    | creating name params rest =>
      have hfinish : ∀ answer, answer ≠ some (.ok true) → ((node.close (.create i)).finish i
          (.createCollection name params) answer).Logged := fun answer hanswer ↦
        h.of_same rfl rfl (deletes_same htask rfl fun m ↦ by simp) (Or.inr ⟨_, _, rfl, hanswer⟩)
      cases rest with
      | ok made => exact h.insertMade peer htask
      | error e => exact hfinish _ (by simp)
      | panicked message => exact hfinish _ (by simp)
      | call op next => exact h.answer htask op fun m ↦ by simp
    | waiting name => exact h.takeLock htask
    | deleting name opener rest =>
      -- a delete does not fail
      have hrest : Removing X name rest ∨ rest = .ok () := by
        obtain ⟨o, hfate, hothers⟩ := hsound.fate name (hsound.tasks i _ htask)
        by_cases ho : o = some i
        · subst ho
          cases hfate with
          | making i params rest' htask' => cases htask'.symm.trans htask
          | deleting i opener' rest' htask' hmap hdir hrest =>
            cases htask'.symm.trans htask
            exact Or.inl hrest
        · exact Or.inr (hothers i _ htask rfl ho)
      rcases hrest with (⟨c, hpath, rfl⟩ | rfl) | rfl
      · exact h.answer htask _ fun m ↦ by simp
      · exact h.answer htask _ fun m ↦ by simp
      · exact h.release htask
    | done operation answer => exact h

end Logged

end LiveNode

/-! ## Whole runs -/

theorem LiveNode.Sound.agrees {node : LiveNode X} (h : node.Sound J) : node.Agrees J := by
  intro name c hc
  obtain ⟨o, hfate, -⟩ := h.fate name (h.proper name (AList.lookup_isSome.mp (by rw [hc]; rfl)))
  cases hfate with
  | absent hfiles hmap hheld => exact nomatch hmap.symm.trans hc
  | making i params rest htask hmap hrest => exact nomatch hmap.symm.trans hc
  | deleting i opener rest htask hmap hdir hrest => exact nomatch hmap.symm.trans hc
  | present c' e hmap hopened hfiles =>
    obtain rfl : c' = c := Option.some.inj (hmap.symm.trans hc)
    refine ⟨⟨J.encode e.config, ?_, ?_⟩, fun s hs ↦ ?_⟩
    · rw [hfiles.lookup_some, collectionFiles_config]
    · rw [hopened.config, J.fromReader_encode]
    · rw [hfiles.lookup_some, collectionFiles_shard J e.config e.trees (hopened.mem_iff.mp hs)]

theorem Node.begin_logged (J : ConfigJson) (order : ℕ → IterOrder (Σ _ : ShardId, ReplicaSet))
    (operations : List CollectionMetaOperation) (node : Node X) :
    (node.begin J order operations).Logged := by
  refine ⟨fun name k hk ↦ ?_, fun name hlast ↦ ?_,
      fun name params params' before between after h ↦ ?_⟩
  · obtain ⟨opener, rest, htask⟩ := hk
    rw [Node.begin, List.getElem?_mapIdx, Option.map_eq_some_iff] at htask
    obtain ⟨operation, -, hstart⟩ := htask
    cases operation <;> exact nomatch hstart
  · obtain ⟨params, before, after, h, -⟩ := hlast
    exact absurd (congrArg List.length h) (by simp [Node.begin])
  · exact absurd (congrArg List.length h) (by simp [Node.begin])

/-- **Map and disk agree unless creates race.**  Take a node that has been running, and send it any
number of creates and deletes at the same time, of any names that can be names of files, with their
steps in any order.  If no create looks for the directory of its collection in vain while another
one that has looked is about to make it, then at any time every collection in the map has its config
on disk, and the directories of its shards; and between two creates of a name that succeeded there
has been a delete of it that did. -/
theorem agrees_of_no_race (X : Crates V) (J : ConfigJson) (peer : PeerId) (env : LoadEnv)
    (events : List (Node.Event V))
    (hnames : ∀ done event, done ++ [event] <+: events →
      event.NamesFile (Node.run J peer (.restart env :: done) (Node.down : Node X)).1)
    (operations : List CollectionMetaOperation)
    (hoperations : ∀ operation ∈ operations, Path.IsFileName operation.collectionName)
    (order : ℕ → IterOrder (Σ _ : ShardId, ReplicaSet)) (schedule : List ℕ) {node : Node X}
    (hnode : (Node.run J peer (.restart env :: events) (Node.down : Node X)).1 = node)
    (hrace : ∀ done i, done ++ [i] <+: schedule →
      ¬ (done.foldl (LiveNode.step peer) (node.begin J order operations)).Races i) :
    ∀ done, done <+: schedule →
      (done.foldl (LiveNode.step peer) (node.begin J order operations)).Agrees J ∧
      (done.foldl (LiveNode.step peer) (node.begin J order operations)).CreatesOnce := by
  obtain ⟨cat, h⟩ := Node.exists_represents X J peer env hnames events List.prefix_rfl
  rw [hnode] at h
  have hstep : ∀ (live : LiveNode X) (i : ℕ), live.Sound J ∧ live.Logged → ¬ live.Races i →
      (live.step peer i).Sound J ∧ (live.step peer i).Logged :=
    fun live i hlive hnot ↦ ⟨hlive.1.step peer hnot, hlive.2.step hlive.1 peer i⟩
  intro done hdone
  obtain ⟨hsound, hlogged⟩ := Runs.forall_run hstep
    ⟨h.begin order hoperations, node.begin_logged J order operations⟩ hrace done hdone
  exact ⟨hsound.agrees, hlogged.once⟩

/-- Three creates of a name, and a delete. -/
def fourOperations : List CollectionMetaOperation :=
  [.createCollection "c" "a", .createCollection "c" "b", .deleteCollection "c",
    .createCollection "c" "d"]

/-- The second create looks when the first has made the directory, and the last one after the
delete.  All of them run to their end. -/
def inTurn : List ℕ :=
  [0, 0, 1] ++ List.replicate 9 0 ++ [1] ++ List.replicate 4 2 ++ List.replicate 11 3

theorem agrees_of_no_race_in_turn :
    let live := inTurn.foldl (LiveNode.step 101)
      ((Node.fresh : Node Crates.bool).begin .plain (fun _ ↦ .insertion) fourOperations)
    live.Agrees .plain ∧ live.CreatesOnce ∧ live.returned.map Prod.fst = fourOperations ∧
      live.returned.map (fun x ↦ decide (x.2 = some (.ok true))) = [true, false, true, true] := by
  have hraces : ∀ done i, done ++ [i] <+: inTurn → ¬ (done.foldl (LiveNode.step 101)
      ((Node.fresh : Node Crates.bool).begin .plain (fun _ ↦ .insertion) fourOperations)).Races
        i := by
    have hcons := @Runs.forall_steps_cons (LiveNode Crates.bool) _ (LiveNode.step 101)
      fun s i ↦ ¬ s.Races i
    -- only a create that looks can race, and that is its first step
    have hpast : ∀ {s : LiveNode Crates.bool} {i : ℕ} {l : List ℕ}, (∀ name, ¬ s.Looks name i) →
        (∀ done k, done ++ [k] <+: l →
          ¬ (done.foldl (LiveNode.step 101) (s.step 101 i)).Races k) →
        ∀ done k, done ++ [k] <+: i :: l → ¬ (done.foldl (LiveNode.step 101) s).Races k :=
      fun hlooks hrest ↦ hcons.mpr ⟨fun hrace ↦ hrace.elim fun name h ↦ hlooks name h.1, hrest⟩
    refine hcons.mpr ⟨?_, hpast ?_ (hcons.mpr ⟨?_, ?_⟩)⟩
    · rintro ⟨name, -, -, j, params, next, hj⟩
      have hlt : j < 4 := (List.getElem?_eq_some_iff.mp hj).1
      interval_cases j <;> exact nomatch hj
    · rintro name ⟨params, next, htask⟩
      exact nomatch htask
    · rintro ⟨name, ⟨params, next, htask⟩, hget, -⟩
      cases htask
      exact nomatch hget
    iterate 14
      refine hpast ?_ ?_
      · rintro name ⟨params, next, htask⟩
        exact nomatch htask
    refine hcons.mpr ⟨?_, ?_⟩
    · rintro ⟨name, -, -, j, params, next, hj⟩
      have hlt : j < 4 := (List.getElem?_eq_some_iff.mp hj).1
      interval_cases j <;> exact nomatch hj
    iterate 10
      refine hpast ?_ ?_
      · rintro name ⟨params, next, htask⟩
        exact nomatch htask
    exact fun done i hprefix ↦ absurd (List.prefix_nil.mp hprefix) (by simp)
  obtain ⟨hagrees, honce⟩ := agrees_of_no_race Crates.bool .plain 101 .insertion []
    (fun done event hprefix ↦ absurd hprefix (by simp)) fourOperations (by decide)
    (fun _ ↦ .insertion) inTurn rfl hraces inTurn List.prefix_rfl
  exact ⟨hagrees, honce, rfl, rfl⟩

/-- Two creates of a name. -/
def twoCreates : List CollectionMetaOperation :=
  [.createCollection "c" "a", .createCollection "c" "b"]

/-- **Two creates that both look first.**  The first succeeds, and what it keeps in memory is not
what the second has written. -/
theorem not_agrees_of_race : ¬ ∀ (operations : List CollectionMetaOperation)
    (order : ℕ → IterOrder (Σ _ : ShardId, ReplicaSet)) (schedule : List ℕ),
    (∀ operation ∈ operations, Path.IsFileName operation.collectionName) →
    ∀ done, done <+: schedule →
      (done.foldl (LiveNode.step 101) (Node.fresh.begin .plain order operations)).Agrees .plain ∧
      (done.foldl (LiveNode.step 101) (Node.fresh.begin .plain order operations)).CreatesOnce := by
  intro hall
  obtain ⟨hagrees, -⟩ := hall twoCreates (fun _ ↦ .insertion)
    [0, 1, 0, 0, 0, 0, 0, 0, 0, 0, 0, 0, 1, 1, 1] (by decide) _ List.prefix_rfl
  obtain ⟨⟨text, htext, hparse⟩, -⟩ := hagrees "c"
    (Collection.init "c" ⟨"a"⟩ (collectionDir "c") .insertion) rfl
  have hb : text = ConfigJson.configText ⟨"b"⟩ := by
    cases htext
    rfl
  rw [hb] at hparse
  have hsame : (⟨"b"⟩ : CollectionConfig) = ⟨"a"⟩ :=
    Except.ok.inj ((ConfigJson.readConfig_configText ⟨"b"⟩).symm.trans hparse)
  exact absurd (congrArg CollectionConfig.params hsame) (by decide)

end Smoldb
