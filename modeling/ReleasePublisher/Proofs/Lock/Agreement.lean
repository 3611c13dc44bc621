import Mathlib.Data.List.Forall2
import ReleasePublisher.Proofs.FileSystem.Agreement
import ReleasePublisher.Proofs.Lock.Release

/-!
The lock is taken and given back alike in two file systems that show the same except at one location
and below it, as long as the paths of the lock keep off that location.
-/
namespace ReleasePublisher

namespace Site

open FileSystem

variable {c : Location}

/-- Sites whose files show the same but at a location and below it, now and at every call, and where
the user has seen the same. -/
structure Alike (c : Location) (site site' : Site) : Prop where
  disk : SameOff c site.disk site'.disk
  shown_eq : site'.shown = site.shown
  exchanges : List.Forall₂ (Exchange.Alike (SameOff c)) site.exchanges site'.exchanges

theorem Alike.change {site site' : Site} (h : Alike c site site') {disk disk' : FileSystem}
    (hdisk : SameOff c disk disk') : Alike c (site.change disk) (site'.change disk') := by
  refine ⟨hdisk, h.shown_eq, ?_⟩
  have hexchanges : ∀ (site : Site) (disk : FileSystem),
      (site.change disk).exchanges = site.exchanges := by
    intro site disk
    show exchangesIn (site.history ++ _) = _
    rw [exchangesIn_append, exchangesIn_changed, exchangesIn_nil, List.append_nil]
    rfl
  rw [hexchanges, hexchanges]
  exact h.exchanges

theorem Alike.log {site site' : Site} (h : Alike c site site') (level : LogLevel) (text : String) :
    Alike c (site.log level text) (site'.log level text) :=
  ⟨h.disk, congrArg (· ++ _) h.shown_eq, h.exchanges⟩

theorem Alike.attempt {site site' : Site} (h : Alike c site site')
    (operation : FileSystem → Except FileFault FileSystem)
    (hoperation : GoAlike (SameOff c) (operation site.disk) (operation site'.disk)) :
    (site'.attempt operation).1 = (site.attempt operation).1 ∧
      Alike c (site.attempt operation).2 (site'.attempt operation).2 := by
  rw [Site.attempt, Site.attempt]
  generalize operation site.disk = d at hoperation ⊢
  generalize operation site'.disk = d' at hoperation ⊢
  cases hoperation with
  | done step => exact ⟨rfl, h.change step⟩
  | failed fault => exact ⟨rfl, h⟩

end Site

namespace RunLock

open FileSystem

def pathsIn (root : Path) : List Path :=
  pathIn root :: (directoryIn root).ancestors.flatMap fun path => [path, path.withoutEndSlashes]

/-- A location has nothing to do with the lock: no path for it comes there, and it is not below the
lock file or in the directory of the lock. -/
def Beside (c : Location) (root : Path) (fs : FileSystem) : Prop :=
  (∀ path ∈ pathsIn root, Off c fs path) ∧
    (∀ l, fs.place .follow (pathIn root) = .ok (.taken l) → ¬ l <+: c) ∧
    ∀ l, fs.place .keep (directoryIn root) = .ok (.taken l) → ¬ l <+: c

instance (c : Location) (root : Path) (fs : FileSystem) : Decidable (Beside c root fs) :=
  inferInstanceAs (Decidable (_ ∧ _ ∧ _))

variable {c l : Location} {owner : LockOwner} {root path : Path}
  {start start' fs fs' : FileSystem}

theorem mem_pathsIn {path : Path} (h : path ∈ (directoryIn root).ancestors) :
    path ∈ pathsIn root ∧ path.withoutEndSlashes ∈ pathsIn root := by
  refine ⟨List.mem_cons_of_mem _ ?_, List.mem_cons_of_mem _ ?_⟩
  · exact List.mem_flatMap.mpr ⟨path, h, List.mem_cons_self⟩
  · exact List.mem_flatMap.mpr ⟨path, h, List.mem_cons_of_mem _ List.mem_cons_self⟩

namespace Beside

theorem file (h : Beside c root fs) : Off c fs (pathIn root) := h.1 _ List.mem_cons_self

theorem directory (h : Beside c root fs) : Off c fs (directoryIn root) := by
  obtain ⟨above, habove⟩ := (directoryIn root).exists_ancestors_eq_cons
  exact h.1 _ (mem_pathsIn (habove ▸ List.mem_cons_self)).1

/-- The location has as little to do with the lock in the other file system. -/
theorem sameOff (h : Beside c root fs) (hsame : SameOff c fs fs') : Beside c root fs' := by
  refine ⟨fun path hpath => hsame.off (h.1 path hpath), ?_, ?_⟩
  · rw [(hsame.place_eq h.file .follow).1]
    exact h.2.1
  · rw [(hsame.place_eq h.directory .keep).1]
    exact h.2.2

end Beside

/-- From some files to others, the paths of a project lead no further than before. -/
structure NoFurther (root : Path) (start fs : FileSystem) : Prop where
  within : Turns.Within fs.turns start.turns
  here_eq : root.isAbsolute = true ∨ fs.workingDirectory = start.workingDirectory

namespace NoFurther

theorem refl (root : Path) (fs : FileSystem) : NoFurther root fs fs :=
  ⟨fun _ => Or.inl rfl, Or.inr rfl⟩

theorem of_changes (hlock : LockPlace root start l) (hchanges : ChangesOnly l start fs)
    (hturn : fs.turns l = none ∨ fs.turns l = some .stop) : NoFurther root start fs := by
  refine ⟨fun x => ?_, here_locked hlock hchanges⟩
  by_cases hx : x = l
  · exact Or.inr (hx ▸ hturn)
  · exact Or.inl (turns_eq_of_face?_eq (hchanges.face?_eq x hx))

/-- A path that is off the location stays off it. -/
theorem off (h : NoFurther root start fs) (hoff : Off c start path)
    (hbase : root.isAbsolute = true → path.isAbsolute = true) : Off c fs path :=
  hoff.within h.within (h.here_eq.imp_left hbase)

end NoFurther

theorem Cleared.noFurther (h : Cleared root start fs) : NoFurther root start fs := by
  rcases h.cases with rfl | ⟨l, node, hlock, -, hat, hbare, rfl⟩
  · exact .refl root fs
  · by_cases hl : l = []
    · subst hl
      exact .refl root start
    · exact .of_changes hlock (changesOnly_erase hat hbare)
        (Or.inl (turns_eq_none_iff.mpr (face?_erase_self hl)))

/-- On the way to the lock, no path leads further than at first. -/
theorem Touched.noFurther (h : Touched owner root start fs) : NoFurther root start fs := by
  cases h with
  | cleared hcleared => exact hcleared.noFurther
  | created hcreated =>
    obtain ⟨hlock, -, hchanges, -, attributes, hface⟩ := hcreated.made
    refine .of_changes hlock hchanges (Or.inr ?_)
    rw [turns_eq_map_face?, hface]
    rfl
  | held hheld =>
    obtain ⟨l, hlock, hchanges, hstands⟩ := hheld.stands
    exact .of_changes hlock hchanges (Or.inr hstands.turns_eq)

section Stages

variable {record : LockRecord} {stage : Stage}

structure Stage.Performed.Alike (c : Location) (first second : Stage.Performed) : Prop where
  progress_eq : second.progress = first.progress
  disk : SameOff c first.disk second.disk
  shown_eq : second.shown = first.shown

theorem recordAt_eq (h : SameOff c fs fs') (hoff : Off c fs (pathIn root)) :
    Stage.recordAt fs' root = Stage.recordAt fs root := by
  rw [Stage.recordAt, Stage.recordAt, h.read_eq hoff]

theorem isAbandoned_eq (h : DifferOnlyAt c fs fs') (hbeside : Beside c root fs) :
    Stage.isAbandoned fs' root = Stage.isAbandoned fs root := by
  rw [Stage.isAbandoned, Stage.isAbandoned, h.modified?_eq hbeside.file hbeside.2.1, h.clock_eq]

theorem makeFile_alike (h : SameOff c fs fs') (hoff : Off c fs (pathIn root)) (taken : Stage) :
    (Stage.makeFile root record taken fs).Alike c (Stage.makeFile root record taken fs') := by
  have hboth := h.createNew hoff
  rw [Stage.makeFile, Stage.makeFile]
  generalize fs.createNew (pathIn root) = d at hboth ⊢
  generalize fs'.createNew (pathIn root) = d' at hboth ⊢
  cases hboth with
  | @done made made' step =>
    obtain ⟨disk, handle⟩ := made
    obtain ⟨disk', handle'⟩ := made'
    obtain ⟨hdisk, rfl⟩ := step
    exact ⟨rfl, hdisk, rfl⟩
  | failed e =>
    split
    · next heq => simp at heq
    · next heq =>
      cases heq
      exact ⟨rfl, h, rfl⟩
    · next heq =>
      cases heq
      exact ⟨rfl, h, rfl⟩

/-- A stage does alike on files that show the same but at a location beside the lock. -/
theorem perform_alike (hentered : DifferOnlyAt c start start')
    (hbeside : Beside c root start) (hsame : SameOff c fs fs')
    (h : stage.Reached owner root start fs) (h' : stage.Reached owner root start' fs') :
    (stage.perform owner root fs).Alike c (stage.perform owner root fs') := by
  have hoff : Off c fs (pathIn root) := (Stage.touched_of_reached h).noFurther.off hbeside.file
    fun hroot => (isAbsolute_pathIn root).trans hroot
  cases stage with
  | enter => exact absurd h id
  | create record => exact makeFile_alike hsame hoff _
  | inspect record =>
    simp only [Stage.perform, recordAt_eq hsame hoff, hsame.clock_eq]
    split
    · split
      · exact ⟨rfl, hsame, rfl⟩
      · exact ⟨rfl, hsame, rfl⟩
    · exact ⟨rfl, hsame, rfl⟩
  | age record =>
    obtain ⟨-, rfl⟩ := h
    obtain ⟨-, rfl⟩ := h'
    simp only [Stage.perform, isAbandoned_eq hentered hbeside]
    split
    · exact ⟨rfl, hsame, rfl⟩
    · exact ⟨rfl, hsame, rfl⟩
  | evict record =>
    have hboth := hsame.removeFile hoff
    simp only [Stage.perform]
    generalize fs.removeFile (pathIn root) = d at hboth ⊢
    generalize fs'.removeFile (pathIn root) = d' at hboth ⊢
    cases hboth with
    | done step => exact ⟨rfl, step, rfl⟩
    | failed e =>
      split
      · next heq => simp at heq
      · next heq =>
        cases heq
        exact ⟨rfl, hsame, rfl⟩
      · next heq =>
        cases heq
        exact ⟨rfl, hsame, rfl⟩
  | recreate record => exact makeFile_alike hsame hoff _
  | fill record handle =>
    obtain ⟨-, -, -, hplace, attributes, hface⟩ := h.2.made
    have houtside := hoff.outside (mem_trail_of_taken hplace).1
    exact ⟨rfl, hsame.writeTo houtside hface _, rfl⟩
  | contend =>
    simp only [Stage.perform, recordAt_eq hsame hoff]
    exact ⟨rfl, hsame, rfl⟩

end Stages

def passed (owner : LockOwner) (root : Path) (stage : Stage) (site : Site) : Site :=
  { site.change (stage.perform owner root site.disk).disk with
    shown := site.shown ++ (stage.perform owner root site.disk).shown }

theorem acquireFrom_passed (owner : LockOwner) (root : Path) (stage : Stage) (site : Site) :
    acquireFrom owner root stage site =
      match (stage.perform owner root site.disk).progress with
      | .next next => acquireFrom owner root next (passed owner root stage site)
      | .held => (.ok ⟨root⟩, passed owner root stage site)
      | .refused error => (.error error, passed owner root stage site) := by
  rw [acquireFrom]
  split <;> simp_all [passed]

theorem Stage.Performed.Alike.passed {stage : Stage} {site site' : Site}
    (h : (stage.perform owner root site.disk).Alike c (stage.perform owner root site'.disk))
    (hsite : Site.Alike c site site') :
    Site.Alike c (passed owner root stage site) (passed owner root stage site') := by
  obtain ⟨hdisk, -, hexchanges⟩ := hsite.change h.disk
  refine ⟨hdisk, ?_, hexchanges⟩
  rw [RunLock.passed, RunLock.passed, hsite.shown_eq, h.shown_eq]

/-- A party comes to the same end on files that show the same but at a location beside the lock. -/
theorem acquireFrom_alike (hentered : DifferOnlyAt c start start')
    (hbeside : Beside c root start) {stage : Stage} {site site' : Site}
    (hsite : Site.Alike c site site') (h : stage.Reached owner root start site.disk)
    (h' : stage.Reached owner root start' site'.disk) :
    (acquireFrom owner root stage site').1 = (acquireFrom owner root stage site).1 ∧
      Site.Alike c (acquireFrom owner root stage site).2 (acquireFrom owner root stage site').2 := by
  have hperform := perform_alike hentered hbeside hsite.disk h h'
  have hpassed := hperform.passed hsite
  have hdone := Stage.done_perform h
  have hdone' := Stage.done_perform h'
  rw [hperform.progress_eq] at hdone'
  rw [acquireFrom_passed, acquireFrom_passed, hperform.progress_eq]
  split
  · next next hnext =>
    rw [hnext] at hdone hdone'
    exact acquireFrom_alike hentered hbeside hpassed hdone hdone'
  · exact ⟨rfl, hpassed⟩
  · exact ⟨rfl, hpassed⟩
termination_by stage.rank
decreasing_by exact Stage.rank_lt_of_perform ‹_›

/-- The directory of the lock is made alike. -/
theorem entered_alike (h : DifferOnlyAt c fs fs') (hbeside : Beside c root (entered root fs)) :
    DifferOnlyAt c (entered root fs) (entered root fs') ∧
      (fs'.ensureDirectories (directoryIn root)).2 = (fs.ensureDirectories (directoryIn root)).2 :=
  h.ensureChain fun _ hpath =>
    ⟨hbeside.1 _ (mem_pathsIn hpath).1, hbeside.1 _ (mem_pathsIn hpath).2⟩

theorem perform_enter_alike (h : DifferOnlyAt c fs fs') (hbeside : Beside c root (entered root fs)) :
    (Stage.enter.perform owner root fs).Alike c (Stage.enter.perform owner root fs') := by
  obtain ⟨hentered, hfault⟩ := entered_alike h hbeside
  simp only [Stage.perform]
  rcases hd : fs.ensureDirectories (directoryIn root) with ⟨disk, fault⟩
  rcases hd' : fs'.ensureDirectories (directoryIn root) with ⟨disk', fault'⟩
  rw [entered, entered, hd, hd'] at hentered
  rw [hd, hd'] at hfault
  obtain rfl : fault' = fault := hfault
  have hdisk : SameOff c disk disk' := hentered.toSameOff
  cases fault' with
  | none => exact ⟨by simp only [hdisk.clock_eq], hdisk, rfl⟩
  | some fault => exact ⟨rfl, hdisk, rfl⟩

theorem reached_of_enter {next : Stage}
    (h : (Stage.enter.perform owner root fs).progress = .next next) :
    next.Reached owner root (entered root fs) (Stage.enter.perform owner root fs).disk := by
  simp only [Stage.perform, entered] at h ⊢
  rcases hd : fs.ensureDirectories (directoryIn root) with ⟨disk, _ | fault⟩
  · rw [hd] at h
    cases h
    exact ⟨rfl, rfl⟩
  · rw [hd] at h
    cases h

/-- The lock is taken, or refused, alike. -/
theorem acquire_alike (h : DifferOnlyAt c fs fs') (hbeside : Beside c root (entered root fs))
    (owner : LockOwner) :
    (acquire owner root { disk := fs' }).1 = (acquire owner root { disk := fs }).1 ∧
      Site.Alike c (acquire owner root { disk := fs }).2
        (acquire owner root { disk := fs' }).2 := by
  have hentered := (entered_alike h hbeside).1
  have hperform : (Stage.enter.perform owner root fs).Alike c
      (Stage.enter.perform owner root fs') := perform_enter_alike h hbeside
  have hpassed : Site.Alike c (passed owner root .enter { disk := fs })
      (passed owner root .enter { disk := fs' }) := hperform.passed ⟨h.toSameOff, rfl, .nil⟩
  have hprogress := hperform.progress_eq
  rw [acquire, acquire, acquireFrom_passed, acquireFrom_passed]
  cases hnext : (Stage.enter.perform owner root fs).progress with
  | next next =>
    rw [hnext] at hprogress
    simp only [hprogress]
    exact acquireFrom_alike hentered hbeside hpassed (reached_of_enter hnext)
      (reached_of_enter hprogress)
  | held =>
    rw [hnext] at hprogress
    simp only [hprogress]
    exact ⟨trivial, hpassed⟩
  | refused error =>
    rw [hnext] at hprogress
    simp only [hprogress]
    exact ⟨trivial, hpassed⟩

theorem cleared_attempt (root : Path) (site : Site) :
    Cleared root site.disk (site.attempt (·.removeFile (pathIn root))).2.disk := by
  rw [Site.attempt]
  split
  · next disk hremove => exact .evicted hremove
  · exact .untouched

/-- Where the directory of the lock is when the lock file has been taken away. -/
theorem Cleared.directory_eq (h : Cleared root start fs) {d : Location}
    (hplace : fs.place .keep (directoryIn root) = .ok (.taken d)) :
    start.place .keep (directoryIn root) = .ok (.taken d) := by
  cases h with
  | untouched => exact hplace
  | evicted step => exact directory_of_removed (.done step) hplace

/-- The lock is discarded alike. -/
theorem discard_alike (lock : RunLock) {site site' : Site} (h : Site.Alike c site site')
    (hbeside : Beside c lock.root site.disk) :
    Site.Alike c (lock.discard site) (lock.discard site') := by
  obtain ⟨-, hfile⟩ := h.attempt (·.removeFile (pathIn lock.root))
    (h.disk.removeFile hbeside.file)
  have hcleared := cleared_attempt lock.root site
  have hoff := hcleared.noFurther.off hbeside.directory fun hroot =>
    (isAbsolute_directoryIn lock.root).trans hroot
  exact (hfile.attempt (·.removeDirectory (directoryIn lock.root))
    (hfile.disk.removeDirectory hoff fun l hplace =>
      hbeside.2.2 l (hcleared.directory_eq hplace))).2

def releaseFault? : Option FileFault → Option PublishError
  | none => none
  | some (.system .notFound) => none
  | some fault => some (.io fault)

/-- The answer to giving the lock back depends on the removal of its file alone. -/
theorem release_fst (lock : RunLock) (site : Site) :
    (lock.release site).1 =
      releaseFault? (site.attempt (·.removeFile (pathIn lock.root))).1 := by
  rw [release]
  rcases site.attempt (·.removeFile (pathIn lock.root)) with ⟨_ | fault, after⟩
  · rfl
  · cases fault with
    | system e => cases e <;> rfl
    | _ => rfl

/-- The lock is given back alike. -/
theorem release_alike (lock : RunLock) {site site' : Site} (h : Site.Alike c site site')
    (hbeside : Beside c lock.root site.disk) :
    (lock.release site').1 = (lock.release site).1 ∧
      Site.Alike c (lock.release site).2 (lock.release site').2 := by
  refine ⟨?_, ?_⟩
  · obtain ⟨hfault, -⟩ := h.attempt (·.removeFile (pathIn lock.root))
      (h.disk.removeFile hbeside.file)
    rw [release_fst, release_fst, hfault]
  · rw [release_eq_discard, release_eq_discard]
    exact discard_alike lock h hbeside

/-- All that changes while the lock is taken or refused: directories that are missing for it are
made, and its file. -/
theorem changed_by_acquire {x : Location}
    (hx : (acquire owner root { disk := fs }).2.disk.face? x ≠ fs.face? x) :
    NewFor (directoryIn root).ancestors fs (entered root fs) x ∨
      LockPlace root (entered root fs) x := by
  have htouched : Touched owner root (entered root fs)
      (acquire owner root { disk := fs }).2.disk := by
    obtain ⟨hheld, hcleared, -⟩ := acquire_touched owner root { disk := fs }
    cases hresult : (acquire owner root { disk := fs }).1 with
    | ok lock => exact .held (hheld lock hresult).2
    | error error => exact .cleared (hcleared error hresult)
  by_cases hentered : (entered root fs).face? x = fs.face? x
  · right
    rcases htouched.changesOnly with hsame | ⟨l, hlock, hchanges⟩
    · rw [hsame] at hx
      exact absurd hentered hx
    · by_cases hl : x = l
      · exact hl ▸ hlock
      · rw [hchanges.face?_eq x hl] at hx
        exact absurd hentered hx
  · exact Or.inl (newFor_ensureChain hentered)

/-- All that changes when the lock is given back: its file goes, and its directory. -/
theorem changed_by_release {stop final : FileSystem} {moments : List Moment}
    (h : Released root stop moments final) {x : Location} (hx : final.face? x ≠ stop.face? x) :
    stop.place .keep (pathIn root) = .ok (.taken x) ∨
      stop.place .keep (directoryIn root) = .ok (.taken x) := by
  obtain @⟨_, _, middle, _, hfile, hdirectory⟩ := h
  by_cases hmiddle : middle.face? x = stop.face? x
  · right
    cases hdirectory with
    | failed => exact absurd hmiddle hx
    | done step =>
      obtain ⟨d, attributes, hplace, hat, rfl⟩ := erase_of_removeDirectory step
      by_cases hd : x = d
      · exact hd ▸ directory_of_removed hfile hplace
      · have hchanges := changesOnly_erase hat (Node.isBare_directory_nil attributes)
        rw [hchanges.face?_eq x hd] at hx
        exact absurd hmiddle hx
  · left
    cases hfile with
    | failed => exact absurd rfl hmiddle
    | done step =>
      obtain ⟨l, node, hplace, hat, hnode, rfl⟩ := erase_of_removeFile step
      by_cases hl : x = l
      · exact hl ▸ hplace
      · have hchanges := changesOnly_erase hat (Node.isBare_of_isDirectory_eq_false hnode)
        exact absurd (hchanges.face?_eq x hl) hmiddle

namespace Beside

variable {x : Location}

/-- What is at a location beside the lock stays while the lock is taken. -/
theorem acquired (h : Beside c root (entered root fs)) (owner : LockOwner) (hx : c <+: x) :
    (acquire owner root { disk := fs }).2.disk.face? x = fs.face? x := by
  apply Classical.byContradiction
  intro hchanged
  rcases changed_by_acquire hchanged with ⟨-, -, p, hp, hplace⟩ | ⟨hplace | hplace, -⟩
  · exact (h.1 _ (mem_pathsIn hp).2).outside (mem_trail_of_taken hplace).1 hx
  · exact h.file.outside (mem_trail_of_taken hplace).1 hx
  · exact h.file.outside (mem_trail_of_free hplace).1 hx

/-- What is at a location beside the lock stays when the lock is given back. -/
theorem released {stop final : FileSystem} {moments : List Moment} (h : Beside c root stop)
    (hreleased : Released root stop moments final) (hx : c <+: x) :
    final.face? x = stop.face? x := by
  apply Classical.byContradiction
  intro hchanged
  rcases changed_by_release hreleased hchanged with hplace | hplace
  · exact h.file.outside (mem_trail_of_taken hplace).1 hx
  · exact h.directory.outside (mem_trail_of_taken hplace).1 hx

end Beside

end RunLock

end ReleasePublisher
