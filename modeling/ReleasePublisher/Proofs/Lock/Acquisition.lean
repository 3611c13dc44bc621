import ReleasePublisher.Lock.Acquisition
import ReleasePublisher.Proofs.FileSystem.Effects
import ReleasePublisher.Proofs.History

/-!
What a party has done to the files when it gets the lock, and when it does not. Beside the directory
that is made first, only the place of the lock file changes. A party that gets the lock has made the
file there itself, with a serial that no file had before; a party that does not has at most taken a
stale lock away.
-/
namespace ReleasePublisher

namespace RunLock

open FileSystem

def fileName : Path := .ofString "publish.lock"

theorem isEntry_fileName : fileName.IsEntry :=
  ⟨⟨by decide +kernel, by decide +kernel, by decide +kernel, by decide +kernel⟩,
    by decide +kernel⟩

theorem isEntry_directoryName : (Path.ofString directoryName).IsEntry :=
  ⟨⟨by decide +kernel, by decide +kernel, by decide +kernel, by decide +kernel⟩,
    by decide +kernel⟩

theorem pathIn_eq (root : Path) : pathIn root = directoryIn root / fileName := rfl

theorem isOpen_directoryIn (root : Path) : (directoryIn root).IsOpen := by
  have hname : (Path.ofString directoryName).text = [46, 115, 104, 105, 112, 119, 114, 105, 103,
      104, 116] := by decide +kernel
  have htext : ∃ front, (directoryIn root).text = front ++ (Path.ofString directoryName).text := by
    show ∃ front, (Path.append root (Path.ofString directoryName)).text = _
    rw [Path.append]
    split
    · exact ⟨[], rfl⟩
    · split
      · exact ⟨root.text, rfl⟩
      · exact ⟨root.text ++ [Bytes.slash], by simp⟩
  obtain ⟨front, htext⟩ := htext
  rw [hname] at htext
  exact ⟨by simp [htext], by simp [htext, Bytes.slash]⟩

theorem isAbsolute_directoryIn (root : Path) : (directoryIn root).isAbsolute = root.isAbsolute :=
  isAbsolute_div isEntry_directoryName

theorem isAbsolute_pathIn (root : Path) : (pathIn root).isAbsolute = root.isAbsolute :=
  (isAbsolute_div isEntry_fileName).trans (isAbsolute_directoryIn root)

/-- When the path of the lock leads anywhere, a relative path starts in a directory. -/
theorem turns_here_of_lock {root : Path} {fs : FileSystem} {place : Place}
    (h : fs.place .keep (pathIn root) = .ok place)
    (hne : ∀ here, place ≠ .removed here) (hrelative : root.isAbsolute = false) :
    fs.turns fs.workingDirectory.location = some .enter := by
  apply turns_here_of_place_div (isOpen_directoryIn root) isEntry_fileName h hne
  rw [← pathIn_eq, isAbsolute_pathIn]
  exact hrelative

inductive Cleared (root : Path) (entered : FileSystem) : FileSystem → Prop
  | untouched : Cleared root entered entered
  | evicted {fs : FileSystem} (step : entered.removeFile (pathIn root) = .ok fs) :
      Cleared root entered fs

inductive Created (root : Path) (entered : FileSystem) (handle : Handle) (made : FileSystem) : Prop
  | intro {fs : FileSystem} (cleared : Cleared root entered fs)
      (step : fs.createNew (pathIn root) = .ok (made, handle)) : Created root entered handle made

inductive Held (owner : LockOwner) (root : Path) (entered : FileSystem) : FileSystem → Prop
  | intro {handle : Handle} {made : FileSystem} {record : LockRecord}
      (created : Created root entered handle made) (owner_eq : record.owner = owner) :
      Held owner root entered (made.writeTo handle record.fileText)

inductive Touched (owner : LockOwner) (root : Path) (entered : FileSystem) : FileSystem → Prop
  | cleared {fs : FileSystem} (h : Cleared root entered fs) : Touched owner root entered fs
  | created {fs : FileSystem} {handle : Handle} (h : Created root entered handle fs) :
      Touched owner root entered fs
  | held {fs : FileSystem} (h : Held owner root entered fs) : Touched owner root entered fs

namespace Stage

inductive Outcome (owner : LockOwner) (root : Path) (fs : FileSystem) : Stage → Progress → Prop
  | entered : Outcome owner root fs .enter (.next (.create ⟨owner, fs.clock⟩))
  | notEntered (fault : FileFault) : Outcome owner root fs .enter (.refused (.io fault))
  | created (record : LockRecord) (handle : Handle) :
      Outcome owner root fs (.create record) (.next (.fill record handle))
  | taken (record : LockRecord) : Outcome owner root fs (.create record) (.next (.inspect record))
  | notCreated (record : LockRecord) (fault : FileFault) :
      Outcome owner root fs (.create record) (.refused (.io fault))
  | stale (record found : LockRecord) (read : recordAt fs root = some found)
      (old : found.isStale fs.clock) :
      Outcome owner root fs (.inspect record) (.next (.evict record))
  | fresh (record found : LockRecord) (read : recordAt fs root = some found)
      (young : found.isStale fs.clock = false) :
      Outcome owner root fs (.inspect record) (.next .contend)
  | unread (record : LockRecord) (read : recordAt fs root = none) :
      Outcome owner root fs (.inspect record) (.next (.age record))
  | abandoned (record : LockRecord) (old : isAbandoned fs root) :
      Outcome owner root fs (.age record) (.next (.evict record))
  | recent (record : LockRecord) (young : isAbandoned fs root = false) :
      Outcome owner root fs (.age record) (.next .contend)
  | evicted (record : LockRecord) :
      Outcome owner root fs (.evict record) (.next (.recreate record))
  | notEvicted (record : LockRecord) (fault : FileFault) :
      Outcome owner root fs (.evict record) (.refused (.io fault))
  | recreated (record : LockRecord) (handle : Handle) :
      Outcome owner root fs (.recreate record) (.next (.fill record handle))
  | retaken (record : LockRecord) : Outcome owner root fs (.recreate record) (.next .contend)
  | notRecreated (record : LockRecord) (fault : FileFault) :
      Outcome owner root fs (.recreate record) (.refused (.io fault))
  | filled (record : LockRecord) (handle : Handle) :
      Outcome owner root fs (.fill record handle) .held
  | contended : Outcome owner root fs .contend (.refused (contention (recordAt fs root)))

/-- What the operation of a stage comes to is one of its outcomes. -/
theorem outcome_perform (owner : LockOwner) (root : Path) (stage : Stage) (fs : FileSystem) :
    Outcome owner root fs stage (stage.perform owner root fs).progress := by
  cases stage with
  | enter =>
    have hclock := clock_ensureChain fs (directoryIn root).ancestors
    simp only [perform, ensureDirectories]
    split
    · next disk hchain =>
      rw [hchain] at hclock
      simp only at hclock
      rw [hclock]
      exact .entered
    · next disk fault hchain => exact .notEntered fault
  | create record =>
    simp only [perform, makeFile]
    split
    · next disk handle hcreate => exact .created record handle
    · exact .taken record
    · next fault hne hcreate => exact .notCreated record fault
  | inspect record =>
    simp only [perform]
    split
    · next found hread =>
      split
      · next old => exact .stale record found hread old
      · next young => exact .fresh record found hread (Bool.eq_false_iff.mpr young)
    · next hread => exact .unread record hread
  | age record =>
    simp only [perform]
    split
    · next old => exact .abandoned record old
    · next young => exact .recent record (Bool.eq_false_iff.mpr young)
  | evict record =>
    simp only [perform]
    split
    · exact .evicted record
    · exact .evicted record
    · next fault hne hremove => exact .notEvicted record fault
  | recreate record =>
    simp only [perform, makeFile]
    split
    · next disk handle hcreate => exact .recreated record handle
    · exact .retaken record
    · next fault hne hcreate => exact .notRecreated record fault
  | fill record handle => exact .filled record handle
  | contend => exact .contended

theorem Outcome.of_perform {owner : LockOwner} {root : Path} {stage : Stage} {fs : FileSystem}
    {progress : Progress} (h : (stage.perform owner root fs).progress = progress) :
    Outcome owner root fs stage progress :=
  h ▸ outcome_perform owner root stage fs

def Reached (owner : LockOwner) (root : Path) (entered : FileSystem) :
    Stage → FileSystem → Prop
  | .enter, _ => False
  | .create record, fs => record.owner = owner ∧ fs = entered
  | .inspect record, fs => record.owner = owner ∧ fs = entered
  | .age record, fs => record.owner = owner ∧ fs = entered
  | .evict record, fs => record.owner = owner ∧ fs = entered
  | .recreate record, fs => record.owner = owner ∧ Cleared root entered fs
  | .fill record handle, fs => record.owner = owner ∧ Created root entered handle fs
  | .contend, fs => Cleared root entered fs

def Done (owner : LockOwner) (root : Path) (entered : FileSystem) : Progress → FileSystem → Prop
  | .next stage, fs => Reached owner root entered stage fs
  | .held, fs => Held owner root entered fs
  | .refused _, fs => Cleared root entered fs

theorem done_makeFile {owner : LockOwner} {root : Path} {entered fs : FileSystem}
    {record : LockRecord} {taken : Stage} (howner : record.owner = owner)
    (hcleared : Cleared root entered fs) (htaken : Reached owner root entered taken fs) :
    Done owner root entered (makeFile root record taken fs).progress
      (makeFile root record taken fs).disk := by
  rw [makeFile]
  split
  · next disk handle hcreate => exact ⟨howner, .intro hcleared hcreate⟩
  · exact htaken
  · exact hcleared

/-- Whatever a stage does keeps what holds of the files on the way to the lock. -/
theorem done_perform {owner : LockOwner} {root : Path} {entered fs : FileSystem} {stage : Stage}
    (h : Reached owner root entered stage fs) :
    Done owner root entered (perform owner root stage fs).progress
      (perform owner root stage fs).disk := by
  cases stage with
  | enter => exact absurd h id
  | create record =>
    obtain ⟨howner, rfl⟩ := h
    exact done_makeFile howner .untouched ⟨howner, rfl⟩
  | inspect record =>
    obtain ⟨howner, rfl⟩ := h
    simp only [perform]
    split
    · split
      · exact ⟨howner, rfl⟩
      · exact .untouched
    · exact ⟨howner, rfl⟩
  | age record =>
    obtain ⟨howner, rfl⟩ := h
    simp only [perform]
    split
    · exact ⟨howner, rfl⟩
    · exact .untouched
  | evict record =>
    obtain ⟨howner, rfl⟩ := h
    simp only [perform]
    split
    · next disk hremove => exact ⟨howner, .evicted hremove⟩
    · exact ⟨howner, .untouched⟩
    · exact .untouched
  | recreate record =>
    obtain ⟨howner, hcleared⟩ := h
    exact done_makeFile howner hcleared hcleared
  | fill record handle =>
    obtain ⟨howner, hcreated⟩ := h
    exact .intro hcreated howner
  | contend => exact h

/-- On its way to the lock, a party only touches the directory of the lock and what is in it. -/
theorem touched_of_reached {owner : LockOwner} {root : Path} {entered fs : FileSystem}
    {stage : Stage} (h : Reached owner root entered stage fs) :
    Touched owner root entered fs := by
  cases stage with
  | enter => exact absurd h id
  | recreate record => exact .cleared h.2
  | fill record handle => exact .created h.2
  | contend => exact .cleared h
  | _ =>
    obtain ⟨-, rfl⟩ := h
    exact .cleared .untouched

theorem touched_of_done {owner : LockOwner} {root : Path} {entered fs : FileSystem}
    {progress : Progress} (h : Done owner root entered progress fs) :
    Touched owner root entered fs := by
  cases progress with
  | next stage => exact touched_of_reached h
  | held => exact .held h
  | refused error => exact .cleared h

end Stage

/-- What a party leaves that goes through the rest of its stages, and what it passes. -/
theorem acquireFrom_reached {owner : LockOwner} {root : Path} {entered : FileSystem}
    {stage : Stage} {site : Site} (h : stage.Reached owner root entered site.disk) :
    (∀ lock, (acquireFrom owner root stage site).1 = .ok lock →
      lock = ⟨root⟩ ∧ Held owner root entered (acquireFrom owner root stage site).2.disk) ∧
    (∀ error, (acquireFrom owner root stage site).1 = .error error →
      Cleared root entered (acquireFrom owner root stage site).2.disk) ∧
    ∃ disks : List FileSystem, (acquireFrom owner root stage site).2.history =
        site.history ++ disks.map .changed ∧ (∀ d ∈ disks, Touched owner root entered d) ∧
      diskAfter site.disk (disks.map .changed) = (acquireFrom owner root stage site).2.disk := by
  have hdone := Stage.done_perform h
  have htouched := Stage.touched_of_done hdone
  rw [acquireFrom]
  split
  · next next hnext =>
    rw [hnext] at hdone
    generalize hsite : Site.mk _ _ _ = following
    have hfollowing : next.Reached owner root entered following.disk := by
      subst hsite
      exact hdone
    obtain ⟨hok, herror, disks, hhistory, hall, hdisk⟩ := acquireFrom_reached hfollowing
    refine ⟨hok, herror, (stage.perform owner root site.disk).disk :: disks, ?_, ?_, ?_⟩
    · rw [hhistory, ← hsite]
      simp [Site.change]
    · exact List.forall_mem_cons.mpr ⟨htouched, hall⟩
    · rw [← hdisk, ← hsite]
      rfl
  · next hheld =>
    rw [hheld] at hdone
    refine ⟨?_, by simp, [(stage.perform owner root site.disk).disk], rfl,
      by simpa using htouched, rfl⟩
    rintro lock ⟨⟩
    exact ⟨rfl, hdone⟩
  · next error hrefused =>
    rw [hrefused] at hdone
    exact ⟨by simp, fun _ _ => hdone, [(stage.perform owner root site.disk).disk], rfl,
      by simpa using htouched, rfl⟩
termination_by stage.rank
decreasing_by exact Stage.rank_lt_of_perform ‹_›

/-- The files when the directory of the lock has been made, as far as it can be. -/
def entered (root : Path) (fs : FileSystem) : FileSystem :=
  (fs.ensureDirectories (directoryIn root)).1

theorem grows_entered (root : Path) (fs : FileSystem) : Grows fs (entered root fs) :=
  (grows_ensureChain fs _).1

theorem nextSerial_entered (root : Path) (fs : FileSystem) :
    (entered root fs).nextSerial = fs.nextSerial :=
  (grows_ensureChain fs _).2

/-- A party that takes the lock has its file and nothing else, one that does not has made none, and
all that has happened meanwhile is on the way to the lock. -/
theorem acquire_touched (owner : LockOwner) (root : Path) (site : Site) :
    (∀ lock, (acquire owner root site).1 = .ok lock →
      lock = ⟨root⟩ ∧ Held owner root (entered root site.disk) (acquire owner root site).2.disk) ∧
    (∀ error, (acquire owner root site).1 = .error error →
      Cleared root (entered root site.disk) (acquire owner root site).2.disk) ∧
    ∃ disks : List FileSystem, (acquire owner root site).2.history =
        site.history ++ disks.map .changed ∧
      (∀ d ∈ disks, Touched owner root (entered root site.disk) d) ∧
      diskAfter site.disk (disks.map .changed) = (acquire owner root site).2.disk := by
  have hentered : ∀ outcome, site.disk.ensureDirectories (directoryIn root) = outcome →
      entered root site.disk = outcome.1 := by
    rintro _ rfl
    rfl
  -- the first stage makes `entered`, so it stands before what `acquireFrom_reached` speaks of
  rw [acquire, acquireFrom]
  simp only [Stage.perform]
  split
  · next next hnext =>
    split at hnext
    · next disk hmake =>
      rw [hentered _ hmake]
      cases hnext
      simp only
      generalize hsite : Site.mk _ _ _ = following
      have hfollowing : (Stage.create ⟨owner, disk.clock⟩).Reached owner root disk
          following.disk := by
        subst hsite
        exact ⟨rfl, rfl⟩
      obtain ⟨hok, herror, disks, hhistory, hall, hdisk⟩ := acquireFrom_reached hfollowing
      refine ⟨hok, herror, disk :: disks, ?_, ?_, ?_⟩
      · rw [hhistory, ← hsite]
        simp [Site.change]
      · exact List.forall_mem_cons.mpr ⟨.cleared .untouched, hall⟩
      · rw [← hdisk, ← hsite]
        rfl
    · simp at hnext
  · next hheld => split at hheld <;> simp at hheld
  · next error hrefused =>
    split at hrefused
    · simp at hrefused
    · next disk fault hmake =>
      rw [hentered _ hmake]
      exact ⟨by simp, fun _ _ => .untouched, [disk], rfl, by simpa using .cleared .untouched,
        rfl⟩

structure Stands (owner : LockOwner) (root : Path) (serial : Serial) (l : Location)
    (fs : FileSystem) : Prop where
  place_eq : fs.place .keep (pathIn root) = .ok (.taken l)
  shows : ∃ (attributes : Attributes) (record : LockRecord), record.owner = owner ∧
    fs.face? l = some (.file serial attributes record.fileText)

/-- Where the path of the lock leads, to a node that is no directory or to nothing. -/
structure LockPlace (root : Path) (entered : FileSystem) (l : Location) : Prop where
  place_eq : entered.place .keep (pathIn root) = .ok (.taken l) ∨
    entered.place .keep (pathIn root) = .ok (.free l)
  turns_ne : entered.turns l ≠ some .enter

theorem Cleared.cases {root : Path} {entered fs : FileSystem} (h : Cleared root entered fs) :
    fs = entered ∨ ∃ l node, LockPlace root entered l ∧
      entered.place .keep (pathIn root) = .ok (.taken l) ∧ entered.root.at? l = some node ∧
      node.IsBare ∧ fs = entered.erase l := by
  cases h with
  | untouched => exact Or.inl rfl
  | evicted step =>
    obtain ⟨l, node, hplace, hat, hnode, rfl⟩ := erase_of_removeFile step
    refine Or.inr ⟨l, node, ⟨Or.inl hplace, ?_⟩, hplace, hat,
      Node.isBare_of_isDirectory_eq_false hnode, rfl⟩
    cases node <;> simp_all [FileSystem.turns, Node.turns, Node.face, Face.turn, Node.isDirectory]

/-- The new lock file stands where the path of the lock led before. -/
theorem Created.made {root : Path} {entered made : FileSystem} {handle : Handle}
    (h : Created root entered handle made) :
    LockPlace root entered handle.location ∧ handle.serial = entered.nextSerial ∧
      ChangesOnly handle.location entered made ∧
      made.place .keep (pathIn root) = .ok (.taken handle.location) ∧
      ∃ attributes, made.face? handle.location = some (.file handle.serial attributes []) := by
  obtain ⟨hcleared, hcreate⟩ := h
  obtain ⟨hserial, hmade⟩ := made_of_createNew hcreate
  have hplace := (hmade.place_eq (by simp [Face.turn])).1
  rcases hcleared.cases with rfl | ⟨l, node, hlock, htaken, hat, hbare, rfl⟩
  · refine ⟨⟨Or.inr hmade.free, ?_⟩, hserial, hmade.changes, hplace, _, hserial ▸ hmade.shows⟩
    rw [turns_eq_none_iff.mpr (mem_trail_of_free hmade.free).2]
    simp
  -- without the stale lock its path leads to where it was, and nowhere else
  · have hhere : (pathIn root).isAbsolute = false →
        entered.turns entered.workingDirectory.location = some .enter :=
      turns_here_of_place_div (isOpen_directoryIn root) isEntry_fileName htaken (by simp)
    have hl : handle.location = l := by
      rcases place_erase hat hbare .keep hhere with hsame | hvacant
      · rw [hmade.free, htaken] at hsame
        simp at hsame
      · exact (hvacant _).2 hmade.free
    subst hl
    have hserial' : (entered.erase handle.location).nextSerial = entered.nextSerial := by
      rw [erase]
      split <;> rfl
    exact ⟨hlock, hserial.trans hserial', (changesOnly_erase hat hbare).trans hmade.changes,
      hplace, _, hserial ▸ hmade.shows⟩

/-- A party that holds the lock has made the file itself. -/
theorem Held.stands {owner : LockOwner} {root : Path} {entered after : FileSystem}
    (h : Held owner root entered after) :
    ∃ l, LockPlace root entered l ∧ ChangesOnly l entered after ∧
      Stands owner root entered.nextSerial l after := by
  obtain @⟨handle, made, record, hcreated, howner⟩ := h
  obtain ⟨hlock, hserial, hchanges, hplace, attributes, hface⟩ := hcreated.made
  have hrefilled := refilled_writeTo hface record.fileText
  obtain ⟨serial, attributes', attributes'', old, hbefore, hafter⟩ := hrefilled.shows
  have hserial' : serial = handle.serial := by
    rw [hface] at hbefore
    simp at hbefore
    exact hbefore.1.symm
  refine ⟨handle.location, hlock, hchanges.trans hrefilled.changes,
    (hrefilled.place_eq .keep _).1.trans hplace, attributes'', record, howner, ?_⟩
  rw [hafter, hserial', hserial]

/-- Whatever a party does, only the place of the lock changes. -/
theorem Touched.changesOnly {owner : LockOwner} {root : Path} {entered fs : FileSystem}
    (h : Touched owner root entered fs) :
    fs = entered ∨ ∃ l, LockPlace root entered l ∧ ChangesOnly l entered fs := by
  cases h with
  | cleared hcleared =>
    rcases hcleared.cases with rfl | ⟨l, node, hlock, -, hat, hbare, rfl⟩
    · exact Or.inl rfl
    · exact Or.inr ⟨l, hlock, changesOnly_erase hat hbare⟩
  | created hcreated =>
    obtain ⟨hlock, -, hchanges, -⟩ := hcreated.made
    exact Or.inr ⟨_, hlock, hchanges⟩
  | held hheld =>
    obtain ⟨l, hlock, hchanges, -⟩ := hheld.stands
    exact Or.inr ⟨l, hlock, hchanges⟩

/-- What a party has done when it gets the lock. -/
theorem acquire_ok {owner : LockOwner} {root : Path} {site locked : Site} {lock : RunLock}
    (h : acquire owner root site = (.ok lock, locked)) :
    lock = ⟨root⟩ ∧ Touched owner root (entered root site.disk) locked.disk ∧
      (∃ l, LockPlace root (entered root site.disk) l ∧
        ChangesOnly l (entered root site.disk) locked.disk ∧
        Stands owner root site.disk.nextSerial l locked.disk) ∧
      ∃ disks : List FileSystem, locked.history = site.history ++ disks.map .changed ∧
        (∀ d ∈ disks, Touched owner root (entered root site.disk) d) ∧
        diskAfter site.disk (disks.map .changed) = locked.disk := by
  obtain ⟨hok, -, hhistory⟩ := acquire_touched owner root site
  rw [h] at hok hhistory
  obtain ⟨hlock, hheld⟩ := hok lock rfl
  obtain ⟨l, hplace, hchanges, hstands⟩ := hheld.stands
  rw [nextSerial_entered] at hstands
  exact ⟨hlock, .held hheld, ⟨l, hplace, hchanges, hstands⟩, hhistory⟩

end RunLock

end ReleasePublisher
