import ReleasePublisher.Proofs.Lock.MutualExclusion
import ReleasePublisher.Proofs.Lock.Refusal

/-!
Who gets the lock when nobody interferes. A party gets it when no lock file stands or the one that
stands has been left behind, and is refused in all other cases with the answer of who holds it. The
record of a lock file tells how old the lock is; only where there is none to be read does the time
count at which the file was last changed.
-/
namespace ReleasePublisher

namespace RunLock

open FileSystem

structure LockFile where
  /-- When it was last changed. -/
  modified : Timestamp
  content : Bytes

namespace LockFile

def record? (file : LockFile) : Option LockRecord := LockRecord.parse? file.content

def heldSince (file : LockFile) : Timestamp :=
  match file.record? with
  | some record => record.acquired
  | none => file.modified

def IsLeftBehind (file : LockFile) (now : Timestamp) : Prop :=
  3600 * 1000000000 ≤ now.since file.heldSince

instance (file : LockFile) (now : Timestamp) : Decidable (file.IsLeftBehind now) :=
  inferInstanceAs (Decidable (_ ≤ _))

def answer (file : LockFile) : PublishError :=
  match file.record? with
  | some record =>
    .locked (record.owner.host ++ " (pid " ++ toString record.owner.pid ++ ")")
      record.acquired.display
  | none => .locked "another run" "just now"

theorem answer_eq (file : LockFile) : file.answer = Stage.contention file.record? := by
  rw [answer]
  cases file.record? <;> rfl

end LockFile

def Contains (l : Location) (file : LockFile) (fs : FileSystem) : Prop :=
  ∃ serial attributes, attributes.modified = file.modified ∧
    fs.face? l = some (.file serial attributes file.content)

/-- What there is at the path of the lock of a project: nothing yet, not even the directory for it,
or that directory with no lock file in it or with one. -/
inductive Finding (root : Path) (fs : FileSystem) : Option LockFile → Prop
  | noDirectory {d : Location} (free : fs.place .keep (directoryIn root) = .ok (.free d)) :
      Finding root fs none
  | noFile {d : Location} (leads : Leads root d fs)
      (absent : fs.face? (d ++ [fileName.text]) = none) : Finding root fs none
  | file {d : Location} {file : LockFile} (leads : Leads root d fs)
      (contains : Contains (d ++ [fileName.text]) file fs) : Finding root fs (some file)

variable {owner : LockOwner} {root : Path} {fs : FileSystem} {d l : Location} {file : LockFile}

/-- The path of the lock can be followed when that of its directory can and it is short enough. -/
theorem pathFault?_pathIn (hlength : (pathIn root).text.length < pathLimit)
    (hdirectory : pathFault? (directoryIn root) = none) : pathFault? (pathIn root) = none := by
  have htext : (pathIn root).text = (directoryIn root).text ++ Bytes.slash :: fileName.text :=
    text_div (isOpen_directoryIn root) isEntry_fileName
  have hzero : (0 : UInt8) ∉ fileName.text := by decide +kernel
  have hclean : (0 : UInt8) ∉ (directoryIn root).text := by
    intro h
    simp [pathFault?, h] at hdirectory
  have hpath : (pathIn root).text.contains 0 = false := by
    simp [htext, hclean, hzero, Bytes.slash]
  rw [pathFault?, hpath, if_neg (by simp), if_neg (by simp [htext]), if_neg (by omega)]

/-- In its directory, the path of the lock leads to the lock file or to the free place of it. -/
theorem Leads.place_lock (h : Leads root d fs) (hlength : (pathIn root).text.length < pathLimit) :
    fs.place .keep (pathIn root) =
      .ok (if fs.face? (d ++ [fileName.text]) = none then .free (d ++ [fileName.text])
        else .taken (d ++ [fileName.text])) :=
  place_div (isOpen_directoryIn root) isEntry_fileName
    (pathFault?_pathIn hlength (pathFault?_of_place h.place_eq)) h.place_eq h.turns_eq

/-- Where the directory of the lock is missing, it is made, and there is no lock file in it. -/
theorem exists_leads_of_free (h : fs.place .keep (directoryIn root) = .ok (.free d)) :
    ∃ made, fs.ensureDirectories (directoryIn root) = (made, none) ∧ Leads root d made ∧
      made.face? (d ++ [fileName.text]) = none := by
  obtain ⟨made, attributes, hmake, hmade, hat⟩ := exists_made_of_free h
  have hturns : made.turns d = some .enter := turns_directory hat
  have hplace := (hmade.place_eq (by simp [Face.turn])).1
  refine ⟨made, ensureDirectories_of_makeDirectory hmake,
    ⟨place_follow_of_keep hplace (by simp [hturns]), hturns⟩, ?_⟩
  rw [face?_eq_none_iff, Node.at?_concat hat]
  rfl

namespace Stage

def Ends (owner : LockOwner) (root : Path)
    (good : Except PublishError RunLock → FileSystem → Prop) (stage : Stage) (fs : FileSystem) :
    Prop :=
  ∀ site : Site, site.disk = fs →
    good (acquireFrom owner root stage site).1 (acquireFrom owner root stage site).2.disk

variable {good : Except PublishError RunLock → FileSystem → Prop} {stage next : Stage}
  {disk : FileSystem}

/-- A stage ends as the one that it leads to. -/
theorem Ends.of_next (hnext : next.Ends owner root good disk)
    (hprogress : (stage.perform owner root fs).progress = .next next)
    (hdisk : (stage.perform owner root fs).disk = disk) : stage.Ends owner root good fs := by
  rintro site rfl
  rw [acquireFrom]
  split
  · next next' hnext' =>
    obtain rfl : next = next' := by simpa [hprogress] using hnext'
    exact hnext _ hdisk
  · next hheld => simp [hprogress] at hheld
  · next error hrefused => simp [hprogress] at hrefused

theorem Ends.imp {good' : Except PublishError RunLock → FileSystem → Prop}
    (h : stage.Ends owner root good fs)
    (himp : ∀ result disk, good result disk → good' result disk) :
    stage.Ends owner root good' fs := fun site hsite => himp _ _ (h site hsite)

theorem ends_fill (owner : LockOwner) (root : Path) (record : LockRecord) (handle : Handle)
    (fs : FileSystem) :
    (Stage.fill record handle).Ends owner root (fun result _ => result = .ok ⟨root⟩) fs := by
  intro site _
  rw [acquireFrom]
  rfl

theorem ends_contend (owner : LockOwner) (root : Path) (fs : FileSystem) :
    Stage.contend.Ends owner root
      (fun result disk => result = .error (contention (recordAt fs root)) ∧ disk = fs) fs := by
  rintro site rfl
  rw [acquireFrom]
  exact ⟨rfl, rfl⟩

/-- Where the path of the lock leads to nothing, the file is made. -/
theorem makeFile_of_free (h : fs.place .keep (pathIn root) = .ok (.free l)) (record : LockRecord)
    (taken : Stage) :
    ∃ handle, (makeFile root record taken fs).progress = .next (.fill record handle) := by
  obtain ⟨directory, name, attributes, entries, rfl, hresolve, -⟩ := resolve_of_place_free h
  rw [makeFile, createNew, hresolve]
  exact ⟨_, rfl⟩

theorem ends_create_of_free (owner : LockOwner)
    (h : fs.place .keep (pathIn root) = .ok (.free l)) (record : LockRecord) :
    (Stage.create record).Ends owner root (fun result _ => result = .ok ⟨root⟩) fs := by
  obtain ⟨handle, hmake⟩ := makeFile_of_free h record (.inspect record)
  exact (ends_fill owner root record handle _).of_next hmake rfl

theorem ends_recreate_of_free (owner : LockOwner)
    (h : fs.place .keep (pathIn root) = .ok (.free l)) (record : LockRecord) :
    (Stage.recreate record).Ends owner root (fun result _ => result = .ok ⟨root⟩) fs := by
  obtain ⟨handle, hmake⟩ := makeFile_of_free h record .contend
  exact (ends_fill owner root record handle _).of_next hmake rfl

end Stage

structure Bears (root : Path) (d : Location) (file : LockFile) (fs : FileSystem) : Prop where
  leads : Leads root d fs
  place_eq : fs.place .keep (pathIn root) = .ok (.taken (d ++ [fileName.text]))
  contains : Contains (d ++ [fileName.text]) file fs

namespace Bears

theorem turns_eq (h : Bears root d file fs) : fs.turns (d ++ [fileName.text]) = some .stop := by
  obtain ⟨serial, attributes, -, hface⟩ := h.contains
  rw [turns_eq_map_face?, hface]
  rfl

theorem recordAt_eq (h : Bears root d file fs) : Stage.recordAt fs root = file.record? := by
  obtain ⟨serial, attributes, -, hface⟩ := h.contains
  exact Stage.recordAt_of_file h.place_eq hface

/-- A file that says nothing counts as left behind by the time of its last change alone. -/
theorem isAbandoned_iff (h : Bears root d file fs) :
    Stage.isAbandoned fs root = true ↔ LockRecord.staleAge ≤ fs.clock.since file.modified := by
  obtain ⟨serial, attributes, hmodified, hface⟩ := h.contains
  rw [Stage.isAbandoned_of_file h.place_eq hface, hmodified]
  exact decide_eq_true_iff

/-- A lock that is taken away leaves its place free. -/
theorem evicted (h : Bears root d file fs) (hlength : (pathIn root).text.length < pathLimit) :
    ∃ after, fs.removeFile (pathIn root) = .ok after ∧
      after.place .keep (pathIn root) = .ok (.free (d ++ [fileName.text])) := by
  obtain ⟨serial, attributes, -, hface⟩ := h.contains
  obtain ⟨node, hat, hnode⟩ := face?_eq_some_iff.mp hface
  have hbare : node.IsBare := by
    rw [Node.eq_file_of_face hnode]
    exact Node.isBare_of_isDirectory_eq_false rfl
  have hchanges := changesOnly_erase hat hbare
  -- the directory is not reached through the lock file
  have hbeside : d ++ [fileName.text] ∉ fs.trail .follow (directoryIn root) := by
    intro hmem
    have heq := eq_of_mem_trail_of_stop h.leads.place_eq hmem h.turns_eq
    simp at heq
  obtain ⟨hdirectory, -, hsame⟩ := hchanges.keeps.place_taken h.leads.place_eq hbeside
  have hleads : Leads root d (fs.erase (d ++ [fileName.text])) :=
    ⟨hdirectory, (turns_eq_of_face?_eq hsame).trans h.leads.turns_eq⟩
  have hplace := hleads.place_lock hlength
  rw [face?_erase_self (by simp), if_pos rfl] at hplace
  exact ⟨_, removeFile_of_file h.place_eq hface, hplace⟩

end Bears

/-- Whoever takes an old lock file away gets the lock. -/
theorem ends_evict (owner : LockOwner) (h : Bears root d file fs)
    (hlength : (pathIn root).text.length < pathLimit) (record : LockRecord) :
    (Stage.evict record).Ends owner root (fun result _ => result = .ok ⟨root⟩) fs := by
  obtain ⟨after, hremove, hfree⟩ := h.evicted hlength
  refine (Stage.ends_recreate_of_free owner hfree record).of_next ?_ ?_
  all_goals simp [Stage.perform, hremove]

/-- The lock is given if it has been left behind, and otherwise everything stays as it is. -/
def Judged (root : Path) (file : LockFile) (fs : FileSystem)
    (result : Except PublishError RunLock) (disk : FileSystem) : Prop :=
  if file.IsLeftBehind fs.clock then result = .ok ⟨root⟩
  else result = .error file.answer ∧ disk = fs

/-- The record is looked at first, and the age of the file only when there is none. -/
theorem ends_inspect (owner : LockOwner) (h : Bears root d file fs)
    (hlength : (pathIn root).text.length < pathLimit) (record : LockRecord) :
    (Stage.inspect record).Ends owner root (Judged root file fs) fs := by
  have hgranted : file.IsLeftBehind fs.clock →
      (Stage.evict record).Ends owner root (Judged root file fs) fs := by
    intro hleft
    refine (ends_evict owner h hlength record).imp ?_
    rintro result disk rfl
    exact (if_pos hleft).mpr rfl
  have hrefused : ¬ file.IsLeftBehind fs.clock →
      Stage.contend.Ends owner root (Judged root file fs) fs := by
    intro hyoung
    refine (Stage.ends_contend owner root fs).imp ?_
    rintro result disk ⟨rfl, rfl⟩
    rw [h.recordAt_eq, ← file.answer_eq]
    exact (if_neg hyoung).mpr ⟨rfl, rfl⟩
  cases hrecord : file.record? with
  | some found =>
    have hstale : found.isStale fs.clock = true ↔ file.IsLeftBehind fs.clock := by
      rw [LockFile.IsLeftBehind, LockFile.heldSince, hrecord]
      exact decide_eq_true_iff
    by_cases hleft : file.IsLeftBehind fs.clock
    · refine (hgranted hleft).of_next ?_ ?_
      all_goals simp [Stage.perform, h.recordAt_eq, hrecord, hstale.mpr hleft]
    · refine (hrefused hleft).of_next ?_ ?_
      all_goals simp [Stage.perform, h.recordAt_eq, hrecord, mt hstale.mp hleft]
  | none =>
    have hage : (Stage.age record).Ends owner root (Judged root file fs) fs := by
      have hold : Stage.isAbandoned fs root = true ↔ file.IsLeftBehind fs.clock := by
        rw [h.isAbandoned_iff, LockFile.IsLeftBehind, LockFile.heldSince, hrecord]
        rfl
      by_cases hleft : file.IsLeftBehind fs.clock
      · refine (hgranted hleft).of_next ?_ ?_
        all_goals simp [Stage.perform, hold.mpr hleft]
      · refine (hrefused hleft).of_next ?_ ?_
        all_goals simp [Stage.perform, mt hold.mp hleft]
    refine hage.of_next ?_ ?_
    all_goals simp [Stage.perform, h.recordAt_eq, hrecord]

theorem Leads.bears (h : Leads root d fs) (hlength : (pathIn root).text.length < pathLimit)
    (hcontains : Contains (d ++ [fileName.text]) file fs) : Bears root d file fs := by
  refine ⟨h, ?_, hcontains⟩
  obtain ⟨serial, attributes, -, hface⟩ := hcontains
  rw [h.place_lock hlength, if_neg (by simp [hface])]

def Settled (root : Path) (found : Option LockFile) (fs : FileSystem)
    (result : Except PublishError RunLock) (disk : FileSystem) : Prop :=
  match found with
  | none => result = .ok ⟨root⟩
  | some file => Judged root file fs result disk

/-- A party that nobody disturbs comes to what the place of the lock decides. -/
theorem ends_enter {found : Option LockFile} (owner : LockOwner) (h : Finding root fs found)
    (hlength : (pathIn root).text.length < pathLimit) :
    Stage.enter.Ends owner root (Settled root found fs) fs := by
  -- without a lock file, one can be made once the directory is there
  have hcreate : ∀ {d : Location} {made : FileSystem}, Leads root d made →
      made.face? (d ++ [fileName.text]) = none →
      (Stage.create ⟨owner, made.clock⟩).Ends owner root (Settled root none fs) made := by
    intro d made hleads habsent
    have hplace := hleads.place_lock hlength
    rw [if_pos habsent] at hplace
    exact Stage.ends_create_of_free owner hplace _
  cases h with
  | noDirectory hfree =>
    obtain ⟨made, hensure, hleads, habsent⟩ := exists_leads_of_free hfree
    refine (hcreate hleads habsent).of_next ?_ ?_
    all_goals simp [Stage.perform, hensure]
  | noFile hleads habsent =>
    refine (hcreate hleads habsent).of_next ?_ ?_
    all_goals simp [Stage.perform, hleads.ensureDirectories_eq]
  | file hleads hcontains =>
    have hbears := hleads.bears hlength hcontains
    have hmake := Stage.makeFile_of_place hbears.place_eq ⟨owner, fs.clock⟩
      (.inspect ⟨owner, fs.clock⟩)
    have htaken : (Stage.create ⟨owner, fs.clock⟩).Ends owner root (Settled root (some _) fs) fs :=
      (ends_inspect owner hbears hlength ⟨owner, fs.clock⟩).of_next
        (by rw [Stage.perform, hmake]) (by rw [Stage.perform, hmake])
    refine htaken.of_next ?_ ?_
    all_goals simp [Stage.perform, hleads.ensureDirectories_eq]

/-- What a party gets to know that wants the lock and that nobody disturbs, and what it leaves. -/
structure Decided (owner : LockOwner) (root : Path) (found : Option LockFile) (site : Site) :
    Prop where
  /-- It gets the lock if no lock file stands or the one that stands was left behind. -/
  granted_iff : (∃ lock, (acquire owner root site).1 = .ok lock) ↔
    ∀ file, found = some file → file.IsLeftBehind site.disk.clock
  /-- The lock that it gets tells of it. -/
  granted : ∀ lock, (acquire owner root site).1 = .ok lock →
    ∃ l serial attributes content,
      (acquire owner root site).2.disk.place .keep (pathIn root) = .ok (.taken l) ∧
      (acquire owner root site).2.disk.face? l = some (.file serial attributes content) ∧
      (site.disk.clock.date.inRange → LockRecord.parse? content = some ⟨owner, site.disk.clock⟩)
  /-- Otherwise it is told who holds the lock, and everything stays as it is. -/
  refused : ∀ error, (acquire owner root site).1 = .error error →
    (∃ file, found = some file ∧ error = file.answer) ∧
      (acquire owner root site).2.disk = site.disk

/-- Whoever wants the lock of a project gets it if no lock file stands or an hour has passed since
the time in its record, or since its last change if it has none. -/
theorem acquire_decided {found : Option LockFile} (owner : LockOwner) {site : Site}
    (hfinding : Finding root site.disk found) (hlength : (pathIn root).text.length < pathLimit) :
    Decided owner root found site := by
  have hsettled : Settled root found site.disk (acquire owner root site).1
      (acquire owner root site).2.disk := ends_enter owner hfinding hlength site rfl
  refine ⟨?_, ?_, ?_⟩
  · cases found with
    | none => simp [show (acquire owner root site).1 = .ok ⟨root⟩ from hsettled]
    | some file =>
      by_cases hleft : file.IsLeftBehind site.disk.clock
      · simp [(if_pos hleft).mp hsettled, hleft]
      · simp [((if_neg hleft).mp hsettled).1, hleft]
  · intro lock hlock
    obtain @⟨l, serial, attributes, hplace, hface, -⟩ :=
      signed_of_acquire (Prod.ext hlock rfl : acquire owner root site = (.ok lock, _))
    refine ⟨l, serial, attributes, _, hplace, hface, fun hrange => ?_⟩
    rw [LockRecord.parse?_fileText, if_pos hrange]
  · intro error herror
    cases found with
    | none => simp [show (acquire owner root site).1 = .ok ⟨root⟩ from hsettled] at herror
    | some file =>
      by_cases hleft : file.IsLeftBehind site.disk.clock
      · simp [(if_pos hleft).mp hsettled] at herror
      · obtain ⟨hanswer, hsame⟩ := (if_neg hleft).mp hsettled
        rw [herror] at hanswer
        exact ⟨⟨file, rfl, by simpa using hanswer⟩, hsame⟩

namespace Sample

def disk (file : LockFile) : FileSystem :=
  Contest.Sample.disk [(Bytes.ofString directoryName, .directory ⟨0o755, .epoch⟩
    [(fileName.text, .file 0 ⟨0o644, file.modified⟩ file.content)])]

def directory : Location := [Bytes.ofString "work", Bytes.ofString directoryName]

def holder : LockOwner := ⟨"gone", 41, by decide⟩

def cutOff : LockFile where
  modified := .ofEpoch LockRecord.staleAge
  content := (LockRecord.fileText ⟨holder, .epoch⟩).dropLast

/-- A record from the future in a file that has not been changed for two hours. -/
def ahead : LockFile where
  modified := .epoch
  content := LockRecord.fileText ⟨holder, .ofEpoch (3 * LockRecord.staleAge)⟩

/-- A path so long that the directory of the lock can be named from it and the lock file cannot. -/
def longProject : Path := ⟨Path.dot ++ List.replicate 4080 Bytes.slash⟩

theorem finding (file : LockFile)
    (hplace : ((disk file).place .follow (directoryIn Contest.Sample.project)).toOption =
      some (.taken directory))
    (hturns : (disk file).turns directory = some .enter)
    (hface : (disk file).face? (directory ++ [fileName.text]) =
      some (.file 0 ⟨0o644, file.modified⟩ file.content)) :
    Finding Contest.Sample.project (disk file) (some file) :=
  .file ⟨eq_ok_of_toOption hplace, hturns⟩ ⟨0, _, rfl, hface⟩

end Sample

/-- A cut off record counts from the time of its last change, a readable one does not. -/
theorem acquire_decided_cut_off_ahead :
    (Sample.cutOff.record? = none ∧
      Sample.cutOff.IsLeftBehind (Sample.disk Sample.cutOff).clock ∧
      Decided (Contest.Sample.owner false) Contest.Sample.project (some Sample.cutOff)
        { disk := Sample.disk Sample.cutOff }) ∧
    ¬ Sample.ahead.IsLeftBehind (Sample.disk Sample.ahead).clock ∧
      Decided (Contest.Sample.owner false) Contest.Sample.project (some Sample.ahead)
        { disk := Sample.disk Sample.ahead } := by
  have hlength : (pathIn Contest.Sample.project).text.length < pathLimit := by decide +kernel
  refine ⟨⟨by decide +kernel, by decide +kernel, ?_⟩, by decide +kernel, ?_⟩
  · exact acquire_decided _ (Sample.finding Sample.cutOff (by decide +kernel) (by decide +kernel)
      (by decide +kernel)) hlength
  · exact acquire_decided _ (Sample.finding Sample.ahead (by decide +kernel) (by decide +kernel)
      (by decide +kernel)) hlength

/-- Without a bound on the length of the path a party can fail where there is no lock file. -/
theorem not_decided_of_long_root :
    ¬ ∀ (owner : LockOwner) (root : Path) (found : Option LockFile) (site : Site),
      Finding root site.disk found → Decided owner root found site := by
  intro h
  let site : Site := { disk := Contest.Sample.disk [] }
  have hfree : (site.disk.place .keep (directoryIn Sample.longProject)).toOption =
      some (.free [Bytes.ofString directoryName]) := by
    decide +kernel
  have hfinding : Finding Sample.longProject site.disk none :=
    .noDirectory (eq_ok_of_toOption hfree)
  obtain ⟨lock, hlock⟩ :=
    (h (Contest.Sample.owner false) Sample.longProject none site hfinding).granted_iff.mpr
      (by simp)
  have hacquire : acquire (Contest.Sample.owner false) Sample.longProject site = (.ok lock, _) :=
    Prod.ext hlock rfl
  obtain ⟨-, -, ⟨l, -, -, hstands⟩, -⟩ := acquire_ok hacquire
  have hfault : pathFault? (pathIn Sample.longProject) ≠ none := by decide +kernel
  exact hfault (pathFault?_of_place hstands.place_eq)

end RunLock

end ReleasePublisher
