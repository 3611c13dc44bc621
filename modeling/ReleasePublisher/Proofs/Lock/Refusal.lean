import ReleasePublisher.Proofs.Lock.Exclusive
import ReleasePublisher.Proofs.Lock.Record

/-!
A lock that has been taken and not been disturbed since. Until it is an hour old everyone else who
wants the lock is refused with the answer of who holds it, and changes nothing.
-/
namespace ReleasePublisher

namespace RunLock

open FileSystem

inductive Signed (record : LockRecord) (root : Path) (fs : FileSystem) : Prop
  | intro {l : Location} {serial : Serial} {attributes : Attributes}
      (place_eq : fs.place .keep (pathIn root) = .ok (.taken l))
      (face_eq : fs.face? l = some (.file serial attributes record.fileText))
      (modified_eq : attributes.modified = record.acquired) : Signed record root fs

variable {root : Path} {record : LockRecord} {fs : FileSystem}

namespace Signed

theorem exists_place (h : Signed record root fs) :
    ∃ l, fs.place .keep (pathIn root) = .ok (.taken l) := by
  obtain ⟨hplace, -, -⟩ := h
  exact ⟨_, hplace⟩

theorem read_eq (h : Signed record root fs) : fs.read (pathIn root) = .ok record.fileText := by
  obtain ⟨hplace, hface, -⟩ := h
  exact read_lock hplace hface

theorem recordAt_eq (h : Signed record root fs) :
    Stage.recordAt fs root = if record.acquired.date.inRange then some record else none := by
  obtain ⟨hplace, hface, -⟩ := h
  rw [Stage.recordAt_of_file hplace hface]
  exact record.parse?_fileText

/-- A lock is as old as its record says, whether that can be read or not. -/
theorem isAbandoned_eq (h : Signed record root fs) :
    Stage.isAbandoned fs root = record.isStale fs.clock := by
  obtain ⟨hplace, hface, hmodified⟩ := h
  rw [Stage.isAbandoned_of_file hplace hface, hmodified]
  rfl

/-- A party that comes upon a lock that is not stale goes on to be refused, and leaves it alone. -/
theorem perform_eq (owner : LockOwner) {stage : Stage} (h : Signed record root fs)
    (hyoung : record.isStale fs.clock = false) (hstage : stage.replaces = false) :
    ∃ progress, stage.perform owner root fs = ⟨progress, fs, {}⟩ ∧
      ((∃ next : Stage, progress = .next next ∧ next.replaces = false) ∨
        progress = .refused (Stage.contention (Stage.recordAt fs root))) := by
  obtain ⟨l, hplace⟩ := h.exists_place
  cases stage with
  | enter =>
    simp only [Stage.perform, ensureDirectories_of_lock hplace]
    exact ⟨_, rfl, Or.inl ⟨_, rfl, rfl⟩⟩
  | create record =>
    simp only [Stage.perform, Stage.makeFile_of_place hplace]
    exact ⟨_, rfl, Or.inl ⟨_, rfl, rfl⟩⟩
  | recreate record =>
    simp only [Stage.perform, Stage.makeFile_of_place hplace]
    exact ⟨_, rfl, Or.inl ⟨_, rfl, rfl⟩⟩
  | inspect record' =>
    simp only [Stage.perform, h.recordAt_eq]
    cases hrange : record.acquired.date.inRange with
    | true =>
      simp only [if_true, hyoung, Bool.false_eq_true, if_false]
      exact ⟨_, rfl, Or.inl ⟨_, rfl, rfl⟩⟩
    | false => exact ⟨_, rfl, Or.inl ⟨_, rfl, rfl⟩⟩
  | age record' =>
    simp only [Stage.perform, h.isAbandoned_eq, hyoung, Bool.false_eq_true, if_false]
    exact ⟨_, rfl, Or.inl ⟨_, rfl, rfl⟩⟩
  | evict record => simp [Stage.replaces] at hstage
  | fill record handle => simp [Stage.replaces] at hstage
  | contend => exact ⟨_, rfl, Or.inr rfl⟩

/-- A party that comes upon a young lock is refused and leaves everything as it was. -/
theorem acquireFrom_eq (owner : LockOwner) {stage : Stage} {site : Site}
    (h : Signed record root site.disk) (hyoung : record.isStale site.disk.clock = false)
    (hstage : stage.replaces = false) :
    ∃ n, acquireFrom owner root stage site =
      (.error (Stage.contention (Stage.recordAt site.disk root)),
        { site with history := site.history ++ List.replicate n (.changed site.disk) }) := by
  obtain ⟨progress, hperform, hprogress⟩ := h.perform_eq owner hyoung hstage
  have hshown : site.shown ++ ({} : Transcript) = site.shown := Transcript.append_empty _
  rw [acquireFrom]
  simp only [hperform, hshown]
  split
  · next next hnext =>
    obtain rfl : progress = .next next := by simpa [hperform] using hnext
    have hreplaces : next.replaces = false := by simpa using hprogress
    generalize hsite : Site.mk _ _ _ = following
    have hdisk : following.disk = site.disk := by
      rw [← hsite]
      rfl
    have hfollowing : Signed record root following.disk := by
      rw [hdisk]
      exact h
    obtain ⟨n, heq⟩ := hfollowing.acquireFrom_eq owner (hdisk ▸ hyoung) hreplaces
    refine ⟨n + 1, ?_⟩
    rw [heq, hdisk, ← hsite, List.replicate_succ]
    simp [Site.change]
  · next hheld =>
    obtain rfl : progress = .held := by simpa [hperform] using hheld
    simp at hprogress
  · next error hrefused =>
    obtain rfl : progress = .refused error := by simpa [hperform] using hrefused
    obtain rfl : error = Stage.contention (Stage.recordAt site.disk root) := by
      simpa using hprogress
    exact ⟨1, rfl⟩
termination_by stage.rank
decreasing_by exact Stage.rank_lt_of_perform (congrArg Stage.Performed.progress hperform)

/-- Whoever wants a lock that is not an hour old is told who holds it, and changes nothing. -/
theorem acquire_eq_refused (owner : LockOwner) {site : Site} (h : Signed record root site.disk)
    (hyoung : record.isStale site.disk.clock = false) :
    ∃ n, acquire owner root site =
      (.error (Stage.contention (if record.acquired.date.inRange then some record else none)),
        { site with history := site.history ++ List.replicate n (.changed site.disk) }) := by
  rw [← h.recordAt_eq]
  exact h.acquireFrom_eq owner hyoung rfl

end Signed

namespace Stage

theorem clock_makeFile (taken : Stage) : (makeFile root record taken fs).disk.clock = fs.clock := by
  rw [makeFile]
  split
  · next disk handle hcreate => exact clock_of_createNew hcreate
  · rfl
  · rfl

theorem clock_perform (owner : LockOwner) (root : Path) (stage : Stage) (fs : FileSystem) :
    (stage.perform owner root fs).disk.clock = fs.clock := by
  cases stage with
  | enter =>
    have hclock := clock_ensureChain fs (directoryIn root).ancestors
    simp only [perform, ensureDirectories]
    split
    · next hchain => rwa [hchain] at hclock
    · next hchain => rwa [hchain] at hclock
  | create record => exact clock_makeFile _
  | recreate record => exact clock_makeFile _
  | evict record =>
    simp only [perform]
    split
    · next disk hremove => exact clock_of_removeFile hremove
    · rfl
    · rfl
  | fill record handle => exact clock_writeTo fs handle record.fileText
  | _ =>
    simp only [perform]
    repeat' split
    all_goals rfl

/-- A party draws its record up when the directory has been made, and keeps it. -/
theorem record?_of_perform {owner : LockOwner} {stage next : Stage}
    (h : (stage.perform owner root fs).progress = .next next) (hnext : next.record? = some record) :
    stage.record? = some record ∨ record = ⟨owner, fs.clock⟩ := by
  cases Outcome.of_perform h with
  | entered => exact Or.inr (by simpa [record?] using hnext.symm)
  | fresh _ found read young => simp [record?] at hnext
  | recent _ young => simp [record?] at hnext
  | retaken _ => simp [record?] at hnext
  | _ => exact Or.inl hnext

theorem eq_fill_of_held {owner : LockOwner} {stage : Stage}
    (h : (stage.perform owner root fs).progress = .held) :
    ∃ record handle, stage = .fill record handle := by
  cases Outcome.of_perform h with
  | filled record handle => exact ⟨record, handle, rfl⟩

end Stage

/-- Filling an empty lock file signs it. -/
theorem signed_fill {handle : Handle} {attributes : Attributes}
    (hplace : fs.place .keep (pathIn root) = .ok (.taken handle.location))
    (hface : fs.face? handle.location = some (.file handle.serial attributes []))
    (hclock : fs.clock = record.acquired) :
    Signed record root (fs.writeTo handle record.fileText) :=
  .intro (((refilled_writeTo hface record.fileText).place_eq .keep _).1.trans hplace)
    (face?_writeTo hface record.fileText) hclock

/-- Whoever gets the lock leaves it signed with the time when it came for it. -/
theorem signed_of_acquireFrom {owner : LockOwner} {stage : Stage} {site locked : Site}
    {lock : RunLock} {time : Timestamp} (hrecord : ∀ r, stage.record? = some r → r = ⟨owner, time⟩)
    (hbacked : (Activity.acquiring stage).Backed owner root site.disk)
    (hclock : site.disk.clock = time) (h : acquireFrom owner root stage site = (.ok lock, locked)) :
    Signed ⟨owner, time⟩ root locked.disk := by
  rw [acquireFrom] at h
  split at h
  · next next hnext =>
    have hrank := Stage.rank_lt_of_perform hnext
    have hmade : stage.hasMade = false := by
      cases stage with
      | fill record handle => simp [Stage.perform] at hnext
      | _ => rfl
    have hnextBacked := Activity.backed_perform hbacked hmade
    rw [hnext] at hnextBacked
    refine signed_of_acquireFrom ?_ hnextBacked ?_ h
    · intro r hr
      rcases Stage.record?_of_perform hnext hr with hsame | hdrawn
      · exact hrecord r hsame
      · rw [hdrawn, hclock]
    · exact (Stage.clock_perform owner root stage site.disk).trans hclock
  · next hheld =>
    obtain ⟨r, handle, rfl⟩ := Stage.eq_fill_of_held hheld
    obtain rfl := hrecord r rfl
    obtain ⟨hplace, attributes, hface⟩ := hbacked.2 _ handle rfl
    simp only [Prod.mk.injEq] at h
    rw [← h.2]
    exact signed_fill hplace hface hclock
  · simp at h
termination_by stage.rank
decreasing_by exact hrank

/-- The lock that a party gets is signed with its name and the time at which it came. -/
theorem signed_of_acquire {owner : LockOwner} {site locked : Site} {lock : RunLock}
    (h : acquire owner root site = (.ok lock, locked)) :
    Signed ⟨owner, site.disk.clock⟩ root locked.disk :=
  signed_of_acquireFrom (by simp [Stage.record?]) (by simp [Activity.Backed, Stage.record?]) rfl h

theorem clock_acquireFrom (owner : LockOwner) (root : Path) (stage : Stage) (site : Site) :
    (acquireFrom owner root stage site).2.disk.clock = site.disk.clock := by
  have hclock := Stage.clock_perform owner root stage site.disk
  rw [acquireFrom]
  split
  · next next hnext =>
    have hrank := Stage.rank_lt_of_perform hnext
    exact (clock_acquireFrom owner root next _).trans hclock
  · exact hclock
  · exact hclock
termination_by stage.rank
decreasing_by exact hrank

theorem clock_discard (lock : RunLock) (site : Site) :
    (lock.discard site).disk.clock = site.disk.clock := by
  have hattempt : ∀ (operation : FileSystem → Except FileFault FileSystem) (site : Site),
      (∀ fs fs', operation fs = .ok fs' → fs'.clock = fs.clock) →
        (site.attempt operation).2.disk.clock = site.disk.clock := by
    intro operation site hoperation
    rw [Site.attempt]
    split
    · next disk hdone => exact hoperation _ _ hdone
    · rfl
  rw [discard, tidy, hattempt _ _ fun _ _ => clock_of_removeDirectory]
  exact hattempt _ _ fun _ _ => clock_of_removeFile

end RunLock

end ReleasePublisher
