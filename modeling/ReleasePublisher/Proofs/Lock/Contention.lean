import ReleasePublisher.Proofs.Lock.Release

/-!
What can be done while a lock file stands. A party that wants the lock changes nothing unless it
takes the file away, and the directory of the lock stays, since the file is in it.
-/
namespace ReleasePublisher

namespace RunLock

open FileSystem

variable {owner : LockOwner} {root : Path} {fs : FileSystem} {d l : Location}

structure Leads (root : Path) (d : Location) (fs : FileSystem) : Prop where
  place_eq : fs.place .follow (directoryIn root) = .ok (.taken d)
  turns_eq : fs.turns d = some .enter

/-- Where the path of the lock leads, its directory is there. -/
theorem exists_leads (h : fs.place .keep (pathIn root) = .ok (.taken l) ∨
    fs.place .keep (pathIn root) = .ok (.free l)) :
    ∃ d, l = d ++ [fileName.text] ∧ Leads root d fs := by
  obtain ⟨d, hl, hfollow, hturn⟩ :=
    place_of_place_div (isOpen_directoryIn root) isEntry_fileName h
  exact ⟨d, hl, hfollow, hturn⟩

theorem Leads.ensureDirectories_eq (h : Leads root d fs) :
    fs.ensureDirectories (directoryIn root) = (fs, none) := by
  obtain ⟨x, hkeep⟩ := exists_place_keep h.place_eq
  rw [ensureDirectories_of_place (isOpen_directoryIn root) hkeep,
    if_pos (isDirectory_of_place h.place_eq h.turns_eq)]

theorem ensureDirectories_of_lock (h : fs.place .keep (pathIn root) = .ok (.taken l)) :
    fs.ensureDirectories (directoryIn root) = (fs, none) := by
  obtain ⟨d, -, hleads⟩ := exists_leads (Or.inl h)
  exact hleads.ensureDirectories_eq

/-- The directory of the lock is not empty while a lock file stands. -/
theorem removeDirectory_of_lock (h : fs.place .keep (pathIn root) = .ok (.taken l))
    (after : FileSystem) : fs.removeDirectory (directoryIn root) ≠ .ok after := by
  intro hremove
  obtain ⟨d, rfl, hfollow, -⟩ := exists_leads (Or.inl h)
  obtain ⟨d', attributes, hkeep, hat, -⟩ := erase_of_removeDirectory hremove
  have hd : d' = d := by
    have hfollow' := place_follow_of_keep hkeep (by simp [FileSystem.turns, turns_directory hat])
    rw [hfollow] at hfollow'
    simpa using hfollow'.symm
  subst hd
  refine (mem_trail_of_taken h).2 ?_
  rw [face?_eq_none_iff, Node.at?_concat hat]
  rfl

section File

variable {serial : Serial} {attributes : Attributes} {content : Bytes}

/-- A file at the path of the lock is no link. -/
theorem place_follow_of_lock (hplace : fs.place .keep (pathIn root) = .ok (.taken l))
    (hface : fs.face? l = some (.file serial attributes content)) :
    fs.place .follow (pathIn root) = .ok (.taken l) := by
  have hturn : fs.turns l = some .stop := by
    rw [turns_eq_map_face?, hface]
    rfl
  exact place_follow_of_keep hplace (by simp [hturn])

theorem read_lock (hplace : fs.place .keep (pathIn root) = .ok (.taken l))
    (hface : fs.face? l = some (.file serial attributes content)) :
    fs.read (pathIn root) = .ok content :=
  read_eq_ok_iff.mpr ⟨l, _, place_follow_of_lock hplace hface, hface, rfl⟩

theorem Stage.recordAt_of_file (hplace : fs.place .keep (pathIn root) = .ok (.taken l))
    (hface : fs.face? l = some (.file serial attributes content)) :
    Stage.recordAt fs root = LockRecord.parse? content := by
  rw [Stage.recordAt, read_lock hplace hface]

theorem Stage.isAbandoned_of_file (hplace : fs.place .keep (pathIn root) = .ok (.taken l))
    (hface : fs.face? l = some (.file serial attributes content)) :
    Stage.isAbandoned fs root =
      decide (LockRecord.staleAge ≤ fs.clock.since attributes.modified) := by
  rw [Stage.isAbandoned, modified?_of_place (place_follow_of_lock hplace hface) hface]

end File

namespace Stage

/-- The stages that change what stands at the path of the lock even if something does. -/
def replaces : Stage → Bool
  | .evict _ => true
  | .fill .. => true
  | _ => false

/-- Where something stands at the path of the lock, no file is made. -/
theorem makeFile_of_place (h : fs.place .keep (pathIn root) = .ok (.taken l)) (record : LockRecord)
    (taken : Stage) : makeFile root record taken fs = ⟨.next taken, fs, {}⟩ := by
  rw [makeFile, createNew_of_place h]

/-- A party that takes nothing away leaves everything as it is while a lock file stands. -/
theorem disk_perform_of_place {stage : Stage} (h : fs.place .keep (pathIn root) = .ok (.taken l))
    (hstage : stage.replaces = false) : (stage.perform owner root fs).disk = fs := by
  cases stage with
  | enter => simp only [perform, ensureDirectories_of_lock h]
  | create record => simp only [perform, makeFile_of_place h]
  | recreate record => simp only [perform, makeFile_of_place h]
  | inspect record =>
    simp only [perform]
    repeat' split
    all_goals rfl
  | age record =>
    simp only [perform]
    split <;> rfl
  | evict record => simp [replaces] at hstage
  | fill record handle => simp [replaces] at hstage
  | contend => rfl

end Stage

end RunLock

end ReleasePublisher
