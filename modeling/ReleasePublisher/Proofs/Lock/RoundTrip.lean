import ReleasePublisher.Proofs.FileSystem.Changes
import ReleasePublisher.Proofs.Lock.Contention
import ReleasePublisher.Proofs.Lock.MutualExclusion

/-!
Taking the lock and giving it back. Giving it back takes away what stands at its path, and then the
directory if nothing is left in it, whatever has become of both in the meantime. Straight after the
lock was taken this leads back to the files there were before.
-/
namespace ReleasePublisher

namespace RunLock

open FileSystem

variable {owner : LockOwner} {root path name : Path} {d : Location} {attributes : Attributes}
  {entries : List (Bytes × Node)} {fs before after : FileSystem} {moments : List Moment}
  {site locked : Site} {lock : RunLock}

theorem removedIf_of_removeFile (hname : name.IsEntry)
    (h : Attempt (·.removeFile (path / name)) before moments after) :
    RemovedIf (path / name) (·.isDirectory = false) before after := by
  cases h with
  | done step =>
    obtain ⟨l, node, hplace, hat, hnode, rfl⟩ := erase_of_removeFile step
    obtain ⟨d, rfl⟩ := exists_eq_concat_of_place hname hplace
    exact .gone hplace hat hnode (gone_erase hat (Node.isBare_of_isDirectory_eq_false hnode))
  | failed step =>
    refine .kept fun l node hplace hat hnode => ?_
    simp [removeFile_of_present (resolve_eq_present_iff.mpr ⟨hplace, hat⟩), hnode] at step

theorem removedIf_of_removeDirectory (hname : name.IsEntry)
    (h : Attempt (·.removeDirectory (path / name)) before moments after) :
    RemovedIf (path / name) Node.IsEmptyDirectory before after := by
  cases h with
  | done step =>
    obtain ⟨l, attributes, hplace, hat, rfl⟩ := erase_of_removeDirectory step
    obtain ⟨d, rfl⟩ := exists_eq_concat_of_place hname hplace
    exact .gone hplace hat ⟨attributes, rfl⟩ (gone_erase hat (Node.isBare_directory_nil attributes))
  | failed step =>
    refine .kept fun l node hplace hat ⟨attributes, hnode⟩ => ?_
    subst hnode
    simp [removeDirectory_of_place hplace hat] at step

/-- What stands at the path of the lock is gone unless it is a directory, and after that the
directory of the lock is gone if it is an empty one and no link. -/
inductive GivenBack (root : Path) (before after : FileSystem) : Prop
  | intro {middle : FileSystem}
      (file : RemovedIf (pathIn root) (·.isDirectory = false) before middle)
      (directory : RemovedIf (directoryIn root) Node.IsEmptyDirectory middle after) :
      GivenBack root before after

/-- However the removals went, what they could take away is gone. -/
theorem Released.givenBack (h : Released root before moments after) :
    GivenBack root before after := by
  obtain ⟨hfile, hdirectory⟩ := h
  exact .intro (removedIf_of_removeFile isEntry_fileName hfile)
    (removedIf_of_removeDirectory isEntry_directoryName hdirectory)

structure Unclaimed (root : Path) (d : Location) (attributes : Attributes)
    (entries : List (Bytes × Node)) (fs : FileSystem) : Prop where
  place_eq : fs.place .keep (directoryIn root) = .ok (.taken d)
  at?_eq : fs.root.at? d = some (.directory attributes entries)
  child?_eq : Node.child? fileName.text entries = none
  here : fs.face? fs.workingDirectory.location ≠ none

namespace Unclaimed

theorem turns_eq (h : Unclaimed root d attributes entries fs) : fs.turns d = some .enter :=
  turns_directory h.at?_eq

theorem place_follow (h : Unclaimed root d attributes entries fs) :
    fs.place .follow (directoryIn root) = .ok (.taken d) :=
  place_follow_of_keep h.place_eq (by simp [h.turns_eq])

theorem entered_eq (h : Unclaimed root d attributes entries fs) : entered root fs = fs := by
  rw [entered, ensureDirectories_of_place (isOpen_directoryIn root) h.place_eq]

/-- The lock file is made where it is missing, without anything being taken away for it. -/
theorem exists_locked (h : Unclaimed root d attributes entries (entered root site.disk))
    (hacquire : acquire owner root site = (.ok lock, locked)) :
    ∃ content, locked.disk =
      ((entered root site.disk).addFile d fileName.text []).writeTo
        ⟨d ++ [fileName.text], (entered root site.disk).nextSerial⟩ content := by
  obtain ⟨hok, -, -⟩ := acquire_touched owner root site
  rw [hacquire] at hok
  obtain ⟨-, hheld⟩ : lock = ⟨root⟩ ∧ Held owner root (entered root site.disk) locked.disk :=
    hok lock rfl
  generalize locked.disk = final at hheld ⊢
  obtain @⟨handle, made, record, hcreated, -⟩ := hheld
  obtain @⟨fs, hcleared, hcreate⟩ := hcreated
  -- whatever the path of the lock leads to is in the directory
  have hin : ∀ {l}, (entered root site.disk).place .keep (pathIn root) = .ok (.taken l) ∨
      (entered root site.disk).place .keep (pathIn root) = .ok (.free l) →
        l = d ++ [fileName.text] := by
    intro l hl
    obtain ⟨d', rfl, hfollow, -⟩ := exists_leads hl
    rw [h.place_follow] at hfollow
    simpa using hfollow.symm
  have hentered : fs = entered root site.disk := by
    cases hcleared with
    | untouched => rfl
    | evicted step =>
      obtain ⟨l, node, hplace, hat, -, -⟩ := erase_of_removeFile step
      rw [hin (Or.inl hplace), Node.at?_concat h.at?_eq, h.child?_eq] at hat
      simp at hat
  subst hentered
  have hfree := (made_of_createNew hcreate).2.free
  obtain ⟨directory, entry, -, -, hl, hresolve, -, -⟩ := resolve_of_place_free hfree
  rw [createNew, hresolve] at hcreate
  simp only [Except.ok.injEq, Prod.mk.injEq] at hcreate
  obtain ⟨rfl, rfl⟩ := hcreate
  obtain ⟨rfl, hentry⟩ := List.append_inj' (hin (Or.inr hfree)) rfl
  obtain rfl : entry = fileName.text := by simpa using hentry
  exact ⟨_, rfl⟩

/-- When the file of the lock is gone again, only the time of its directory tells of it. -/
theorem removeFile_locked (h : Unclaimed root d attributes entries (entered root site.disk))
    (hacquire : acquire owner root site = (.ok lock, locked)) :
    ∃ middle, locked.disk.removeFile (pathIn root) = .ok middle ∧
      middle = { (entered root site.disk).touch d with
        nextSerial := (entered root site.disk).nextSerial + 1 } ∧
      middle.place .keep (directoryIn root) = .ok (.taken d) := by
  obtain ⟨hstands, hdirectory⟩ := stands_of_acquire hacquire h.place_eq h.turns_eq
  obtain ⟨d', hd, -, hturns⟩ := hstands.directory
  obtain rfl : d = d' := by simpa using hd
  obtain ⟨attributes', entries', hentries⟩ := exists_directory_of_turns hturns
  obtain ⟨hremove, -, hunlocked⟩ := hstands.unlocked hdirectory hentries
  obtain ⟨content, hlocked⟩ := h.exists_locked hacquire
  refine ⟨_, hremove, ?_, hunlocked.directory⟩
  rw [hlocked, erase_writeTo, erase_addFile h.at?_eq h.child?_eq h.here]

/-- The directory is gone as well if nothing else is in it. -/
theorem discard_locked (h : Unclaimed root d attributes entries (entered root site.disk))
    (hacquire : acquire owner root site = (.ok lock, locked)) :
    (lock.discard locked).disk =
      { (if entries = [] then (entered root site.disk).erase d
          else (entered root site.disk).touch d)
        with nextSerial := (entered root site.disk).nextSerial + 1 } := by
  obtain ⟨rfl, -⟩ := acquire_ok hacquire
  obtain ⟨middle, hremove, hmiddle, hplace⟩ := h.removeFile_locked hacquire
  have hat : middle.root.at? d =
      some (.directory { attributes with modified := (entered root site.disk).clock } entries) := by
    rw [hmiddle]
    exact at?_touch h.at?_eq
  have htidy := removeDirectory_of_place hplace hat
  obtain ⟨front, rfl⟩ := exists_eq_concat_of_place isEntry_directoryName h.place_eq
  rw [discard, tidy, Site.attempt_of_ok (·.removeFile (pathIn root)) hremove]
  by_cases hempty : entries = []
  · rw [if_pos hempty] at htidy ⊢
    have hattempt : (locked.change middle).attempt (·.removeDirectory (directoryIn root)) =
        (none, (locked.change middle).change _) :=
      Site.attempt_of_ok (·.removeDirectory (directoryIn root)) htidy
    rw [hattempt, ← erase_touch (entered root site.disk), erase_concat _ front]
    simp only [Site.change, hmiddle, erase_concat]
  · rw [if_neg hempty] at htidy ⊢
    have hattempt : (locked.change middle).attempt (·.removeDirectory (directoryIn root)) =
        (some _, locked.change middle) :=
      Site.attempt_of_error (·.removeDirectory (directoryIn root)) htidy
    rw [hattempt, ← hmiddle]
    rfl

end Unclaimed
/-- The project is in a directory and nobody has its lock: the directory of the lock is missing, or
it is there, is no link and has no lock file in it. -/
inductive Lockless (root : Path) (fs : FileSystem) : Prop
  | missing {d : Location} (free : fs.place .keep (directoryIn root) = .ok (.free d))
      (here : fs.face? fs.workingDirectory.location ≠ none) : Lockless root fs
  | unclaimed {d : Location} {attributes : Attributes} {entries : List (Bytes × Node)}
      (directory : Unclaimed root d attributes entries fs) : Lockless root fs

/-- Everything is as it was before the lock was taken, apart from the time at which a directory was
last changed and from the number of files that have been made. Only a directory of the lock that
stood empty before is gone. -/
inductive Restored (root : Path) (before after : FileSystem) : Prop
  | missing {above : Location} {name : Bytes}
      (free : before.place .keep (directoryIn root) = .ok (.free (above ++ [name])))
      (after_eq : after = { before.touch above with nextSerial := before.nextSerial + 1 }) :
      Restored root before after
  | empty {d : Location} {attributes : Attributes}
      (directory : Unclaimed root d attributes [] before)
      (after_eq : after = { before.erase d with nextSerial := before.nextSerial + 1 }) :
      Restored root before after
  | inUse {d : Location} {attributes : Attributes} {entries : List (Bytes × Node)}
      (directory : Unclaimed root d attributes entries before) (nonempty : entries ≠ [])
      (after_eq : after = { before.touch d with nextSerial := before.nextSerial + 1 }) :
      Restored root before after

theorem Unclaimed.of_free (h : fs.place .keep (directoryIn root) = .ok (.free d))
    (hhere : fs.face? fs.workingDirectory.location ≠ none) :
    ∃ attributes, Unclaimed root d attributes [] (entered root fs) := by
  obtain ⟨made, attributes, hmake, hmade, hat⟩ := exists_made_of_free h
  rw [entered_of_makeDirectory hmake]
  refine ⟨attributes, (hmade.place_eq (by simp [Face.turn])).1, hat, rfl, ?_⟩
  rw [hmade.here_eq, hmade.grows.face?_eq _ hhere]
  exact hhere

/-- Taking the lock and giving it back restores a project that nobody had locked. -/
theorem Lockless.restored (h : Lockless root site.disk)
    (hacquire : acquire owner root site = (.ok lock, locked)) :
    Restored root site.disk (lock.discard locked).disk := by
  cases h with
  | missing hfree hhere =>
    obtain ⟨attributes, hunclaimed⟩ := Unclaimed.of_free hfree hhere
    have hdisk := hunclaimed.discard_locked hacquire
    obtain ⟨above, name, _, _, rfl, hat, hnone, hmake⟩ := makeDirectory_of_free hfree
    refine .missing hfree ?_
    rw [hdisk, if_pos rfl, entered_of_makeDirectory hmake, erase_add hat hnone hhere]
    rfl
  | @unclaimed d attributes entries hdirectory =>
    have hentered := hdirectory.entered_eq
    have hdisk := Unclaimed.discard_locked (hentered.symm ▸ hdirectory) hacquire
    rw [hentered] at hdisk
    by_cases hempty : entries = []
    · subst hempty
      rw [if_pos rfl] at hdisk
      exact .empty hdirectory hdisk
    · rw [if_neg hempty] at hdisk
      exact .inUse hdirectory hempty hdisk

/-- Giving the lock back does the same with an answer and without one, whatever has become of the
lock in the meantime. Straight after the lock was taken it leads back to where that began. -/
theorem release_round_trip (owner : LockOwner) (root : Path) :
    (∀ (lock : RunLock) (site : Site), (lock.release site).2 = lock.discard site ∧
      GivenBack lock.root site.disk (lock.discard site).disk) ∧
    ∀ (site locked : Site) (lock : RunLock), Lockless root site.disk →
      acquire owner root site = (.ok lock, locked) →
        Restored root site.disk (lock.discard locked).disk := by
  constructor
  · intro lock site
    obtain ⟨moments, -, hreleased⟩ := exists_discarded lock site
    exact ⟨release_eq_discard lock site, hreleased.givenBack⟩
  · intro site locked lock hlockless hacquire
    exact hlockless.restored hacquire

namespace Sample

def noted : Bytes × Node :=
  (Bytes.ofString directoryName, .directory ⟨0o755, .epoch⟩
    [(Bytes.ofString "note", .file 0 ⟨0o644, .epoch⟩ [])])

end Sample

/-- The directory of the lock holds a note and keeps it. -/
theorem release_round_trip_beside_note :
    let site : Site := { disk := Contest.Sample.disk [Sample.noted] }
    let acquired := acquire (Contest.Sample.owner false) Contest.Sample.project site
    let lock : RunLock := ⟨Contest.Sample.project⟩
    acquired.1 = .ok lock ∧ Lockless Contest.Sample.project site.disk ∧
      (lock.release acquired.2).2 = lock.discard acquired.2 ∧
      Restored Contest.Sample.project site.disk (lock.discard acquired.2).disk := by
  intro site acquired lock
  have hacquired : acquired.1 = .ok lock := eq_ok_of_toOption (by decide +kernel)
  have hplace : site.disk.place .keep (directoryIn Contest.Sample.project) =
      .ok (.taken [Bytes.ofString "work", Bytes.ofString directoryName]) :=
    eq_ok_of_toOption (by decide +kernel)
  have hat : site.disk.root.at? [Bytes.ofString "work", Bytes.ofString directoryName] =
      some Sample.noted.2 := by
    simp [site, Contest.Sample.disk, Node.at?, Node.child?, Sample.noted]
  have hlockless : Lockless Contest.Sample.project site.disk :=
    .unclaimed ⟨hplace, hat, by decide +kernel, by decide +kernel⟩
  obtain ⟨halike, hrestored⟩ := release_round_trip (Contest.Sample.owner false)
    Contest.Sample.project
  exact ⟨hacquired, hlockless, (halike lock acquired.2).1,
    hrestored site acquired.2 lock hlockless (Prod.ext hacquired rfl)⟩

end RunLock

end ReleasePublisher
