import ReleasePublisher.Proofs.Lock.Acquisition

/-!
Paths that have nothing to do with the lock: what shows there stays while the lock is taken.
-/
namespace ReleasePublisher

namespace RunLock

open FileSystem

/-- A path is not the path of the lock, and does not lead through the place of the lock. -/
def Apart (root path : Path) (fs : FileSystem) : Prop :=
  ∀ l, fs.place .keep (pathIn root) = .ok (.taken l) ∨
    fs.place .keep (pathIn root) = .ok (.free l) → l ∉ fs.trail .follow path

instance (root path : Path) (fs : FileSystem) : Decidable (Apart root path fs) :=
  match h : fs.place .keep (pathIn root) with
  | .ok (.taken l) => decidable_of_iff (l ∉ fs.trail .follow path) (by simp [Apart, h])
  | .ok (.free l) => decidable_of_iff (l ∉ fs.trail .follow path) (by simp [Apart, h])
  | .ok (.removed _) => isTrue (by simp [Apart, h])
  | .error _ => isTrue (by simp [Apart, h])

/-- What showed before the lock was taken shows afterwards, apart from the lock. -/
theorem Touched.place_taken {owner : LockOwner} {root path : Path} {before fs : FileSystem}
    (h : Touched owner root (entered root before) fs) (hapart : Apart root path (entered root before))
    {l : Location} (hplace : before.place .follow path = .ok (.taken l)) :
    fs.place .follow path = .ok (.taken l) ∧ fs.trail .follow path = before.trail .follow path ∧
      fs.face? l = before.face? l := by
  obtain ⟨hplace', htrail', hface'⟩ := (grows_entered root before).place_taken hplace
  rcases h.changesOnly with rfl | ⟨lock, hlock, hchanges⟩
  · exact ⟨hplace', htrail', hface'⟩
  · obtain ⟨hplace'', htrail'', hface''⟩ :=
      hchanges.keeps.place_taken hplace' (hapart lock hlock.place_eq)
    exact ⟨hplace'', htrail''.trans htrail', hface''.trans hface'⟩

/-- What is apart from the lock can be read on the way to the lock as before. -/
theorem Touched.read_eq {owner : LockOwner} {root path : Path} {before fs : FileSystem}
    (h : Touched owner root (entered root before) fs) (hapart : Apart root path (entered root before))
    {content : Bytes} (hread : before.read path = .ok content) : fs.read path = .ok content :=
  read_of_place hread fun _ hplace =>
    ⟨(h.place_taken hapart hplace).1, (h.place_taken hapart hplace).2.2⟩

/-- Writing a file leaves it apart from the lock, also when it makes the file. -/
theorem Apart.written {root path : Path} {content : Bytes} {l : Location}
    {before after : FileSystem} (h : Apart root path before)
    (hwritten : Written path l content before after) : Apart root path after := by
  intro x hx
  rw [hwritten.place_eq.2]
  apply h
  cases hwritten with
  | refilled place_eq step =>
    rw [(step.place_eq .keep (pathIn root)).1] at hx
    exact hx
  | made serial attributes step =>
    obtain ⟨d, rfl, hdirectory, hturn⟩ :=
      place_of_place_div (isOpen_directoryIn root) isEntry_fileName hx
    have hstop : after.turns l = some .stop := by
      rw [turns_eq_map_face?, step.shows]
      rfl
    have hne : d ≠ l := by
      intro heq
      rw [heq, hstop] at hturn
      simp at hturn
    -- the new file is no directory, so the way to the directory of the lock does not meet it
    have hbeside : l ∉ after.trail .follow (directoryIn root) := by
      intro hmem
      exact hne (eq_of_mem_trail_of_stop hdirectory hmem hstop).symm
    have hdirectory' : before.place .follow (directoryIn root) = .ok (.taken d) :=
      (step.place_back hbeside).1.trans hdirectory
    have hturn' : before.turns d = some .enter := by
      rw [← turns_eq_of_face?_eq (step.changes.face?_eq d hne)]
      exact hturn
    have hfault : pathFault? (directoryIn root / fileName) = none := by
      rcases hx with hx | hx
      · exact pathFault?_of_place hx
      · exact pathFault?_of_place hx
    have hplace := place_div (isOpen_directoryIn root) isEntry_fileName hfault hdirectory' hturn'
    rw [pathIn_eq, hplace]
    split
    · exact Or.inr rfl
    · exact Or.inl rfl

theorem here_locked {root : Path} {l : Location} {fs locked : FileSystem} (hlock : LockPlace root fs l)
    (hchanges : ChangesOnly l fs locked) :
    root.isAbsolute = true ∨ locked.workingDirectory = fs.workingDirectory := by
  cases hroot : root.isAbsolute with
  | true => exact Or.inl rfl
  | false =>
    right
    have hhere : fs.turns fs.workingDirectory.location = some .enter := by
      rcases hlock.place_eq with hplace | hplace
      · exact turns_here_of_lock hplace (by simp) hroot
      · exact turns_here_of_lock hplace (by simp) hroot
    apply hchanges.here_eq
    · intro heq
      exact hlock.turns_ne (heq ▸ hhere)
    · intro hnone
      rw [turns_eq_none_iff.mpr hnone] at hhere
      simp at hhere

/-- What is apart from the lock before it is taken is apart from it afterwards. -/
theorem Apart.locked {owner : LockOwner} {root path : Path} {site locked : Site} {lock : RunLock}
    (h : Apart root path (entered root site.disk))
    (hacquire : acquire owner root site = (.ok lock, locked))
    (hbase : root.isAbsolute = true → path.isAbsolute = true) : Apart root path locked.disk := by
  obtain ⟨-, -, ⟨x, hlock, hchanges, hstands⟩, -⟩ := acquire_ok hacquire
  have hx : x ∉ (entered root site.disk).trail .follow path := h x hlock.place_eq
  have htrail : locked.disk.trail .follow path = (entered root site.disk).trail .follow path := by
    refine (place_congr ?_ ((here_locked hlock hchanges).imp_left hbase)).2
    intro y hy
    have hne : y ≠ x := fun heq => hx (heq ▸ hy)
    exact turns_eq_of_face?_eq (hchanges.face?_eq y hne)
  intro y hy
  rw [htrail]
  rw [hstands.place_eq] at hy
  simp only [Except.ok.injEq, Place.taken.injEq, reduceCtorEq, or_false] at hy
  exact hy ▸ hx

end RunLock

end ReleasePublisher
