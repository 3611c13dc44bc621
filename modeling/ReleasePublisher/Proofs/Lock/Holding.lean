import ReleasePublisher.Proofs.Lock.Separation

/-!
Who holds the lock: the file of the party stands in the directory of the lock, and writing another
file does not change that.
-/
namespace ReleasePublisher

namespace RunLock

open FileSystem

variable {owner : LockOwner} {root path : Path} {serial : Serial} {d l : Location}
  {fs before after : FileSystem}

def Enterable (root : Path) (fs : FileSystem) : Prop :=
  ∃ d, fs.place .keep (directoryIn root) = .ok (.free d) ∨
    fs.place .keep (directoryIn root) = .ok (.taken d) ∧ fs.turns d = some .enter

theorem ensureDirectories_of_makeDirectory {made : FileSystem}
    (h : fs.makeDirectory (directoryIn root) = .ok made) :
    fs.ensureDirectories (directoryIn root) = (made, none) := by
  have hne : (directoryIn root).text ≠ [] := (isOpen_directoryIn root).ne_nil
  obtain ⟨above, habove⟩ := (directoryIn root).exists_ancestors_eq_cons
  rw [ensureDirectories, habove, ensureChain, if_neg hne, h]

theorem entered_of_makeDirectory {made : FileSystem}
    (h : fs.makeDirectory (directoryIn root) = .ok made) : entered root fs = made := by
  rw [entered, ensureDirectories_of_makeDirectory h]

/-- Where the directory of the lock is missing in a directory, it is made with nothing in it. -/
theorem makeDirectory_of_free (h : fs.place .keep (directoryIn root) = .ok (.free d)) :
    ∃ directory name attributes entries, d = directory ++ [name] ∧
      fs.root.at? directory = some (.directory attributes entries) ∧
      Node.child? name entries = none ∧
      fs.makeDirectory (directoryIn root) =
        .ok (fs.add directory name (.directory ⟨newDirectoryMode, fs.clock⟩ [])) := by
  obtain ⟨directory, name, attributes, entries, rfl, hresolve, hat, hnone⟩ :=
    resolve_of_place_free h
  refine ⟨directory, name, attributes, entries, rfl, hat, hnone, ?_⟩
  rw [makeDirectory, Path.withoutEndSlashes_of_isOpen (isOpen_directoryIn root), hresolve]

/-- Where the directory of the lock is missing, it can be made. -/
theorem exists_made_of_free (h : fs.place .keep (directoryIn root) = .ok (.free d)) :
    ∃ made attributes, fs.makeDirectory (directoryIn root) = .ok made ∧
      Made .keep (directoryIn root) d (.directory newDirectoryMode) fs made ∧
      made.root.at? d = some (.directory attributes []) := by
  obtain ⟨directory, name, attributes, entries, rfl, -, -, hmake⟩ := makeDirectory_of_free h
  obtain ⟨-, l, hmade, attributes', hat⟩ := made_of_makeDirectory hmake
  rw [Path.withoutEndSlashes_of_isOpen (isOpen_directoryIn root)] at hmade
  have hl : directory ++ [name] = l := by
    have hfree := hmade.free
    rw [h] at hfree
    simpa using hfree
  exact ⟨_, attributes', hmake, hl ▸ hmade, hl ▸ hat⟩

theorem entered_directory (h : Enterable root fs) :
    ∃ d, (entered root fs).place .keep (directoryIn root) = .ok (.taken d) ∧
      (entered root fs).turns d = some .enter := by
  obtain ⟨d, hfree | ⟨htaken, hturn⟩⟩ := h
  · obtain ⟨made, attributes, hmake, hmade, hat⟩ := exists_made_of_free hfree
    have hplace := (hmade.place_eq (by simp [Face.turn])).1
    rw [entered_of_makeDirectory hmake]
    exact ⟨d, hplace, turns_directory hat⟩
  · obtain ⟨hplace, -, hface⟩ := (grows_entered root fs).place_taken htaken
    exact ⟨d, hplace, (turns_eq_of_face?_eq hface).trans hturn⟩

theorem Stands.directory (h : Stands owner root serial l fs) :
    ∃ d, l = d ++ [fileName.text] ∧ fs.place .follow (directoryIn root) = .ok (.taken d) ∧
      fs.turns d = some .enter :=
  place_of_place_div (isOpen_directoryIn root) isEntry_fileName (Or.inl h.place_eq)

theorem Stands.turns_eq (h : Stands owner root serial l fs) : fs.turns l = some .stop := by
  obtain ⟨attributes, record, -, hface⟩ := h.shows
  rw [turns_eq_map_face?, hface]
  rfl

theorem Stands.notMem_trail (h : Stands owner root serial l fs) :
    l ∉ fs.trail .follow (directoryIn root) := by
  obtain ⟨d, hl, hplace, hturn⟩ := h.directory
  intro hmem
  have heq := eq_of_mem_trail_of_stop hplace hmem h.turns_eq
  rw [← heq, h.turns_eq] at hturn
  simp at hturn

/-- A party holds the lock: its file stands in the directory of the lock, which is no link, and is
apart from another path. -/
structure Holding (owner : LockOwner) (root path : Path) (serial : Serial) (d l : Location)
    (fs : FileSystem) : Prop where
  stands : Stands owner root serial l fs
  directory : fs.place .keep (directoryIn root) = .ok (.taken d)
  location_eq : l = d ++ [fileName.text]
  apart : Apart root path fs

theorem Holding.turns_eq (h : Holding owner root path serial d l fs) :
    fs.turns d = some .enter := by
  obtain ⟨d', hl, -, hturn⟩ := h.stands.directory
  rw [h.location_eq, List.append_cancel_right_eq] at hl
  exact hl ▸ hturn

/-- The file of a party that gets the lock stands in the directory that the path leads to. -/
theorem stands_of_acquire {site locked : Site} {lock : RunLock}
    (hacquire : acquire owner root site = (.ok lock, locked))
    (hkeep : (entered root site.disk).place .keep (directoryIn root) = .ok (.taken d))
    (hturn : (entered root site.disk).turns d = some .enter) :
    Stands owner root site.disk.nextSerial (d ++ [fileName.text]) locked.disk ∧
      locked.disk.place .keep (directoryIn root) = .ok (.taken d) := by
  obtain ⟨-, -, ⟨l, hlock, hchanges, hstands⟩, -⟩ := acquire_ok hacquire
  obtain ⟨d', hl, hfollow, -⟩ := hstands.directory
  have hbeside : l ∉ locked.disk.trail .keep (directoryIn root) := by
    intro hmem
    exact hstands.notMem_trail (trail_keep_subset hmem)
  have hsame : locked.disk.place .keep (directoryIn root) = .ok (.taken d) := by
    rw [← hkeep]
    refine (place_congr ?_ ?_).1.symm
    · intro x hx
      have hne : x ≠ l := fun heq => hbeside (heq ▸ hx)
      exact (turns_eq_of_face?_eq (hchanges.face?_eq x hne)).symm
    · rw [isAbsolute_directoryIn]
      exact (here_locked hlock hchanges).imp_right Eq.symm
  have hne : d ≠ l := by
    rintro rfl
    exact hlock.turns_ne hturn
  have hturn' : locked.disk.turns d = some .enter :=
    (turns_eq_of_face?_eq (hchanges.face?_eq d hne)).trans hturn
  -- the directory itself is where its path leads through links as well
  have heq : d = d' := by
    have hfollow' := place_follow_of_keep hsame (by simp [hturn'])
    rw [hfollow] at hfollow'
    simpa using hfollow'.symm
  subst heq
  exact ⟨hl ▸ hstands, hsame⟩

/-- A party that gets the lock holds it. -/
theorem holding_of_acquire {site locked : Site} {lock : RunLock}
    (hacquire : acquire owner root site = (.ok lock, locked)) (henter : Enterable root site.disk)
    (hapart : Apart root path (entered root site.disk))
    (hbase : root.isAbsolute = true → path.isAbsolute = true) :
    ∃ d l, Holding owner root path site.disk.nextSerial d l locked.disk := by
  obtain ⟨d, hkeep, hturn⟩ := entered_directory henter
  obtain ⟨hstands, hdirectory⟩ := stands_of_acquire hacquire hkeep hturn
  exact ⟨d, _, hstands, hdirectory, rfl, hapart.locked hacquire hbase⟩

/-- Writing to a path apart from the lock leaves the lock to its holder. -/
theorem Holding.written {content : Bytes} {x : Location}
    (h : Holding owner root path serial d l before)
    (hwritten : Written path x content before after) :
    Holding owner root path serial d l after := by
  have hne : l ≠ x := by
    rintro rfl
    exact h.apart l (Or.inl h.stands.place_eq) (hwritten.mem_trail)
  constructor
  · constructor
    · exact (hwritten.place_taken h.stands.place_eq).1
    · rw [hwritten.changes.face?_eq l hne]
      exact h.stands.shows
  · exact (hwritten.place_taken h.directory).1
  · exact h.location_eq
  · exact h.apart.written hwritten

end RunLock

end ReleasePublisher
