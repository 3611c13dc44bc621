import ReleasePublisher.Proofs.Context.Naming
import ReleasePublisher.Proofs.FileSystem.Agreement
import ReleasePublisher.Proofs.FileSystem.Children
import ReleasePublisher.Proofs.Lock.Separation

/-!
What stands around the lock of a project. Before the lock is taken at most its directory is made, in
the directory of the project; the trees stay well named, and no path leads to where it is taken that
does not lead there as the path of the lock does.
-/
namespace ReleasePublisher

namespace RunLock

open FileSystem

variable {owner : LockOwner} {root path : Path} {fs : FileSystem} {l x : Location}

def IsPlace (root : Path) (fs : FileSystem) (x : Location) : Prop :=
  fs.place .keep (pathIn root) = .ok (.taken x) ∨ fs.place .keep (pathIn root) = .ok (.free x)

/-- There is one place for the lock. -/
theorem LockPlace.eq_of_isPlace {entered : FileSystem} {y : Location}
    (h : LockPlace root entered y) (hx : IsPlace root entered x) : x = y := by
  rcases hx with hx | hx <;> rcases h.place_eq with hy | hy <;> simp_all

theorem makeDirectory_directoryIn (root : Path) (fs : FileSystem) :
    fs.makeDirectory (directoryIn root) =
      match fs.resolve .keep (directoryIn root) with
      | .error e => .error e
      | .ok (.absent directory name) =>
        .ok (fs.add directory name (.directory ⟨newDirectoryMode, fs.clock⟩ []))
      | .ok _ => .error (.system .alreadyExists) := by
  have hpath := Path.withoutEndSlashes_of_isOpen (isOpen_directoryIn root)
  rw [makeDirectory]
  generalize (directoryIn root).withoutEndSlashes = path at hpath ⊢
  subst hpath
  rfl

theorem pathFault?_directoryIn_ne (root : Path) :
    pathFault? (directoryIn root) ≠ some (.system .notFound) := by
  rw [pathFault?, if_neg (isOpen_directoryIn root).ne_nil]
  split
  · simp
  · split <;> simp

/-- In a directory at most the directory of the lock is made. -/
theorem entered_cases (hroot : fs.place .follow root = .ok (.taken l))
    (henter : fs.turns l = some .enter) :
    entered root fs = fs ∨
      fs.resolve .keep (directoryIn root) = .ok (.absent l (Bytes.ofString directoryName)) ∧
        entered root fs = fs.add l (Bytes.ofString directoryName)
          (.directory ⟨newDirectoryMode, fs.clock⟩ []) := by
  obtain ⟨above, habove⟩ := (directoryIn root).exists_ancestors_eq_cons
  have hne := (isOpen_directoryIn root).ne_nil
  have hmake := makeDirectory_directoryIn root fs
  rw [entered, ensureDirectories, habove]
  cases hfault : pathFault? (directoryIn root) with
  | some fault =>
    rw [resolve_eq, hfault] at hmake
    have hother : fault ≠ .system .notFound := fun heq =>
      pathFault?_directoryIn_ne root (heq ▸ hfault)
    exact Or.inl (by rw [ensureChain_of_fault hne hmake hother])
  | none =>
    have hplace := place_child isEntry_directoryName hroot henter hfault
    split at hplace
    · obtain ⟨directory, name, attributes, entries, hl, hresolve, -, -⟩ :=
        resolve_of_place_free hplace
      obtain ⟨rfl, hname⟩ := List.append_inj' hl rfl
      obtain rfl : (Path.ofString directoryName).text = name := by simpa using hname
      have hresolve' : fs.resolve .keep (directoryIn root) = _ := hresolve
      rw [hresolve'] at hmake
      exact Or.inr ⟨hresolve, by rw [ensureChain_of_made hne hmake]; rfl⟩
    · obtain ⟨node, hresolve⟩ := exists_resolve_of_place hplace
      have hresolve' : fs.resolve .keep (directoryIn root) = _ := hresolve
      rw [hresolve'] at hmake
      exact Or.inl (by rw [ensureChain_of_fault hne hmake (by simp)])

theorem wellNamed_entered (hroot : fs.place .follow root = .ok (.taken l))
    (henter : fs.turns l = some .enter) (h : fs.root.WellNamed) :
    (entered root fs).root.WellNamed := by
  rcases entered_cases hroot henter with heq | ⟨-, heq⟩
  · rw [heq]
    exact h
  · rw [heq]
    refine wellNamed_add h isEntry_directoryName.isFileName ?_ l
    exact Node.wellNamed_directory_iff.mpr ⟨List.nodup_nil, by simp⟩

/-- Nothing beside the directory of the lock is new. -/
theorem face?_entered (hroot : fs.place .follow root = .ok (.taken l))
    (henter : fs.turns l = some .enter) (hx : x ≠ l ++ [Bytes.ofString directoryName]) :
    (entered root fs).face? x = fs.face? x := by
  rcases entered_cases hroot henter with heq | ⟨hresolve, heq⟩
  · rw [heq]
  · rw [heq]
    exact (made_add hresolve (Node.isBare_directory_nil _)).changes.face?_eq x hx

/-- Where the lock is taken is known before its directory is made, unless that is missing. -/
theorem IsPlace.of_entered (hroot : fs.place .follow root = .ok (.taken l))
    (henter : fs.turns l = some .enter) (hx : IsPlace root (entered root fs) x) :
    IsPlace root fs x ∨ fs.face? (l ++ [Bytes.ofString directoryName]) = none ∧
      x = l ++ [Bytes.ofString directoryName] ++ [fileName.text] := by
  rcases entered_cases hroot henter with heq | ⟨hresolve, heq⟩
  · exact Or.inl (heq ▸ hx)
  · right
    have hmade := made_add hresolve (Node.isBare_directory_nil ⟨newDirectoryMode, fs.clock⟩)
    rw [← heq] at hmade
    have hkeep := (hmade.place_eq (by simp [Face.turn])).1
    have hturn : (entered root fs).turns (l ++ [Bytes.ofString directoryName]) = some .enter := by
      rw [turns_eq_map_face?, hmade.shows]
      rfl
    have hfollow := place_follow_of_keep hkeep (by simp [hturn])
    obtain ⟨d, rfl, hd, -⟩ :=
      place_of_place_div (isOpen_directoryIn root) isEntry_fileName hx
    rw [hfollow] at hd
    obtain rfl : l ++ [Bytes.ofString directoryName] = d := by simpa using hd
    exact ⟨(mem_trail_of_free hmade.free).2, rfl⟩

/-- A path that is apart from the lock stays so when the directory of the lock is made. -/
theorem Apart.entered (hroot : fs.place .follow root = .ok (.taken l))
    (henter : fs.turns l = some .enter) (h : Apart root path fs) {y : Location}
    (hplace : fs.place .follow path = .ok (.taken y)) : Apart root path (entered root fs) := by
  intro x hx hmem
  rw [((grows_entered root fs).place_taken hplace).2.1] at hmem
  rcases IsPlace.of_entered hroot henter hx with hbefore | ⟨hmissing, rfl⟩
  · exact h x hbefore hmem
  · refine face?_ne_none_of_mem_trail hplace hmem ?_
    rw [face?_eq_none_iff] at hmissing ⊢
    rw [Node.at?_append, hmissing]
    rfl

theorem Cleared.wellNamed {entered after : FileSystem} (h : Cleared root entered after)
    (hnamed : entered.root.WellNamed) : after.root.WellNamed := by
  cases h with
  | untouched => exact hnamed
  | evicted step => exact wellNamed_removeFile hnamed step

theorem Created.wellNamed {entered after : FileSystem} {handle : Handle}
    (h : Created root entered handle after) (hnamed : entered.root.WellNamed) :
    after.root.WellNamed := by
  obtain ⟨hcleared, hcreate⟩ := h
  exact wellNamed_createNew (hcleared.wellNamed hnamed) (isOpen_directoryIn root)
    isEntry_fileName hcreate

theorem Touched.wellNamed {entered after : FileSystem} (h : Touched owner root entered after)
    (hnamed : entered.root.WellNamed) : after.root.WellNamed := by
  cases h with
  | cleared hcleared => exact hcleared.wellNamed hnamed
  | created hcreated => exact hcreated.wellNamed hnamed
  | held hheld =>
    obtain ⟨hcreated, -⟩ := hheld
    exact wellNamed_writeTo (hcreated.wellNamed hnamed) _ _

section Locked

variable {site locked : Site} {lock : RunLock}

/-- The path of a project does not lead through its lock. -/
theorem apart_root (hacquire : acquire owner root site = (.ok lock, locked)) :
    Apart root root (RunLock.entered root site.disk) := by
  obtain ⟨-, -, ⟨x, hlock, hchanges, hstands⟩, -⟩ := acquire_ok hacquire
  intro y hy hmem
  obtain rfl : y = x := hlock.eq_of_isPlace hy
  obtain ⟨attributes, record, -, hface⟩ := hstands.shows
  have hstop : locked.disk.turns y = some .stop := by
    rw [turns_eq_map_face?, hface]
    rfl
  -- the lock would be passed on the way to its own directory
  have hpassed : y ∈ locked.disk.trail .follow (directoryIn root) := by
    refine trail_subset_div _ root isEntry_directoryName ?_
    refine Classical.byContradiction fun hbeside => ?_
    have hback : (RunLock.entered root site.disk).trail .follow root =
        locked.disk.trail .follow root := by
      refine (place_congr (fun z hz => ?_) ((here_locked hlock hchanges).imp_right Eq.symm)).2
      exact (turns_eq_of_face?_eq (hchanges.face?_eq z fun heq => hbeside (heq ▸ hz))).symm
    exact hbeside (hback ▸ hmem)
  obtain ⟨d, hd, hdirectory, -⟩ :=
    place_of_place_div (isOpen_directoryIn root) isEntry_fileName (Or.inl hstands.place_eq)
  have heq := eq_of_mem_trail_of_stop hdirectory hpassed hstop
  simp [heq] at hd

end Locked

end RunLock

end ReleasePublisher
