import ReleasePublisher.Proofs.Lock.Holding

/-!
What giving the lock back does to the files.
-/
namespace ReleasePublisher

namespace RunLock

open FileSystem

inductive Released (root : Path) (start : FileSystem) : List Moment → FileSystem → Prop
  | intro {first second : List Moment} {middle stop : FileSystem}
      (file : Attempt (·.removeFile (pathIn root)) start first middle)
      (directory : Attempt (·.removeDirectory (directoryIn root)) middle second stop) :
      Released root start (first ++ second) stop

/-- A lock is given back by two removals, each of which may fail. -/
theorem exists_discarded (lock : RunLock) (site : Site) :
    ∃ moments, (lock.discard site).history = site.history ++ moments ∧
      Released lock.root site.disk moments (lock.discard site).disk := by
  obtain ⟨first, hfirst, hfile⟩ := site.exists_attempt (·.removeFile (pathIn lock.root))
  obtain ⟨second, hsecond, hdirectory⟩ :=
    (site.attempt (·.removeFile (pathIn lock.root))).2.exists_attempt
      (·.removeDirectory (directoryIn lock.root))
  refine ⟨first ++ second, ?_, .intro hfile hdirectory⟩
  rw [← List.append_assoc, ← hfirst, ← hsecond]
  rfl

/-- Whether the lock can be given back or not, the same is tried. -/
theorem release_eq_discard (lock : RunLock) (site : Site) :
    (lock.release site).2 = lock.discard site := by
  rw [release, discard]
  cases h : site.disk.removeFile (pathIn lock.root) with
  | ok disk =>
    have hattempt := Site.attempt_of_ok (·.removeFile (pathIn lock.root)) h
    rw [hattempt]
  | error fault =>
    have hattempt := Site.attempt_of_error (·.removeFile (pathIn lock.root)) h
    rw [hattempt]
    cases fault with
    | system e => cases e <;> simp [discard, hattempt]
    | _ => simp [discard, hattempt]

theorem Released.exchangesIn_eq {root : Path} {start stop : FileSystem} {moments : List Moment}
    (h : Released root start moments stop) : exchangesIn moments = [] := by
  obtain ⟨hfile, hdirectory⟩ := h
  rw [exchangesIn_append, Attempt.exchangesIn_eq hfile, Attempt.exchangesIn_eq hdirectory]
  rfl

variable {owner : LockOwner} {root path : Path} {serial : Serial} {d l : Location}
  {fs ended final : FileSystem} {moments : List Moment}

/-- A path apart from the lock leads on to where it led when the lock file is gone. -/
theorem Apart.place_removed {middle : FileSystem} (h : Apart root path ended)
    (hremove : Attempt (·.removeFile (pathIn root)) ended moments middle)
    (hplace : ended.place .follow path = .ok (.taken l)) :
    middle.place .follow path = .ok (.taken l) ∧
      middle.trail .follow path = ended.trail .follow path ∧ middle.face? l = ended.face? l := by
  cases hremove with
  | failed step => exact ⟨hplace, rfl, rfl⟩
  | done step =>
    obtain ⟨x, node, hlock, hat, hnode, rfl⟩ := erase_of_removeFile step
    have hbare := Node.isBare_of_isDirectory_eq_false hnode
    have hbeside : x ∉ ended.trail .follow path := h x (Or.inl hlock)
    exact (changesOnly_erase hat hbare).keeps.place_taken hplace hbeside

theorem directory_of_removed {middle : FileSystem}
    (hremove : Attempt (·.removeFile (pathIn root)) ended moments middle)
    (hplace : middle.place .keep (directoryIn root) = .ok (.taken d)) :
    ended.place .keep (directoryIn root) = .ok (.taken d) := by
  cases hremove with
  | failed step => exact hplace
  | done step =>
    obtain ⟨x, node, hlock, hat, hnode, rfl⟩ := erase_of_removeFile step
    have hbare := Node.isBare_of_isDirectory_eq_false hnode
    have hhere : (directoryIn root).isAbsolute = false →
        ended.turns ended.workingDirectory.location = some .enter := by
      rw [isAbsolute_directoryIn]
      exact turns_here_of_lock hlock (by simp)
    rcases place_erase hat hbare .keep hhere with hsame | hvacant
    · exact hsame ▸ hplace
    · exact absurd hplace (hvacant d).1

structure Unlocked (root : Path) (d : Location) (attributes : Attributes)
    (others : List (Bytes × Node)) (fs : FileSystem) : Prop where
  directory : fs.place .keep (directoryIn root) = .ok (.taken d)
  entries : fs.root.at? d = some (.directory attributes others)
  gone : ∀ x, fs.place .keep (pathIn root) ≠ .ok (.taken x)
  here : root.isAbsolute = false → fs.turns fs.workingDirectory.location = some .enter

/-- The lock has been given back: its file is gone, and so is its directory unless something else is
in it. Nothing else has changed. -/
structure Vacated (root : Path) (ended final : FileSystem) : Prop where
  file_gone : ∀ l, final.place .keep (pathIn root) ≠ .ok (.taken l)
  directory_gone : ∀ d attributes, final.place .keep (directoryIn root) = .ok (.taken d) →
    final.root.at? d ≠ some (.directory attributes [])
  keeps : ∃ d, ended.place .keep (directoryIn root) = .ok (.taken d) ∧
    (∀ x, x ≠ d → x ≠ d ++ [fileName.text] → final.face? x = ended.face? x) ∧
    ∀ name, name ≠ fileName.text → ended.face? (d ++ [name]) ≠ none →
      final.face? d = ended.face? d

/-- A path that leads to a node leads to nothing when the node is gone. -/
theorem not_taken_of_erase {path : Path} {node : Node} (hl : l ≠ [])
    (hat : fs.root.at? l = some node) (hbare : node.IsBare)
    (hhere : path.isAbsolute = false → fs.turns fs.workingDirectory.location = some .enter)
    (hplace : ∀ x, fs.place .keep path = .ok (.taken x) → x = l) (x : Location) :
    (fs.erase l).place .keep path ≠ .ok (.taken x) := by
  intro htaken
  rcases place_erase hat hbare .keep hhere with hsame | hvacant
  · have hx : x = l := hplace x (hsame ▸ htaken)
    have hface := (mem_trail_of_taken htaken).2
    rw [hx] at hface
    exact hface (face?_erase_self hl)
  · exact (hvacant x).1 htaken

theorem Stands.unlocked (h : Stands owner root serial (d ++ [fileName.text]) ended)
    (hdirectory : ended.place .keep (directoryIn root) = .ok (.taken d)) {attributes : Attributes}
    {entries : List (Bytes × Node)}
    (hentries : ended.root.at? d = some (.directory attributes entries)) :
    ended.removeFile (pathIn root) = .ok (ended.erase (d ++ [fileName.text])) ∧
      ChangesOnly (d ++ [fileName.text]) ended (ended.erase (d ++ [fileName.text])) ∧
      Unlocked root d { attributes with modified := ended.clock }
        (Node.eraseEntry fileName.text entries) (ended.erase (d ++ [fileName.text])) := by
  obtain ⟨attributes', record, -, hface⟩ := h.shows
  obtain ⟨node, hat, hnode⟩ := face?_eq_some_iff.mp hface
  have hfile : node.isDirectory = false := by
    rw [Node.eq_file_of_face hnode]
    rfl
  have hbare := Node.isBare_of_isDirectory_eq_false hfile
  have hchanges := changesOnly_erase hat hbare
  have hhere : root.isAbsolute = false →
      ended.turns ended.workingDirectory.location = some .enter :=
    turns_here_of_lock h.place_eq (by simp)
  refine ⟨removeFile_of_file h.place_eq hface, hchanges, ?_⟩
  constructor
  · refine (hchanges.keeps.place_taken hdirectory ?_).1
    intro hmem
    exact h.notMem_trail (trail_keep_subset hmem)
  · exact at?_erase_parent hentries fileName.text
  · apply not_taken_of_erase (by simp) hat hbare
    · rw [isAbsolute_pathIn]
      exact hhere
    · intro x hx
      rw [h.place_eq] at hx
      simpa using hx.symm
  · intro hrelative
    exact (here_erase hat hfile (hhere hrelative)).2

/-- The directory of the lock goes when nothing is left in it. -/
theorem Unlocked.tidied {attributes : Attributes} {others : List (Bytes × Node)}
    (h : Unlocked root d attributes others fs)
    (htidy : Attempt (·.removeDirectory (directoryIn root)) fs moments final) :
    (∀ x, final.place .keep (pathIn root) ≠ .ok (.taken x)) ∧
      (∀ x attributes, final.place .keep (directoryIn root) = .ok (.taken x) →
        final.root.at? x ≠ some (.directory attributes [])) ∧
      (∀ x, x ≠ d → final.face? x = fs.face? x) ∧ (others ≠ [] → final = fs) := by
  have hremove := removeDirectory_of_place h.directory h.entries
  by_cases hempty : others = []
  · subst hempty
    have hat := h.entries
    have hbare := Node.isBare_directory_nil attributes
    have hd : d ≠ [] := by
      obtain ⟨front, rfl⟩ := exists_eq_concat_of_place isEntry_directoryName h.directory
      simp
    have hfinal : final = fs.erase d := by
      cases htidy with
      | done step => simpa [hremove] using step.symm
      | failed step => simp [hremove] at step
    subst hfinal
    refine ⟨?_, ?_, (changesOnly_erase hat hbare).face?_eq, by simp⟩
    · apply not_taken_of_erase hd hat hbare
      · rw [isAbsolute_pathIn]
        exact h.here
      · intro x hx
        exact absurd hx (h.gone x)
    · intro x attributes' hx
      refine absurd hx (not_taken_of_erase hd hat hbare ?_ ?_ x)
      · rw [isAbsolute_directoryIn]
        exact h.here
      · intro y hy
        rw [h.directory] at hy
        simpa using hy.symm
  · have hfinal : final = fs := by
      cases htidy with
      | done step => simp [hremove, hempty] at step
      | failed step => rfl
    subst hfinal
    refine ⟨h.gone, ?_, fun _ _ => rfl, fun _ => rfl⟩
    intro x attributes' hx hnil
    rw [h.directory] at hx
    cases hx
    rw [h.entries] at hnil
    simp [hempty] at hnil

/-- Whoever holds the lock can give it back. -/
theorem Holding.vacated (h : Holding owner root path serial d l ended)
    (hreleased : Released root ended moments final) : Vacated root ended final := by
  obtain @⟨first, second, middle, _, hfile, hdirectory⟩ := hreleased
  obtain ⟨attributes, entries, hentries⟩ := exists_directory_of_turns h.turns_eq
  obtain rfl := h.location_eq
  obtain ⟨hremove, hchanges, hunlocked⟩ := h.stands.unlocked h.directory hentries
  have hmiddle : middle = ended.erase (d ++ [fileName.text]) := by
    cases hfile with
    | done step => simpa [hremove] using step.symm
    | failed step => simp [hremove] at step
  subst hmiddle
  obtain ⟨hgone, htidy, hbeside, hkept⟩ := hunlocked.tidied hdirectory
  refine ⟨hgone, htidy, d, h.directory, ?_, ?_⟩
  · intro x hx hx'
    rw [hbeside x hx, hchanges.face?_eq x hx']
  · intro name hname hsome
    -- an entry that is not the lock file keeps the directory from being removed
    have hothers : Node.eraseEntry fileName.text entries ≠ [] := by
      intro hnil
      rw [Ne, face?_eq_none_iff, Node.at?_concat hentries,
        ← Node.child?_eraseEntry_of_ne hname entries, hnil] at hsome
      exact hsome rfl
    rw [hkept hothers, hchanges.face?_eq d (by simp)]

/-- Giving the lock back does not change what a file holds. -/
theorem Holding.read_back (h : Holding owner root path serial d l ended)
    (hbase : root.isAbsolute = true → path.isAbsolute = true)
    (hreleased : Released root ended moments final) {past rest : List Moment} {next : FileSystem}
    (hsplit : moments = past ++ .changed next :: rest) {content : Bytes}
    (hread : next.read path = .ok content) : (diskAfter ended past).read path = .ok content := by
  have hhere : path.isAbsolute = false →
      ended.turns ended.workingDirectory.location = some .enter := by
    intro hrelative
    apply turns_here_of_lock h.stands.place_eq (by simp)
    cases hroot : root.isAbsolute with
    | true => simp [hbase hroot] at hrelative
    | false => rfl
  obtain @⟨first, second, middle, _, hfile, hdirectory⟩ := hreleased
  rcases split_of_append hsplit with ⟨rest', hfirst, -⟩ | ⟨past', rfl, hsecond⟩
  · obtain ⟨rfl, hstep⟩ := hfile.step_eq hfirst
    obtain ⟨x, node, -, hat, hnode, rfl⟩ := erase_of_removeFile hstep
    exact read_of_erase hat (Node.isBare_of_isDirectory_eq_false hnode) hhere hread
  · obtain ⟨rfl, hstep⟩ := hdirectory.step_eq hsecond
    obtain ⟨x, attributes, -, hat, rfl⟩ := erase_of_removeDirectory hstep
    rw [List.append_nil, hfile.diskAfter_eq]
    refine read_of_erase hat (Node.isBare_directory_nil attributes) ?_ hread
    intro hrelative
    cases hfile with
    | failed step => exact hhere hrelative
    | done step =>
      obtain ⟨y, node, -, hat', hnode, rfl⟩ := erase_of_removeFile step
      exact (here_erase hat' hnode (hhere hrelative)).2

end RunLock

end ReleasePublisher
