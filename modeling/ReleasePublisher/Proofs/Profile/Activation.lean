import ReleasePublisher.Proofs.Publication.Course

/-!
What activating the debug profile does to the files: everything or nothing. Where a path leads to a
file or to where one can be made, it goes on leading there whatever becomes of that file or of
others, so that the content can always be written back.
-/
namespace ReleasePublisher

namespace FileSystem

def Holds (l : Location) (content : Bytes) (fs : FileSystem) : Prop :=
  ∃ serial attributes, fs.face? l = some (.file serial attributes content)

structure Altered (l : Location) (before after : FileSystem) : Prop where
  changes : ChangesOnly l before after
  here_eq : after.workingDirectory = before.workingDirectory
  file_before : before.face? l = none ∨ ∃ content, Holds l content before
  file_after : after.face? l = none ∨ ∃ content, Holds l content after

/-- A path leads to a regular file or to where one can be made. -/
inductive Aims (path : Path) (l : Location) (fs : FileSystem) : Prop
  | file {content : Bytes} (place_eq : fs.place .follow path = .ok (.taken l))
      (holds : Holds l content fs) : Aims path l fs
  | free (place_eq : fs.place .follow path = .ok (.free l)) : Aims path l fs

variable {path : Path} {l x : Location} {content : Bytes} {fs fs' before after : FileSystem}

theorem Holds.turns_eq (h : Holds l content fs) : fs.turns l = some .stop := by
  obtain ⟨serial, attributes, hface⟩ := h
  rw [turns_eq_map_face?, hface]
  rfl

theorem Holds.unique {other : Bytes} (h : Holds l content fs) (h' : Holds l other fs) :
    content = other := by
  obtain ⟨serial, attributes, hface⟩ := h
  obtain ⟨serial', attributes', hface'⟩ := h'
  rw [hface] at hface'
  simp at hface'
  exact hface'.2.2

/-- A file that is written, made or taken away does not change what another one holds. -/
theorem Holds.altered (h : Holds l content before) (haltered : Altered x before after)
    (hne : l ≠ x) : Holds l content after := by
  rw [Holds, haltered.changes.face?_eq l hne]
  exact h

theorem altered_of_written (h : Written path l content before after) : Altered l before after := by
  have hafter : after.face? l = none ∨ ∃ content, Holds l content after := Or.inr ⟨content, h.shows⟩
  cases h with
  | refilled _ step =>
    obtain ⟨serial, attributes, -, old, hbefore, -⟩ := step.shows
    exact ⟨step.changes, step.here_eq, Or.inr ⟨old, serial, attributes, hbefore⟩, hafter⟩
  | made _ _ step =>
    exact ⟨step.changes, step.here_eq, Or.inl (mem_trail_of_free step.free).2, hafter⟩

theorem altered_of_removeFile
    (henter : before.turns before.workingDirectory.location = some .enter)
    (hplace : before.place .keep path = .ok (.taken l)) (hholds : Holds l content before)
    (h : before.removeFile path = .ok after) : Altered l before after := by
  obtain ⟨x, node, hplace', hat, hnode, rfl⟩ := erase_of_removeFile h
  obtain rfl : l = x := by simpa [hplace] using hplace'
  refine ⟨changesOnly_erase hat (Node.isBare_of_isDirectory_eq_false hnode),
    (here_erase hat hnode henter).1, Or.inr ⟨content, hholds⟩, ?_⟩
  by_cases hroot : l = []
  · subst hroot
    exact Or.inr ⟨content, hholds⟩
  · exact Or.inl (face?_erase_self hroot)

/-- The working directory stays a directory. -/
theorem Altered.turns_here (h : Altered l before after)
    (henter : before.turns before.workingDirectory.location = some .enter) :
    after.turns after.workingDirectory.location = some .enter := by
  have hne : before.workingDirectory.location ≠ l := by
    intro heq
    rw [heq] at henter
    rcases h.file_before with hnone | ⟨content, hholds⟩
    · rw [turns_eq_none_iff.mpr hnone] at henter
      simp at henter
    · rw [hholds.turns_eq] at henter
      simp at henter
  rw [h.here_eq, turns_eq_of_face?_eq (h.changes.face?_eq _ hne), henter]

namespace Aims

/-- Files and gaps on the way of a path are where it ends. -/
theorem eq_of_mem_trail (h : Aims path l fs) (hx : x ∈ fs.trail .follow path)
    (hfile : fs.face? x = none ∨ ∃ content, Holds x content fs) : x = l := by
  obtain ⟨place, hplace, hl⟩ : ∃ place, fs.place .follow path = .ok place ∧
      (place = .taken l ∨ place = .free l) := by
    cases h with
    | file place_eq _ => exact ⟨_, place_eq, Or.inl rfl⟩
    | free place_eq => exact ⟨_, place_eq, Or.inr rfl⟩
  obtain ⟨start, pieces, -, hfollow, htrail⟩ :=
    follow_of_place hplace (by rcases hl with rfl | rfl <;> simp)
  rw [htrail] at hx
  have hend : place = .free x ∨ place = .taken x := by
    rcases hfile with hnone | ⟨content, hholds⟩
    · exact Or.inl (Turns.eq_free_of_mem_followTrail hfollow hx (turns_eq_none_iff.mpr hnone))
    · exact Or.inr (Turns.eq_taken_of_mem_followTrail hfollow hx hholds.turns_eq)
  rcases hl with rfl | rfl <;> simpa [eq_comm] using hend

/-- What becomes of a file does not change where the paths to files lead. -/
theorem altered (h : Aims path l before) (haltered : Altered x before after)
    (henter : before.turns before.workingDirectory.location = some .enter) :
    Aims path l after := by
  by_cases hx : x = l
  · subst hx
    -- the file may be there or not, before and after
    have hturns : ∀ y, before.turns x = after.turns x → after.turns y = before.turns y := by
      intro y hsame
      by_cases hy : y = x
      · rw [hy, hsame]
      · exact turns_eq_of_face?_eq (haltered.changes.face?_eq y hy)
    rcases haltered.file_after with hnone | ⟨content', hholds'⟩
    · refine .free ?_
      cases h with
      | file place_eq holds =>
        exact haltered.changes.place_emptied haltered.here_eq henter place_eq holds.turns_eq hnone
      | free place_eq =>
        have hsame : before.turns x = after.turns x := by
          rw [turns_eq_none_iff.mpr hnone, turns_eq_none_iff.mpr (mem_trail_of_free place_eq).2]
        rw [← place_eq]
        exact (place_congr (fun y _ => hturns y hsame) (Or.inr haltered.here_eq)).1
    · refine .file ?_ hholds'
      cases h with
      | file place_eq holds =>
        have hsame : before.turns x = after.turns x := by rw [holds.turns_eq, hholds'.turns_eq]
        rw [← place_eq]
        exact (place_congr (fun y _ => hturns y hsame) (Or.inr haltered.here_eq)).1
      | free place_eq =>
        obtain ⟨serial, attributes, hface⟩ := hholds'
        exact
          (haltered.changes.place_filled haltered.here_eq place_eq hface (by simp [Face.turn])).1
  · have hbeside : ∀ y ∈ before.trail .follow path, after.turns y = before.turns y := by
      intro y hy
      refine turns_eq_of_face?_eq (haltered.changes.face?_eq y ?_)
      rintro rfl
      exact hx (h.eq_of_mem_trail hy haltered.file_before)
    obtain ⟨hplace, -⟩ := place_congr hbeside (Or.inr haltered.here_eq)
    cases h with
    | file place_eq holds =>
      exact .file (hplace.trans place_eq) (holds.altered haltered (Ne.symm hx))
    | free place_eq => exact .free (hplace.trans place_eq)

/-- Where a path leads to a file or to where one can be made, a file can be written. -/
theorem exists_write (h : Aims path l fs) (content : Bytes) :
    ∃ fs', fs.write path content = .ok fs' ∧ Written path l content fs fs' := by
  obtain ⟨fs', hwrite⟩ : ∃ fs', fs.write path content = .ok fs' := by
    cases h with
    | file place_eq holds =>
      obtain ⟨serial, attributes, hface⟩ := holds
      exact exists_write_of_file place_eq hface content
    | free place_eq =>
      obtain ⟨directory, name, -, -, -, hresolve, -, -⟩ := resolve_of_place_free place_eq
      rw [write, hresolve]
      exact ⟨_, rfl⟩
  obtain ⟨x, hwritten⟩ := written_of_write hwrite
  obtain rfl : x = l :=
    h.eq_of_mem_trail hwritten.mem_trail (altered_of_written hwritten).file_before
  exact ⟨fs', hwrite, hwritten⟩

end Aims

end FileSystem

namespace DebugProfile

open FileSystem

/-- What activating the profile comes to. Without a regular file at the end of the path nothing
changes; else the guard has its content, and the directive stands behind it and nothing else has
changed. -/
inductive Activation (path : Path) (before : FileSystem) :
    Except PublishError ProfileGuard → FileSystem → Prop
  | refused {fault : FileFault} (noFile : ∀ l content,
      before.place .follow path = .ok (.taken l) → ¬ Holds l content before) :
      Activation path before (.error (.configFile path fault)) before
  | activated {l : Location} {serial : Serial} {attributes : Attributes} {saved : Bytes}
      {after : FileSystem} (place_eq : before.place .follow path = .ok (.taken l))
      (shows_before : before.face? l = some (.file serial attributes saved))
      (shows_after : after.face? l =
        some (.file serial { attributes with modified := before.clock } (saved ++ directive)))
      (others : ∀ x, x ≠ l → after.face? x = before.face? x)
      (here_eq : after.workingDirectory = before.workingDirectory)
      (clock_eq : after.clock = before.clock) (serial_eq : after.nextSerial = before.nextSerial) :
      Activation path before (.ok ⟨path, saved⟩) after

theorem activation_of_append {path : Path} {saved : Bytes} {before after : FileSystem}
    (hread : before.read path = .ok saved) (happend : before.append path directive = .ok after) :
    Activation path before (.ok ⟨path, saved⟩) after := by
  obtain ⟨l, serial, attributes, old, hplace, hface⟩ := exists_file_of_append happend
  have hsaved := read_eq_ok_iff.mpr ⟨l, _, hplace, hface, rfl⟩
  rw [hread, Except.ok.injEq] at hsaved
  subst hsaved
  obtain ⟨node, hat, hnode⟩ := face?_eq_some_iff.mp hface
  rw [Node.eq_file_of_face hnode] at hat
  have hafter : before.replace l
      (.file serial { attributes with modified := before.clock } (saved ++ directive)) = after := by
    simpa [append, resolve_eq_present_iff.mpr ⟨hplace, hat⟩, writeAt] using happend
  subst hafter
  exact .activated hplace hface (face?_replace_self hat _)
    (refilled_replace hat _ _).changes.face?_eq rfl rfl rfl

/-- Activation succeeds as a whole or changes nothing. -/
theorem activation_activate (path : Path) (site : Site) :
    Activation path site.disk (activate path site).1 (activate path site).2.disk := by
  rcases activate_cases path site with ⟨saved, on, after, henabled, hactivate, rfl, -⟩ |
    ⟨fault, after, hfault, hactivate, hdisk, -⟩
  · rw [hactivate]
    exact activation_of_append henabled.1 henabled.2
  · rw [hactivate, hdisk]
    refine .refused fun l content hplace hholds => ?_
    obtain ⟨serial, attributes, hface⟩ := hholds
    rcases hfault with hread | happend
    · rw [read_eq_ok_iff.mpr ⟨l, _, hplace, hface, rfl⟩] at hread
      simp at hread
    · obtain ⟨on, hon, -⟩ := append_of_file hplace hface directive
      rw [happend] at hon
      simp at hon

end DebugProfile

end ReleasePublisher
