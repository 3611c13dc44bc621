import ReleasePublisher.Proofs.FileSystem.Places

/-!
What paths lead to when a bare node is taken away. A path that does not pass it leads where it led;
any other leads nowhere. This holds as well for paths that start in the removed node itself, since a
removed working directory can only be left upwards.
-/
namespace ReleasePublisher

namespace FileSystem

open Turns

/-- A place that nothing is at, and that a new node can only take at `location`. -/
def Vacant (location : Location) (place : Except FileFault Place) : Prop :=
  ∀ l, place ≠ .ok (.taken l) ∧ (place = .ok (.free l) → l = location)

theorem vacant_error (location : Location) (fault : FileFault) :
    Vacant location (.error fault) := fun _ => ⟨by simp, by simp⟩

theorem vacant_removed (location : Location) (here : WorkingDirectory) :
    Vacant location (.ok (.removed here)) := fun _ => ⟨by simp, by simp⟩

theorem vacant_free (location : Location) : Vacant location (.ok (.free location)) :=
  fun _ => ⟨by simp, by rintro ⟨⟩; rfl⟩

/-- One level further down, a path has to lead up one time more. -/
theorem leaveRemoved_succ (levels : Nat) (pieces : List Bytes) :
    leaveRemoved (levels + 1) pieces =
      (leaveRemoved levels pieces).bind fun (left, rest) => leaveRemoved (left + 1) rest := by
  induction levels, pieces using leaveRemoved.induct with
  | case1 pieces => simp [leaveRemoved, Except.bind]
  | case2 levels => simp [leaveRemoved, Except.bind]
  | case3 levels piece rest hskip ih =>
    rw [leaveRemoved, if_pos hskip, leaveRemoved, if_pos hskip, ih]
  | case4 levels rest hskip ih =>
    rw [leaveRemoved, if_neg hskip, if_pos rfl, leaveRemoved, if_neg hskip, if_pos rfl, ih]
  | case5 levels piece rest hskip hup =>
    rw [leaveRemoved, if_neg hskip, if_neg hup, leaveRemoved, if_neg hskip, if_neg hup]
    rfl

theorem eq_nil_of_leaveRemoved {levels left : Nat} {pieces rest : List Bytes}
    (h : leaveRemoved levels pieces = .ok (left + 1, rest)) : rest = [] := by
  induction levels, pieces using leaveRemoved.induct with
  | case1 pieces => simp [leaveRemoved] at h
  | case2 levels => simp_all [leaveRemoved]
  | case3 levels piece tail hskip ih => exact ih (by simpa [leaveRemoved, hskip] using h)
  | case4 levels tail hskip ih => exact ih (by simpa [leaveRemoved, hskip] using h)
  | case5 levels piece tail hskip hup => simp [leaveRemoved, hskip, hup] at h

/-- Pieces that lead out of a directory that is gone lead out of it alike while it is there. -/
theorem route_of_leaveRemoved {turns : Turns} (last : LastLink) {here : Location}
    (hturn : turns here = some .enter) {pieces rest : List Bytes}
    (h : leaveRemoved 1 pieces = .ok (0, rest)) :
    route turns last here pieces = route turns last here.dropLast rest := by
  induction pieces with
  | nil => simp [leaveRemoved] at h
  | cons piece pieces ih =>
    rw [leaveRemoved] at h
    by_cases hskip : piece = [] ∨ piece = Path.dot
    · rw [if_pos hskip] at h
      simp only [route, hturn, if_pos hskip, ih h]
    · rw [if_neg hskip] at h
      by_cases hup : piece = Path.dotDot
      · simp only [if_pos hup, leaveRemoved, Except.ok.injEq, Prod.mk.injEq, true_and] at h
        simp only [route, hturn, if_neg hskip, if_pos hup, h]
      · simp [if_neg hup] at h

/-- What following comes to when a location is taken away. -/
theorem follow_same_or_vacant {turns turns' : Turns} (last : LastLink) (links : Nat)
    (here : Location) (pieces : List Bytes) {l : Location}
    (hoff : ∀ x, x ≠ l → turns' x = turns x) (hnone : turns' l = none) :
    follow turns' last links here pieces = follow turns last links here pieces ∨
      Vacant l ((follow turns' last links here pieces).mapError .system) := by
  by_cases hl : l ∈ followTrail turns last links here pieces
  · right
    rcases follow_of_missing last hl hoff hnone with ⟨e, h⟩ | h
    · rw [h]
      exact vacant_error l (.system e)
    · rw [h]
      exact vacant_free l
  · exact Or.inl (follow_congr last fun x hx => hoff x fun hxl => hl (hxl ▸ hx)).2

theorem placeFrom_same_or_vacant {turns turns' : Turns} (last : LastLink) {l : Location}
    (hoff : ∀ x, x ≠ l → turns' x = turns x) (hnone : turns' l = none)
    (start : Except SystemError (WorkingDirectory ⊕ Location × List Bytes)) :
    placeFrom turns' last start = placeFrom turns last start ∨
      Vacant l (placeFrom turns' last start) := by
  rcases start with e | here | ⟨start, pieces⟩
  · exact Or.inl rfl
  · exact Or.inl rfl
  · exact (follow_same_or_vacant last linkLimit start pieces hoff hnone).imp_left fun h => by
      rw [placeFrom, placeFrom, h]

theorem placeFrom_entry_without {turns turns' : Turns} (last : LastLink) {l : Location}
    (hoff : ∀ x, x ≠ l → turns' x = turns x) (hnone : turns' l = none)
    (henter : turns l = some .enter) {path : Path} (hrelative : path.isAbsolute = false)
    (levels : Nat) :
    placeFrom turns' last (entry ⟨l.dropLast, levels + 1⟩ path) =
        placeFrom turns last (entry ⟨l, levels⟩ path) ∨
      Vacant l (placeFrom turns' last (entry ⟨l.dropLast, levels + 1⟩ path)) := by
  rw [entry, entry, if_neg (by simp [hrelative]), if_neg (by simp [hrelative]),
    leaveRemoved_succ]
  rcases hleft : leaveRemoved levels (Bytes.split Bytes.slash path.text) with e | ⟨left, rest⟩
  · exact Or.inl rfl
  · simp only [Except.bind]
    cases hleave : leaveRemoved (left + 1) rest with
    | error e => exact Or.inr (vacant_error l _)
    | ok result =>
      obtain ⟨left', rest'⟩ := result
      cases left' with
      | succ left' => exact Or.inr (vacant_removed l _)
      | zero =>
        cases left with
        | succ left => simp [eq_nil_of_leaveRemoved hleft, leaveRemoved] at hleave
        | zero =>
          have hstep := route_of_leaveRemoved last henter hleave
          have hfollow : follow turns last linkLimit l rest =
              follow turns last linkLimit l.dropLast rest' := by
            rw [follow, follow, hstep]
          simp only [placeFrom, hfollow]
          exact (follow_same_or_vacant last linkLimit l.dropLast rest' hoff hnone).imp_left
            fun h => by rw [h]

/-- A path leads where it led or nowhere when a bare node is taken away. -/
theorem place_erase {fs : FileSystem} {location : Location} {node : Node}
    (hnode : fs.root.at? location = some node) (hbare : node.IsBare) (last : LastLink)
    {path : Path}
    (hhere : path.isAbsolute = false → fs.turns fs.workingDirectory.location = some .enter) :
    (fs.erase location).place last path = fs.place last path ∨
      Vacant location ((fs.erase location).place last path) := by
  cases hlast : location.getLast? with
  | none => exact Or.inl (by rw [erase, hlast])
  | some name =>
    have hne : location ≠ [] := by
      rintro rfl
      simp at hlast
    have honly := changesOnly_erase hnode hbare
    have hoff : ∀ x, x ≠ location → (fs.erase location).turns x = fs.turns x := fun x hx =>
      turns_eq_of_face?_eq (honly.face?_eq x hx)
    have hnone : (fs.erase location).turns location = none :=
      turns_eq_none_iff.mpr (face?_erase_self hne)
    rw [place_eq, place_eq]
    cases pathFault? path with
    | some fault => exact Or.inl rfl
    | none =>
      simp only
      -- only a relative path starts elsewhere, and only when its directory is the one removed
      have hsame : entry (fs.erase location).workingDirectory path =
            entry fs.workingDirectory path →
          placeFrom (fs.erase location).turns last
              (entry (fs.erase location).workingDirectory path) =
            placeFrom fs.turns last (entry fs.workingDirectory path) ∨
          Vacant location (placeFrom (fs.erase location).turns last
              (entry (fs.erase location).workingDirectory path)) := by
        intro hentry
        rw [hentry]
        exact placeFrom_same_or_vacant last hoff hnone _
      cases hrelative : path.isAbsolute with
      | true => exact hsame (entry_congr (Or.inl hrelative))
      | false =>
        have henter := hhere hrelative
        have hshows : fs.face? fs.workingDirectory.location ≠ none := by
          rw [Ne, ← turns_eq_none_iff, henter]
          simp
        by_cases hat : location = fs.workingDirectory.location
        · have hwithout : (fs.erase location).workingDirectory =
              ⟨location.dropLast, fs.workingDirectory.removed + 1⟩ := by
            simp [erase, hlast, WorkingDirectory.without, ← hat]
          have hhere' : fs.workingDirectory = ⟨location, fs.workingDirectory.removed⟩ := by
            rw [hat]
          rw [hwithout, hhere']
          exact placeFrom_entry_without last hoff hnone (hat ▸ henter) hrelative _
        · exact hsame (entry_congr (Or.inr (honly.here_eq hat hshows)))

/-- Where the working directory is does not change when a node is removed that is no directory. -/
theorem here_erase {fs : FileSystem} {location : Location} {node : Node}
    (hat : fs.root.at? location = some node) (hnode : node.isDirectory = false)
    (hhere : fs.turns fs.workingDirectory.location = some .enter) :
    (fs.erase location).workingDirectory = fs.workingDirectory ∧
      (fs.erase location).turns (fs.erase location).workingDirectory.location = some .enter := by
  have hchanges := changesOnly_erase hat (Node.isBare_of_isDirectory_eq_false hnode)
  have hne : location ≠ fs.workingDirectory.location := by
    intro heq
    rw [← heq, turns_eq_map_face?, face?_eq_some_iff.mpr ⟨node, hat, rfl⟩] at hhere
    cases node <;> simp_all [Node.face, Face.turn, Node.isDirectory]
  have hface : fs.face? fs.workingDirectory.location ≠ none := by
    intro hnone
    rw [turns_eq_none_iff.mpr hnone] at hhere
    simp at hhere
  have hsame := hchanges.here_eq hne hface
  refine ⟨hsame, ?_⟩
  rw [hsame, turns_eq_of_face?_eq (hchanges.face?_eq _ hne.symm)]
  exact hhere

end FileSystem

end ReleasePublisher
