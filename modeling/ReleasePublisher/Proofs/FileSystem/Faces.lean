import ReleasePublisher.FileSystem.Operations

/-!
What shows at the locations of a file system. The face of a node leaves out what a directory takes
from its entries, which have faces of their own, so that a file operation changes the face at a
single location and nowhere else. What paths lead to is read off the faces.
-/
namespace ReleasePublisher

inductive Face
  | file (serial : Serial) (attributes : Attributes) (content : Bytes)
  | directory (mode : Nat)
  | link (target : Bytes)
  | special (kind : SpecialKind) (attributes : Attributes)
  deriving DecidableEq, Repr

namespace Node

def face : Node → Face
  | .file serial attributes content => .file serial attributes content
  | .directory attributes _ => .directory attributes.mode
  | .link target => .link target
  | .special kind attributes => .special kind attributes

@[simp] theorem face_file (serial : Serial) (attributes : Attributes) (content : Bytes) :
    face (.file serial attributes content) = .file serial attributes content := rfl

@[simp] theorem face_directory (attributes : Attributes) (entries : List (Bytes × Node)) :
    face (.directory attributes entries) = .directory attributes.mode := rfl

theorem eq_file_of_face {node : Node} {serial : Serial} {attributes : Attributes}
    {content : Bytes} (h : node.face = .file serial attributes content) :
    node = .file serial attributes content := by
  cases node <;> simp_all [face]

theorem at?_append (first rest : Location) (node : Node) :
    at? (first ++ rest) node = (at? first node).bind (at? rest) := by
  induction first generalizing node with
  | nil => simp
  | cons name first ih =>
    cases node with
    | directory attributes entries =>
      simp only [List.cons_append, at?]
      cases child? name entries with
      | none => rfl
      | some child => simp [ih]
    | _ => rfl

theorem at?_concat {location : Location} {node : Node} {attributes : Attributes}
    {entries : List (Bytes × Node)} (h : at? location node = some (.directory attributes entries))
    (name : Bytes) : at? (location ++ [name]) node = child? name entries := by
  rw [at?_append, h]
  cases hchild : child? name entries <;> simp [at?, hchild]

theorem at?_modify_append (change : Node → Node) (location rest : Location) (node : Node) :
    at? (location ++ rest) (modify change location node) =
      (at? location node).bind fun old => at? rest (change old) := by
  rw [at?_append, at?_modify_self]
  cases at? location node <;> rfl

/-- Beside and above the place of a change, all that does not go by entries stays. -/
theorem map_modify_of_not_prefix {α : Type} (view : Node → α)
    (hview : ∀ attributes entries entries',
      view (.directory attributes entries) = view (.directory attributes entries'))
    (change : Node → Node) {location other : Location} (h : ¬ location <+: other) (node : Node) :
    (at? other (modify change location node)).map view = (at? other node).map view := by
  induction location generalizing other node with
  | nil => exact absurd List.nil_prefix h
  | cons name rest ih =>
    cases node with
    | directory attributes entries =>
      rw [modify]
      cases hchild : child? name entries with
      | none => rfl
      | some child =>
        cases other with
        | nil => simpa using hview attributes _ entries
        | cons n other =>
          by_cases hn : n = name
          · subst n
            have hrest : ¬ rest <+: other := fun hp => h (List.cons_prefix_cons.mpr ⟨rfl, hp⟩)
            simpa [at?, child?_putEntry_self, hchild] using ih hrest child
          · simp [at?, child?_putEntry_of_ne hn]
    | _ => rfl

theorem face_modify_of_not_prefix (change : Node → Node) {location other : Location}
    (h : ¬ location <+: other) (node : Node) :
    (at? other (modify change location node)).map face = (at? other node).map face :=
  map_modify_of_not_prefix face (fun _ _ _ => rfl) change h node

def IsBare (node : Node) : Prop := ∀ name rest, at? (name :: rest) node = none

theorem isBare_directory_nil (attributes : Attributes) : IsBare (.directory attributes []) :=
  fun _ _ => rfl

theorem isBare_of_isDirectory_eq_false {node : Node} (h : node.isDirectory = false) :
    IsBare node := by
  intro name rest
  cases node <;> simp_all [isDirectory, at?]

theorem exists_eq_directory {node : Node} (h : node.isDirectory = true) :
    ∃ attributes, node = .directory attributes node.entries := by
  cases node with
  | directory attributes entries => exact ⟨attributes, rfl⟩
  | _ => simp [isDirectory] at h

theorem child?_eraseEntry_self (name : Bytes) (entries : List (Bytes × Node)) :
    child? name (eraseEntry name entries) = none := by
  induction entries with
  | nil => rfl
  | cons e rest ih =>
    obtain ⟨n, old⟩ := e
    simp only [child?, eraseEntry] at ih
    by_cases h : n = name
    · simpa [eraseEntry, child?, h] using ih
    · have hne : (name == n) = false := by simpa using Ne.symm h
      simp [eraseEntry, child?, h, List.lookup_cons, hne, ih]

theorem child?_eraseEntry_of_ne {name other : Bytes} (h : other ≠ name)
    (entries : List (Bytes × Node)) :
    child? other (eraseEntry name entries) = child? other entries := by
  induction entries with
  | nil => rfl
  | cons e rest ih =>
    obtain ⟨n, old⟩ := e
    simp only [child?, eraseEntry] at ih
    by_cases hn : n = name
    · subst n
      have hne : (other == name) = false := by simpa using h
      simpa [eraseEntry, child?, List.lookup_cons, hne] using ih
    · by_cases ho : other = n
      · simp [eraseEntry, child?, hn, ho]
      · have hne : (other == n) = false := by simpa using ho
        simp [eraseEntry, child?, hn, List.lookup_cons, hne, ih]

end Node

namespace FileSystem

def face? (fs : FileSystem) (location : Location) : Option Face :=
  (fs.root.at? location).map Node.face

theorem face?_eq_some_iff {fs : FileSystem} {location : Location} {face : Face} :
    fs.face? location = some face ↔ ∃ node, fs.root.at? location = some node ∧ node.face = face := by
  simp [face?]

theorem face?_eq_none_iff {fs : FileSystem} {location : Location} :
    fs.face? location = none ↔ fs.root.at? location = none := by
  simp [face?]

theorem face?_below_bare {fs : FileSystem} {location : Location} {node : Node}
    (h : fs.root.at? location = some node) (hbare : node.IsBare) (name : Bytes)
    (rest : Location) : fs.face? (location ++ name :: rest) = none := by
  rw [face?_eq_none_iff, Node.at?_append, h]
  exact hbare name rest

/-- Only the face at one location may differ, and the working directory only goes away with it. -/
structure ChangesOnly (location : Location) (before after : FileSystem) : Prop where
  face?_eq : ∀ other, other ≠ location → after.face? other = before.face? other
  here_eq : location ≠ before.workingDirectory.location →
    before.face? before.workingDirectory.location ≠ none →
    after.workingDirectory = before.workingDirectory

structure Grows (before after : FileSystem) : Prop where
  face?_eq : ∀ location, before.face? location ≠ none →
    after.face? location = before.face? location
  here_eq : after.workingDirectory = before.workingDirectory

theorem ChangesOnly.trans {location : Location} {first second third : FileSystem}
    (h : ChangesOnly location first second) (h' : ChangesOnly location second third) :
    ChangesOnly location first third := by
  refine ⟨fun other hne => (h'.face?_eq other hne).trans (h.face?_eq other hne),
    fun hne hsome => ?_⟩
  have hhere := h.here_eq hne hsome
  have hface := h.face?_eq _ (Ne.symm hne)
  rw [h'.here_eq (by rwa [hhere]) (by rwa [hhere, hface]), hhere]

structure Keeps (location : Location) (before after : FileSystem) : Prop where
  face?_eq : ∀ other, other ≠ location → before.face? other ≠ none →
    after.face? other = before.face? other
  here_eq : location ≠ before.workingDirectory.location →
    before.face? before.workingDirectory.location ≠ none →
    after.workingDirectory = before.workingDirectory

theorem ChangesOnly.keeps {location : Location} {before after : FileSystem}
    (h : ChangesOnly location before after) : Keeps location before after :=
  ⟨fun other hne _ => h.face?_eq other hne, h.here_eq⟩

namespace Grows

theorem refl (fs : FileSystem) : Grows fs fs := ⟨fun _ _ => rfl, rfl⟩

theorem trans {first second third : FileSystem} (h : Grows first second)
    (h' : Grows second third) : Grows first third := by
  refine ⟨fun location hsome => ?_, h'.here_eq.trans h.here_eq⟩
  have heq := h.face?_eq location hsome
  rw [h'.face?_eq location (by rwa [heq]), heq]

end Grows

/-- What is put where nothing was only adds to what shows. -/
theorem ChangesOnly.grows {location : Location} {before after : FileSystem}
    (h : ChangesOnly location before after) (hnone : before.face? location = none)
    (here_eq : after.workingDirectory = before.workingDirectory) : Grows before after := by
  refine ⟨fun other hsome => h.face?_eq other ?_, here_eq⟩
  rintro rfl
  exact hsome hnone

/-- A node of its own shows where it is added, and all else stays. -/
theorem changesOnly_add {fs : FileSystem} {directory : Location} {name : Bytes} {node : Node}
    (hnone : fs.face? (directory ++ [name]) = none) (hbare : node.IsBare) :
    ChangesOnly (directory ++ [name]) fs (fs.add directory name node) := by
  refine ⟨fun other hne => ?_, fun _ _ => rfl⟩
  by_cases hdir : directory <+: other
  · obtain ⟨rest, rfl⟩ := hdir
    simp only [face?, add, Node.at?_modify_append]
    rw [Node.at?_append]
    cases hat : fs.root.at? directory with
    | none => rfl
    | some old =>
      cases old with
      | directory attributes entries =>
        cases rest with
        | nil => simp [Node.addEntry]
        | cons n rest =>
          by_cases hn : n = name
          · subst n
            cases rest with
            | nil => exact absurd rfl hne
            | cons below rest =>
              rw [face?_eq_none_iff, Node.at?_concat hat] at hnone
              simp [Node.addEntry, Node.at?, Node.child?_putEntry_self, hnone, hbare below rest]
          · simp [Node.addEntry, Node.at?, Node.child?_putEntry_of_ne hn]
      | _ => rfl
  · exact Node.face_modify_of_not_prefix _ hdir fs.root

theorem face?_add_self {fs : FileSystem} {directory : Location} {attributes : Attributes}
    {entries : List (Bytes × Node)}
    (h : fs.root.at? directory = some (.directory attributes entries)) (name : Bytes)
    (node : Node) : (fs.add directory name node).face? (directory ++ [name]) = some node.face := by
  simp [face?, add, Node.at?_modify_append, h, Node.addEntry, Node.at?,
    Node.child?_putEntry_self]

/-- To replace a node by another one without entries changes what shows there alone. -/
theorem changesOnly_replace {fs : FileSystem} {location : Location} {old new : Node}
    (h : fs.root.at? location = some old) (hold : old.IsBare) (hnew : new.IsBare) :
    ChangesOnly location fs (fs.replace location new) := by
  refine ⟨fun other hne => ?_, fun _ _ => rfl⟩
  by_cases hbelow : location <+: other
  · obtain ⟨rest, rfl⟩ := hbelow
    cases rest with
    | nil => simp at hne
    | cons name rest =>
      rw [face?_below_bare h hold]
      simp [face?, replace, Node.at?_modify_append, h, hnew name rest]
  · exact Node.face_modify_of_not_prefix _ hbelow fs.root

theorem face?_replace_self {fs : FileSystem} {location : Location} {old : Node}
    (h : fs.root.at? location = some old) (new : Node) :
    (fs.replace location new).face? location = some new.face := by
  simp [face?, replace, Node.at?_modify_self, h]

theorem changesOnly_erase {fs : FileSystem} {location : Location} {node : Node}
    (h : fs.root.at? location = some node) (hbare : node.IsBare) :
    ChangesOnly location fs (fs.erase location) := by
  cases hlast : location.getLast? with
  | none => exact ⟨fun _ _ => by rw [erase, hlast], fun _ _ => by rw [erase, hlast]⟩
  | some name =>
    have hloc : location = location.dropLast ++ [name] := by
      obtain ⟨front, rfl⟩ := List.getLast?_eq_some_iff.mp hlast
      simp
    refine ⟨fun other hne => ?_, fun hne hhere => ?_⟩
    · simp only [face?, erase, hlast]
      by_cases hdir : location.dropLast <+: other
      · obtain ⟨rest, rfl⟩ := hdir
        rw [Node.at?_modify_append, Node.at?_append]
        cases hat : fs.root.at? location.dropLast with
        | none => rfl
        | some old =>
          cases old with
          | directory attributes entries =>
            cases rest with
            | nil => simp [Node.dropEntry]
            | cons n rest =>
              by_cases hn : n = name
              · subst n
                cases rest with
                | nil => exact absurd hloc.symm hne
                | cons below rest =>
                  have hchild : Node.child? name entries = some node := by
                    rw [← Node.at?_concat hat, ← hloc, h]
                  simp [Node.dropEntry, Node.at?, Node.child?_eraseEntry_self, hchild,
                    hbare below rest]
              · simp [Node.dropEntry, Node.at?, Node.child?_eraseEntry_of_ne hn]
          | _ => rfl
      · exact Node.face_modify_of_not_prefix _ hdir fs.root
    · simp only [erase, hlast, WorkingDirectory.without]
      rw [if_neg]
      intro hbelow
      obtain ⟨rest, hrest⟩ := List.isPrefixOf_iff_prefix.mp hbelow
      cases rest with
      | nil => exact hne (by simpa using hrest)
      | cons n rest => exact hhere (hrest ▸ face?_below_bare h hbare n rest)

theorem face?_erase_self {fs : FileSystem} {location : Location} (h : location ≠ []) :
    (fs.erase location).face? location = none := by
  cases hlast : location.getLast? with
  | none => exact absurd (List.getLast?_eq_none_iff.mp hlast) h
  | some name =>
    have hloc : location = location.dropLast ++ [name] := by
      obtain ⟨front, rfl⟩ := List.getLast?_eq_some_iff.mp hlast
      simp
    simp only [face?, erase, hlast]
    conv => lhs; arg 2; arg 1; rw [hloc]
    rw [Node.at?_modify_append]
    cases hat : fs.root.at? location.dropLast with
    | none => rfl
    | some old =>
      cases old <;> simp [Node.dropEntry, Node.at?, Node.child?_eraseEntry_self]

end FileSystem

end ReleasePublisher
