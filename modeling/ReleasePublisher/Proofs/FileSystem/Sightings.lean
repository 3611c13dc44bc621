import ReleasePublisher.Proofs.FileSystem.Agreement

/-!
What is seen at the end of a path: whether anything is there, and of what kind it is. A file system
in which nothing on the way of the path has changed shows the same there.
-/
namespace ReleasePublisher

namespace FileSystem

variable {fs fs' : FileSystem} {path : Path}

/-- The face of the node that a path leads to, read off the place. -/
theorem map_face_find? (fs : FileSystem) (path : Path) :
    (fs.find? path).map Node.face =
      match fs.place .follow path with
      | .ok (.taken l) => fs.face? l
      | .ok (.removed _) => some (.directory newDirectoryMode)
      | _ => none := by
  cases hresolve : fs.resolve .follow path with
  | error fault => simp [find?, find, place, hresolve, Except.map, Except.toOption]
  | ok destination =>
    cases destination with
    | present l node =>
      obtain ⟨hplace, hat⟩ := resolve_eq_present_iff.mp hresolve
      simp [find?, find, hresolve, hplace, face?, hat, Except.toOption]
    | absent directory name =>
      simp [find?, find, place, hresolve, Except.map, Destination.place, Except.toOption]
    | removed here =>
      simp [find?, find, place, hresolve, Except.map, Destination.place, Except.toOption,
        emptyDirectory]

/-- A path leads to nodes with the same face in two file systems, or to none in both. -/
def SeenAlike (fs fs' : FileSystem) (path : Path) : Prop :=
  (fs'.find? path).map Node.face = (fs.find? path).map Node.face

/-- A path looks alike in two file systems if everything on its trail does. -/
theorem seenAlike_of_trail (hface : ∀ x ∈ fs.trail .follow path, fs'.face? x = fs.face? x)
    (hhere : fs'.workingDirectory = fs.workingDirectory) : SeenAlike fs fs' path := by
  obtain ⟨hplace, -⟩ :=
    place_congr (fun x hx => turns_eq_of_face?_eq (hface x hx)) (Or.inr hhere)
  rw [SeenAlike, map_face_find?, map_face_find?, hplace]
  cases hplace' : fs.place .follow path with
  | error fault => rfl
  | ok place =>
    cases place with
    | taken l => exact hface l (mem_trail_of_taken hplace').1
    | _ => rfl

namespace SeenAlike

theorem any_eq (h : SeenAlike fs fs' path) {kind : Node → Bool}
    (hkind : ∀ node node' : Node, node'.face = node.face → kind node' = kind node) :
    (fs'.find? path).any kind = (fs.find? path).any kind := by
  rw [SeenAlike] at h
  cases hnode : fs.find? path with
  | none => simp_all
  | some node =>
    rw [hnode, Option.map_some, Option.map_eq_some_iff] at h
    obtain ⟨node', hnode', hface⟩ := h
    rw [hnode', Option.any_some, Option.any_some, hkind node node' hface]

theorem isFile_eq (h : SeenAlike fs fs' path) : fs'.isFile path = fs.isFile path :=
  h.any_eq fun node node' hface => by
    cases node <;> cases node' <;> simp_all [Node.face, Node.isFile]

theorem isDirectory_eq (h : SeenAlike fs fs' path) : fs'.isDirectory path = fs.isDirectory path :=
  h.any_eq fun _ _ => Node.isDirectory_eq_of_face

theorem leads_eq (h : SeenAlike fs fs' path) : fs'.leads path = fs.leads path := by
  have hsome := congrArg Option.isSome h
  rwa [Option.isSome_map, Option.isSome_map] at hsome

end SeenAlike

end FileSystem

end ReleasePublisher
