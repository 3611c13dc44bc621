import ReleasePublisher.Proofs.FileSystem.Agreement

/-!
Changes of a tree one after the other. Two changes at one place are a single one, a change below a
place is one of the node at it, and an entry that is added, changed and taken away leaves nothing
but the time of its directory.
-/
namespace ReleasePublisher

namespace Node

variable {name : Bytes} {child node : Node} {entries : List (Bytes × Node)} {root : Node}
  {directory location : Location} {attributes : Attributes} {time : Timestamp}

theorem putEntry_putEntry (name : Bytes) (first second : Node) (entries : List (Bytes × Node)) :
    putEntry name second (putEntry name first entries) = putEntry name second entries := by
  induction entries with
  | nil => simp [putEntry]
  | cons e rest ih =>
    obtain ⟨n, old⟩ := e
    by_cases hn : n = name <;> simp [putEntry, hn, ih]

theorem eraseEntry_putEntry (name : Bytes) (node : Node) (entries : List (Bytes × Node)) :
    eraseEntry name (putEntry name node entries) = eraseEntry name entries := by
  induction entries with
  | nil => simp [putEntry, eraseEntry]
  | cons e rest ih =>
    obtain ⟨n, old⟩ := e
    rw [eraseEntry, eraseEntry] at ih
    by_cases hn : n = name <;> simp [putEntry, eraseEntry, hn, ih]

theorem eraseEntry_of_child? (h : child? name entries = none) :
    eraseEntry name entries = entries := by
  rw [child?, List.lookup_eq_none_iff] at h
  refine List.filter_eq_self.mpr fun e he => ?_
  simpa [bne, Bool.beq_comm] using h e he

theorem modify_congr {change change' : Node → Node} (hat : at? location root = some node)
    (h : change node = change' node) :
    modify change location root = modify change' location root := by
  induction location generalizing root with
  | nil => simp_all [modify]
  | cons name rest ih =>
    cases root with
    | directory attributes entries =>
      cases hchild : child? name entries with
      | none => simp [at?, hchild] at hat
      | some child =>
        simp only [modify, hchild]
        rw [ih (by simpa [at?, hchild] using hat)]
    | _ => simp [at?] at hat

theorem modify_modify (first second : Node → Node) (location : Location) (root : Node) :
    modify second location (modify first location root) =
      modify (second ∘ first) location root := by
  induction location generalizing root with
  | nil => rfl
  | cons name rest ih =>
    cases root with
    | directory attributes entries =>
      cases hchild : child? name entries with
      | none => simp [modify, hchild]
      | some child => simp [modify, hchild, child?_putEntry_self, putEntry_putEntry, ih]
    | _ => rfl

theorem modify_append (change : Node → Node) (location rest : Location) (root : Node) :
    modify change (location ++ rest) root = modify (modify change rest) location root := by
  induction location generalizing root with
  | nil => rfl
  | cons name location ih =>
    cases root with
    | directory attributes entries =>
      cases hchild : child? name entries <;> simp [modify, hchild, ih]
    | _ => rfl

/-- What happened to an entry before it is taken away does not count. -/
theorem modify_dropEntry_modify (time : Timestamp) (change : Node → Node) (directory : Location)
    (name : Bytes) (root : Node) :
    modify (dropEntry time name) directory (modify change (directory ++ [name]) root) =
      modify (dropEntry time name) directory root := by
  rw [modify_append, modify_modify]
  congr 1
  funext node
  cases node with
  | directory attributes entries =>
    cases hchild : child? name entries <;>
      simp [modify, dropEntry, hchild, eraseEntry_putEntry]
  | _ => rfl

/-- Taking away what has been added leaves the time of the directory. -/
theorem modify_dropEntry_addEntry (hat : at? directory root = some (.directory attributes entries))
    (hnone : child? name entries = none) (time : Timestamp) (new : Node) :
    modify (dropEntry time name) directory (modify (addEntry time name new) directory root) =
      modify (touch time) directory root := by
  rw [modify_modify]
  refine modify_congr hat ?_
  simp [addEntry, dropEntry, touch, eraseEntry_putEntry, eraseEntry_of_child? hnone]

def IsEmptyDirectory (node : Node) : Prop := ∃ attributes, node = .directory attributes []

end Node

namespace FileSystem

variable {fs : FileSystem} {directory l : Location} {name : Bytes}

theorem erase_concat (fs : FileSystem) (directory : Location) (name : Bytes) :
    fs.erase (directory ++ [name]) =
      { fs with
        root := fs.root.modify (Node.dropEntry fs.clock name) directory
        workingDirectory := fs.workingDirectory.without (directory ++ [name]) } := by
  simp [erase]

/-- The working directory is not in what is not there. -/
theorem without_of_free (hhere : fs.face? fs.workingDirectory.location ≠ none)
    (hfree : fs.face? l = none) : fs.workingDirectory.without l = fs.workingDirectory := by
  rw [WorkingDirectory.without, if_neg]
  intro hprefix
  obtain ⟨rest, hrest⟩ := List.isPrefixOf_iff_prefix.mp hprefix
  rw [face?_eq_none_iff] at hfree
  rw [Ne, face?_eq_none_iff, ← hrest, Node.at?_append, hfree] at hhere
  exact hhere rfl

theorem erase_replace (fs : FileSystem) (directory : Location) (name : Bytes) (node : Node) :
    (fs.replace (directory ++ [name]) node).erase (directory ++ [name]) =
      fs.erase (directory ++ [name]) := by
  rw [erase_concat, erase_concat, replace]
  simp only [Node.modify_dropEntry_modify]

/-- What was written to a file that is taken away does not count. -/
theorem erase_writeTo (fs : FileSystem) (directory : Location) (name : Bytes) (serial : Serial)
    (content : Bytes) :
    (fs.writeTo ⟨directory ++ [name], serial⟩ content).erase (directory ++ [name]) =
      fs.erase (directory ++ [name]) := by
  rw [writeTo]
  split
  · split
    · exact erase_replace fs directory name _
    · rfl
  · rfl

/-- Only the time at which a directory was last changed may be another. -/
def touch (fs : FileSystem) (directory : Location) : FileSystem :=
  { fs with root := fs.root.modify (Node.touch fs.clock) directory }

theorem erase_touch (fs : FileSystem) (directory : Location) (name : Bytes) :
    (fs.touch (directory ++ [name])).erase (directory ++ [name]) =
      fs.erase (directory ++ [name]) := by
  rw [erase_concat, erase_concat, touch]
  simp only [Node.modify_dropEntry_modify]

theorem at?_touch {attributes : Attributes} {entries : List (Bytes × Node)}
    (h : fs.root.at? directory = some (.directory attributes entries)) :
    (fs.touch directory).root.at? directory =
      some (.directory { attributes with modified := fs.clock } entries) := by
  rw [touch, Node.at?_modify_self, h]
  rfl

section Taken

variable {attributes : Attributes} {entries : List (Bytes × Node)}

/-- To add a node and to take it away again leaves another time on the directory. -/
theorem erase_add (hat : fs.root.at? directory = some (.directory attributes entries))
    (hnone : Node.child? name entries = none)
    (hhere : fs.face? fs.workingDirectory.location ≠ none) (node : Node) :
    (fs.add directory name node).erase (directory ++ [name]) = fs.touch directory := by
  have hfree : fs.face? (directory ++ [name]) = none := by
    rw [face?_eq_none_iff, Node.at?_concat hat, hnone]
  rw [erase_concat, add, touch]
  simp only [Node.modify_dropEntry_addEntry hat hnone, without_of_free hhere hfree]

/-- To add a file and to take it away again leaves a serial number used besides. -/
theorem erase_addFile (hat : fs.root.at? directory = some (.directory attributes entries))
    (hnone : Node.child? name entries = none)
    (hhere : fs.face? fs.workingDirectory.location ≠ none) (content : Bytes) :
    (fs.addFile directory name content).erase (directory ++ [name]) =
      { fs.touch directory with nextSerial := fs.nextSerial + 1 } := by
  have hfree : fs.face? (directory ++ [name]) = none := by
    rw [face?_eq_none_iff, Node.at?_concat hat, hnone]
  rw [erase_concat, addFile, add, touch]
  simp only [Node.modify_dropEntry_addEntry hat hnone, without_of_free hhere hfree]

end Taken

variable {node : Node}

/-- What was at a location is gone. All that may have changed beside it is the time at which the
directory above was last changed. -/
structure Gone (l : Location) (before after : FileSystem) : Prop where
  face?_eq : ∀ x, after.face? x = if x = l then none else before.face? x
  modifiedAt_eq : ∀ x, x ≠ l.dropLast → x ≠ l → after.modifiedAt x = before.modifiedAt x
  here_eq : after.workingDirectory = before.workingDirectory.without l
  clock_eq : after.clock = before.clock
  serial_eq : after.nextSerial = before.nextSerial

/-- What a path leads to is gone if it may go, and otherwise everything is as it was. -/
inductive RemovedIf (path : Path) (mayGo : Node → Prop) (before : FileSystem) : FileSystem → Prop
  | gone {l : Location} {node : Node} {after : FileSystem}
      (place_eq : before.place .keep path = .ok (.taken l)) (at?_eq : before.root.at? l = some node)
      (may : mayGo node) (step : Gone l before after) : RemovedIf path mayGo before after
  | kept (stays : ∀ l node, before.place .keep path = .ok (.taken l) →
      before.root.at? l = some node → ¬ mayGo node) : RemovedIf path mayGo before before

theorem modifiedAt_erase (hat : fs.root.at? (directory ++ [name]) = some node) (hbare : node.IsBare)
    {x : Location} (hx : x ≠ directory) (hx' : x ≠ directory ++ [name]) :
    (fs.erase (directory ++ [name])).modifiedAt x = fs.modifiedAt x := by
  rw [erase_concat, modifiedAt, modifiedAt]
  by_cases hdir : directory <+: x
  · obtain ⟨rest, rfl⟩ := hdir
    rw [Node.at?_modify_append, Node.at?_append]
    cases hold : fs.root.at? directory with
    | none => rfl
    | some old =>
      cases rest with
      | nil => simp at hx
      | cons n rest =>
        cases old with
        | directory attributes entries =>
          by_cases hn : n = name
          · subst n
            cases rest with
            | nil => simp at hx'
            | cons below rest =>
              have hchild : Node.child? name entries = some node := by
                rw [← Node.at?_concat hold, hat]
              simp [Node.dropEntry, Node.at?, Node.child?_eraseEntry_self, hchild,
                hbare below rest]
          · simp [Node.dropEntry, Node.at?, Node.child?_eraseEntry_of_ne hn]
        | _ => rfl
  · have hsame := Node.map_modify_of_not_prefix Node.modified? (fun _ _ _ => rfl)
      (Node.dropEntry fs.clock name) hdir fs.root
    generalize Node.at? x (Node.modify _ _ _) = first at hsame ⊢
    generalize Node.at? x fs.root = second at hsame ⊢
    cases first <;> cases second <;> simp_all

theorem gone_erase (hat : fs.root.at? (directory ++ [name]) = some node) (hbare : node.IsBare) :
    Gone (directory ++ [name]) fs (fs.erase (directory ++ [name])) := by
  constructor
  · intro x
    by_cases hx : x = directory ++ [name]
    · rw [if_pos hx, hx, face?_erase_self (by simp)]
    · rw [if_neg hx, (changesOnly_erase hat hbare).face?_eq x hx]
  · intro x hx hx'
    exact modifiedAt_erase hat hbare (by simpa using hx) hx'
  all_goals rw [erase_concat]

end FileSystem

end ReleasePublisher
