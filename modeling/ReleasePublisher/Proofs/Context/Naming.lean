import ReleasePublisher.Proofs.Context.Listing
import ReleasePublisher.Proofs.FileSystem.Effects

/-!
Well named trees stay so. Whatever is done to the files, each name in a directory stands for one
entry, and only what has a name of its own is added.
-/
namespace ReleasePublisher

open ReleasePublisher.Path (IsFileName)

namespace Node

variable {root node : Node} {name : Bytes} {attributes attributes' : Attributes}
  {entries : List (Bytes × Node)} {location : Location} {change : Node → Node}

theorem WellNamed.at? (h : WellNamed root) (hat : root.at? location = some node) :
    WellNamed node := by
  intro rest found hfound
  refine h (location ++ rest) found ?_
  rw [at?_append, hat]
  exact hfound

theorem wellNamed_of_isDirectory_eq_false (h : node.isDirectory = false) : WellNamed node := by
  intro location found hfound
  cases location with
  | nil =>
    obtain rfl : node = found := by simpa using hfound
    cases node <;> simp_all [isDirectory, Node.entries]
  | cons name rest => exact absurd hfound (by simp [isBare_of_isDirectory_eq_false h name rest])

theorem wellNamed_directory_iff :
    WellNamed (.directory attributes entries) ↔
      (entries.map Prod.fst).Nodup ∧ ∀ entry ∈ entries, IsFileName entry.1 ∧ WellNamed entry.2 := by
  constructor
  · intro h
    obtain ⟨hnodup, hnames⟩ := h [] _ (at?_nil _)
    exact ⟨hnodup, fun entry hentry =>
      ⟨hnames entry hentry, h.child (child?_of_mem hentry hnodup)⟩⟩
  · rintro ⟨hnodup, hentries⟩ location found hfound
    cases location with
    | nil =>
      obtain rfl := Option.some.inj hfound
      exact ⟨hnodup, fun entry hentry => (hentries entry hentry).1⟩
    | cons name rest =>
      rw [Node.at?, Option.bind_eq_some_iff] at hfound
      obtain ⟨child, hchild, hfound⟩ := hfound
      exact (hentries _ (mem_of_child? hchild)).2 rest found hfound

theorem mem_putEntry {entry : Bytes × Node} (h : entry ∈ putEntry name node entries) :
    entry = (name, node) ∨ entry ∈ entries := by
  induction entries with
  | nil => exact Or.inl (by simpa [putEntry] using h)
  | cons first rest ih =>
    rw [putEntry] at h
    split at h
    · next hname => grind
    · grind

theorem nodup_putEntry (h : (entries.map Prod.fst).Nodup) :
    ((putEntry name node entries).map Prod.fst).Nodup := by
  induction entries with
  | nil => simp [putEntry]
  | cons first rest ih =>
    obtain ⟨n, old⟩ := first
    rw [List.map_cons, List.nodup_cons] at h
    rw [putEntry]
    split
    · exact List.nodup_cons.mpr h
    · next hne =>
      refine List.nodup_cons.mpr ⟨fun hmem => ?_, ih h.2⟩
      obtain ⟨entry, hentry, hn⟩ := List.mem_map.mp hmem
      rcases mem_putEntry hentry with rfl | hold
      · exact hne hn.symm
      · exact h.1 (List.mem_map.mpr ⟨entry, hold, hn⟩)

/-- A new entry with a proper name keeps a directory well named. -/
theorem WellNamed.putEntry (h : WellNamed (.directory attributes entries)) (hname : IsFileName name)
    (hnode : WellNamed node) :
    WellNamed (.directory attributes' (putEntry name node entries)) := by
  obtain ⟨hnodup, hentries⟩ := wellNamed_directory_iff.mp h
  refine wellNamed_directory_iff.mpr ⟨nodup_putEntry hnodup, fun entry hentry => ?_⟩
  rcases mem_putEntry hentry with rfl | hold
  · exact ⟨hname, hnode⟩
  · exact hentries entry hold

theorem WellNamed.addEntry (h : WellNamed root) (hname : IsFileName name) (hnode : WellNamed node)
    (time : Timestamp) : WellNamed (Node.addEntry time name node root) := by
  cases root with
  | directory attributes entries => exact h.putEntry hname hnode
  | _ => exact h

theorem WellNamed.dropEntry (h : WellNamed root) (time : Timestamp) (name : Bytes) :
    WellNamed (Node.dropEntry time name root) := by
  cases root with
  | directory attributes entries =>
    obtain ⟨hnodup, hentries⟩ := wellNamed_directory_iff.mp h
    have hsub : (eraseEntry name entries).Sublist entries := List.filter_sublist
    exact wellNamed_directory_iff.mpr
      ⟨hnodup.sublist (hsub.map _), fun entry hentry => hentries entry (hsub.subset hentry)⟩
  | _ => exact h

/-- A change at one place keeps a tree well named when it keeps what stands there so. -/
theorem WellNamed.modify (h : WellNamed root)
    (hchange : ∀ node, root.at? location = some node → WellNamed node → WellNamed (change node)) :
    WellNamed (root.modify change location) := by
  induction location generalizing root with
  | nil => exact hchange root (at?_nil root) h
  | cons name rest ih =>
    cases root with
    | directory attributes entries =>
      rw [Node.modify]
      cases hchild : child? name entries with
      | none => exact h
      | some child =>
        have hname := (h [] _ (at?_nil _)).2 _ (mem_of_child? hchild)
        refine h.putEntry hname (ih (h.child hchild) fun node hat => hchange node ?_)
        rw [Node.at?, hchild]
        exact hat
    | _ => exact h

end Node

namespace FileSystem

variable {fs fs' : FileSystem} {path : Path}

theorem wellNamed_add (h : fs.root.WellNamed) {name : Bytes} (hname : IsFileName name) {node : Node}
    (hnode : node.WellNamed) (directory : Location) :
    (fs.add directory name node).root.WellNamed :=
  h.modify fun _ _ hold => hold.addEntry hname hnode _

theorem wellNamed_replace (h : fs.root.WellNamed) {node : Node} (hnode : node.WellNamed)
    (location : Location) : (fs.replace location node).root.WellNamed :=
  h.modify fun _ _ _ => hnode

theorem wellNamed_erase (h : fs.root.WellNamed) (location : Location) :
    (fs.erase location).root.WellNamed := by
  rw [erase]
  split
  · exact h
  · exact h.modify fun _ _ hold => hold.dropEntry _ _

theorem wellNamed_removeFile (h : fs.root.WellNamed) (hremove : fs.removeFile path = .ok fs') :
    fs'.root.WellNamed := by
  obtain ⟨l, node, -, -, -, rfl⟩ := erase_of_removeFile hremove
  exact wellNamed_erase h l

theorem wellNamed_writeTo (h : fs.root.WellNamed) (handle : Handle) (content : Bytes) :
    (fs.writeTo handle content).root.WellNamed := by
  rw [writeTo]
  split
  · split
    · exact wellNamed_replace h (Node.wellNamed_of_isDirectory_eq_false rfl) _
    · exact h
  · exact h

/-- A file that is made as an entry of a directory has the name of the entry. -/
theorem wellNamed_createNew {name : Path} {handle : Handle} (h : fs.root.WellNamed)
    (hopen : path.IsOpen) (hname : name.IsEntry)
    (hcreate : fs.createNew (path / name) = .ok (fs', handle)) : fs'.root.WellNamed := by
  have hfree := (made_of_createNew hcreate).2.free
  rw [createNew] at hcreate
  split at hcreate
  · simp at hcreate
  · next directory piece hresolve =>
    obtain ⟨rfl, rfl⟩ := Prod.mk.inj (Except.ok.inj hcreate)
    obtain ⟨d, hd, -, -⟩ := place_of_place_div hopen hname (Or.inr hfree)
    obtain ⟨rfl, hpiece⟩ := List.append_inj' hd rfl
    obtain rfl : piece = name.text := by simpa using hpiece
    exact wellNamed_add h ⟨hname.isName.ne_nil, hname.isName.ne_dot, hname.isName.ne_dotDot,
      hname.slash_notMem⟩ (Node.wellNamed_of_isDirectory_eq_false rfl) _
  · simp at hcreate

end FileSystem

end ReleasePublisher
