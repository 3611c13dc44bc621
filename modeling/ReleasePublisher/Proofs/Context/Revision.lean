import ReleasePublisher.Proofs.Context.Entries
import ReleasePublisher.Proofs.FileSystem.Agreement

/-!
Contexts of which one shows what the other does, apart from the contents of some files. They are
listed alike, since a listing goes by the names, by what kind of node each of them stands for and by
the ignore files; and the entry of each place follows the content of its own file. The directory of
the lock, the ages of the nodes and all that is outside have no part in it.
-/
namespace ReleasePublisher

def Node.look : Node → Face
  | .file _ attributes content => .file 0 ⟨attributes.mode, .epoch⟩ content
  | .directory attributes _ => .directory attributes.mode
  | .link target => .link target
  | .special kind attributes => .special kind ⟨attributes.mode, .epoch⟩

def Face.plain : Face → Face
  | .file _ attributes content => .file 0 ⟨attributes.mode, .epoch⟩ content
  | .special kind attributes => .special kind ⟨attributes.mode, .epoch⟩
  | face => face

theorem Node.plain_face (node : Node) : node.face.plain = node.look := by
  cases node <;> rfl

def Face.revise (change : Bytes → Bytes) : Face → Face
  | .file serial attributes content => .file serial attributes (change content)
  | face => face

def ArchiveEntry.revise (change : Bytes → Bytes) : ArchiveEntry → ArchiveEntry
  | ⟨path, mode, .file content⟩ => ⟨path, mode, .file (change content)⟩
  | entry => entry

@[simp] theorem Face.revise_id (face : Face) : face.revise id = face := by
  cases face <;> rfl

@[simp] theorem ArchiveEntry.revise_id (entry : ArchiveEntry) : entry.revise id = entry := by
  obtain ⟨path, mode, kind⟩ := entry
  cases kind <;> rfl

namespace BuildContext

/-- A place that is kept back together with the lock. -/
def Hidden (place : Location) : Prop :=
  place.head? = some (Bytes.ofString RunLock.directoryName)

/-- Two trees show the same outside the directory of the lock, except that the second one has the
contents of the first one revised. The ignore files are among what stays, and none is a link. -/
structure Revised (revise : Location → Bytes → Bytes) (root root' : Node) : Prop where
  look_eq : ∀ place, place ≠ [] → ¬ Hidden place →
    (root'.at? place).map Node.look = (root.at? place).map (Face.revise (revise place) ∘ Node.look)
  rules_eq : ∀ place, revise (place ++ [ignoreFile.text]) = id
  link_ne : ∀ place target, ¬ Hidden place →
    root.at? (place ++ [ignoreFile.text]) ≠ some (.link target)

section Looks

variable {node node' : Node} {change : Bytes → Bytes}

inductive Shows (change : Bytes → Bytes) : Node → Node → Prop
  | file {serial serial' : Serial} {attributes attributes' : Attributes} {content : Bytes}
      (mode_eq : attributes'.mode = attributes.mode) :
      Shows change (.file serial attributes content) (.file serial' attributes' (change content))
  | directory {attributes attributes' : Attributes} {entries entries' : List (Bytes × Node)}
      (mode_eq : attributes'.mode = attributes.mode) :
      Shows change (.directory attributes entries) (.directory attributes' entries')
  | link (target : Bytes) : Shows change (.link target) (.link target)
  | special {kind : SpecialKind} {attributes attributes' : Attributes}
      (mode_eq : attributes'.mode = attributes.mode) :
      Shows change (.special kind attributes) (.special kind attributes')

theorem shows_of_look (h : node'.look = node.look.revise change) : Shows change node node' := by
  cases node <;> cases node' <;> simp only [Node.look, Face.revise] at h <;> try cases h
  case file.file =>
    simp only [Face.file.injEq, true_and, Attributes.mk.injEq, and_true] at h
    rw [h.2]
    exact .file h.1
  case directory.directory => exact .directory (Face.directory.inj h)
  case link.link.refl => exact .link _
  case special.special =>
    simp only [Face.special.injEq, Attributes.mk.injEq, and_true] at h
    rw [h.1]
    exact .special h.2

theorem isDirectory_eq_of_look (h : node'.look = node.look.revise change) :
    node'.isDirectory = node.isDirectory := by
  cases shows_of_look h <;> rfl

theorem map_revise_enter {kind kind' : EntryKind} {mode : Nat}
    (h : ∀ text, ArchiveEntry.revise change ⟨text, mode, kind⟩ = ⟨text, mode, kind'⟩)
    (path : Path) :
    (entryOf.enter path mode kind).map (ArchiveEntry.revise change) =
      entryOf.enter path mode kind' := by
  rw [entryOf.enter, entryOf.enter]
  split
  · exact congrArg Except.ok (h _)
  · rfl

/-- The entry of a node goes by its look. -/
theorem entryOf_of_look (h : node'.look = node.look.revise change) (path : Path)
    (names : List Bytes) :
    entryOf path names node' = (entryOf path names node).map (ArchiveEntry.revise change) := by
  cases shows_of_look h with
  | file hmode =>
    simp only [entryOf, hmode]
    exact (map_revise_enter (fun _ => rfl) _).symm
  | directory hmode =>
    simp only [entryOf, hmode]
    exact (map_revise_enter (fun _ => rfl) _).symm
  | link target => exact (map_revise_enter (fun _ => rfl) _).symm
  | @special kind _ _ hmode =>
    cases kind with
    | pipe =>
      simp only [entryOf, hmode]
      exact (map_revise_enter (fun _ => rfl) _).symm
    | socket => rfl

end Looks

theorem child?_entries (name : Bytes) (place : Location) (root : Node) :
    Node.child? name ((root.at? place).elim [] Node.entries) = root.at? (place ++ [name]) := by
  rw [Node.at?_append]
  cases root.at? place with
  | none => rfl
  | some node =>
    cases node with
    | directory attributes entries =>
      show Node.child? name entries = (Node.child? name entries).bind (Node.at? [])
      cases Node.child? name entries <;> simp
    | _ => rfl

/-- Two contexts are compared by what shows in the file systems that they are in. -/
theorem revised_of_face? {revise : Location → Bytes → Bytes} {fs fs' : FileSystem} {l : Location}
    {root root' : Node} (hat : fs.root.at? l = some root) (hat' : fs'.root.at? l = some root')
    (hface : ∀ place, place ≠ [] → ¬ Hidden place →
      (fs'.face? (l ++ place)).map Face.plain =
        (fs.face? (l ++ place)).map (Face.revise (revise place) ∘ Face.plain))
    (hrules : ∀ place, revise (place ++ [ignoreFile.text]) = id)
    (hlink : ∀ place target, ¬ Hidden place →
      root.at? (place ++ [ignoreFile.text]) ≠ some (.link target)) :
    Revised revise root root' where
  look_eq place hne hshown := by
    have hplain : Face.plain ∘ Node.face = Node.look := funext Node.plain_face
    have hlook := hface place hne hshown
    simp only [FileSystem.face?, Node.at?_append, hat, hat', Option.bind_some, Option.map_map,
      Function.comp_assoc, hplain] at hlook
    exact hlook
  rules_eq := hrules
  link_ne := hlink

namespace Revised

variable {revise : Location → Bytes → Bytes} {root root' : Node} {fs fs' : FileSystem}
  {context : Path} {place : Location}

/-- What a place shows, when it is not kept back. -/
theorem look_at (h : Revised revise root root') (hne : place ≠ []) (hshown : ¬ Hidden place)
    {node : Node} (hat : root.at? place = some node) :
    ∃ node', root'.at? place = some node' ∧ node'.look = node.look.revise (revise place) := by
  have hlook := h.look_eq place hne hshown
  rw [hat, Option.map_some] at hlook
  exact Option.map_eq_some_iff.mp hlook

theorem at?_eq_none_iff (h : Revised revise root root') (hne : place ≠ [])
    (hshown : ¬ Hidden place) : root'.at? place = none ↔ root.at? place = none := by
  have hlook := h.look_eq place hne hshown
  cases hat : root.at? place <;> cases hat' : root'.at? place <;> simp_all

theorem any_isDirectory_eq (h : Revised revise root root') (hne : place ≠ [])
    (hshown : ¬ Hidden place) :
    (root'.at? place).any Node.isDirectory = (root.at? place).any Node.isDirectory := by
  cases hat : root.at? place with
  | none => rw [(h.at?_eq_none_iff hne hshown).mpr hat]
  | some node =>
    obtain ⟨node', hat', hlook⟩ := h.look_at hne hshown hat
    rw [hat', Option.any_some, Option.any_some, isDirectory_eq_of_look hlook]

/-- The ignore file of a directory that is not hidden is not hidden either. -/
theorem not_hidden_concat (hshown : ¬ Hidden place) : ¬ Hidden (place ++ [ignoreFile.text]) := by
  cases place with
  | nil =>
    show some ignoreFile.text ≠ some (Bytes.ofString RunLock.directoryName)
    decide +kernel
  | cons name rest => simpa [Hidden] using hshown

/-- The ignore files are the same, and they are read where they stand. -/
theorem scopeAt_eq (h : Revised revise root root') (hshown : ¬ Hidden place) :
    scopeAt fs' context root' place = scopeAt fs context root place := by
  have hignore := not_hidden_concat hshown
  have hcontent : ignoreContent? fs' (pathAt context place)
        ((root'.at? place).elim [] Node.entries) =
      ignoreContent? fs (pathAt context place) ((root.at? place).elim [] Node.entries) := by
    rw [ignoreContent?, ignoreContent?, child?_entries, child?_entries]
    cases hat : root.at? (place ++ [ignoreFile.text]) with
    | none => rw [(h.at?_eq_none_iff (by simp) hignore).mpr hat]
    | some node =>
      obtain ⟨node', hat', hlook⟩ := h.look_at (by simp) hignore hat
      rw [h.rules_eq] at hlook
      rw [hat']
      cases shows_of_look hlook with
      | file => rfl
      | link target => exact absurd hat (h.link_ne place target hshown)
      | _ => rfl
  rw [scopeAt, scopeAt, rulesIn, rulesIn, hcontent]

theorem hidden_take {depth : Nat} (h : Hidden (place.take depth)) : Hidden place := by
  cases place with
  | nil => simp [Hidden] at h
  | cons name rest =>
    cases depth with
    | zero => simp [Hidden] at h
    | succ depth => simpa [Hidden] using h

/-- Revising contents does not change what the rules exclude, since the ignore files stay. -/
theorem excluded_iff (h : Revised revise root root') (hne : place ≠ [])
    (hshown : ¬ Hidden place) :
    Excluded fs' context root' place ↔ Excluded fs context root place := by
  have hscopes : scopesAround fs' context root' place = scopesAround fs context root place :=
    List.map_congr_left fun depth _ => h.scopeAt_eq fun hhidden => hshown (hidden_take hhidden)
  rw [Excluded, Excluded, hscopes, h.any_isDirectory_eq hne hshown]

/-- What is left out of one tree is left out of the revised one. -/
theorem leftOut_iff (h : Revised revise root root') :
    LeftOut fs' context root' place ↔ LeftOut fs context root place := by
  refine or_congr_right' fun hshown => exists_congr fun front => and_congr_right fun hfront =>
    and_congr_right fun hne => h.excluded_iff hne fun hhidden => hshown ?_
  obtain ⟨rest, rfl⟩ := hfront
  cases front with
  | nil => exact absurd rfl hne
  | cons name front => simpa [Hidden] using hhidden

/-- Two contexts that show the same are listed alike. -/
theorem isListing (h : Revised revise root root') {places : List Location}
    (hlisting : IsListing fs context root places) : IsListing fs' context root' places where
  sorted := hlisting.sorted
  mem_iff place := by
    rw [hlisting.mem_iff]
    refine and_congr_right fun hne => (and_congr_left fun hleft => ?_).trans
      (and_congr_right' (not_congr h.leftOut_iff.symm))
    have hshown : ¬ Hidden place := fun hhidden => hleft (Or.inl hhidden)
    exact not_congr (h.at?_eq_none_iff hne hshown).symm

end Revised

section Entries

variable {revise : Location → Bytes → Bytes} {root root' : Node} {context dockerfile : Path}
  {places : List Location}

theorem mapM_eq_map_zipWith {ε α β : Type} {f g : α → Except ε β} {amend : α → β → β} {xs : List α}
    (h : ∀ x ∈ xs, g x = (f x).map (amend x)) :
    xs.mapM g = (xs.mapM f).map (List.zipWith amend xs) := by
  induction xs with
  | nil => rfl
  | cons x xs ih =>
    obtain ⟨hx, hxs⟩ := List.forall_mem_cons.mp h
    rw [List.mapM_cons, List.mapM_cons, hx, ih hxs]
    cases f x with
    | error e => rfl
    | ok y => cases xs.mapM f <;> rfl

def reviseAll (revise : Location → Bytes → Bytes) (places : List Location)
    (listed : List ArchiveEntry) : List ArchiveEntry :=
  List.zipWith (fun place entry => entry.revise (revise place)) places listed

theorem reviseAll_cons (place : Location) (entry : ArchiveEntry) (listed : List ArchiveEntry) :
    reviseAll revise (place :: places) (entry :: listed) =
      entry.revise (revise place) :: reviseAll revise places listed := rfl

/-- Nothing changes where no content is revised. -/
theorem reviseAll_eq_self {listed : List ArchiveEntry} (hlength : places.length = listed.length)
    (h : ∀ place ∈ places, revise place = id) : reviseAll revise places listed = listed := by
  induction places generalizing listed with
  | nil =>
    obtain rfl := List.length_eq_zero_iff.mp hlength.symm
    rfl
  | cons place places ih =>
    obtain ⟨hplace, hplaces⟩ := List.forall_mem_cons.mp h
    cases listed with
    | nil => simp at hlength
    | cons entry listed =>
      rw [reviseAll_cons, hplace, ArchiveEntry.revise_id, ih (by simpa using hlength) hplaces]

/-- The entry of a place has the content of its own file revised and is the same otherwise. -/
theorem entry_foundAt (h : Revised revise root root') {place : Location} (hne : place ≠ [])
    (hshown : ¬ Hidden place) :
    (foundAt context root' place).entry =
      (foundAt context root place).entry.map (ArchiveEntry.revise (revise place)) := by
  cases hat : root.at? place with
  | none => simp [foundAt, hat, (h.at?_eq_none_iff hne hshown).mpr hat, Except.map]
  | some node =>
    obtain ⟨node', hat', hlook⟩ := h.look_at hne hshown hat
    rw [foundAt_eq hat, foundAt_eq hat']
    exact entryOf_of_look hlook _ _

variable {fs fs' : FileSystem}

/-- The entries of a listing are revised place by place. -/
theorem entriesOf_revised (h : Revised revise root root')
    (hlisting : IsListing fs context root places) :
    entriesOf (places.map (foundAt context root')) =
      (entriesOf (places.map (foundAt context root))).map (reviseAll revise places) := by
  rw [entriesOf, entriesOf, List.mapM_map, List.mapM_map]
  refine mapM_eq_map_zipWith fun place hplace => ?_
  obtain ⟨hne, -, hleft⟩ := (hlisting.mem_iff place).mp hplace
  exact entry_foundAt h hne fun hhidden => hleft (Or.inl hhidden)

/-- Whether the Dockerfile is found on the walk does not depend on contents. -/
theorem holds_revised (h : Revised revise root root')
    (hlisting : IsListing fs context root places) (dockerfile : Path) :
    holds dockerfile (places.map (foundAt context root')) =
      holds dockerfile (places.map (foundAt context root)) := by
  have hdirectory : ∀ place ∈ places,
      (root'.at? place).any Node.isDirectory = (root.at? place).any Node.isDirectory := by
    intro place hplace
    obtain ⟨hne, -, hleft⟩ := (hlisting.mem_iff place).mp hplace
    exact h.any_isDirectory_eq hne fun hhidden => hleft (Or.inl hhidden)
  rw [holds, holds, List.any_map, List.any_map, Bool.eq_iff_iff, List.any_eq_true, List.any_eq_true]
  refine exists_congr fun place => and_congr_right fun hplace => ?_
  simp only [Function.comp_apply, foundAt, hdirectory place hplace]

/-- Two archives that hold the same, with revised contents. The Dockerfile comes last unless it was
found on the walk. -/
inductive SentAlike (revise : Location → Bytes → Bytes) (fs : FileSystem)
    (context dockerfile : Path) (root : Node) (content content' : Bytes) :
    BuildContext → BuildContext → Prop
  | intro {places : List Location} {listed : List ArchiveEntry} {held : Bool} (name : String)
      (path : Bytes) (isListing : IsListing fs context root places)
      (entered : List.Forall₂ (Entered context root) places listed)
      (held_eq : holds dockerfile (places.map (foundAt context root)) = held) :
      SentAlike revise fs context dockerfile root content content'
        ⟨name, listed ++ if held then [] else [⟨path, ArchiveEntry.memoryMode, .file content⟩]⟩
        ⟨name, reviseAll revise places listed ++
          if held then [] else [⟨path, ArchiveEntry.memoryMode, .file content'⟩]⟩

/-- The last step, in which the Dockerfile is added unless it was found. -/
theorem finish_alike {listed : List ArchiveEntry} (hlisting : IsListing fs context root places)
    (hentered : List.Forall₂ (Entered context root) places listed) (name : String)
    (content content' : Bytes) {held : Bool}
    (hheld : holds dockerfile (places.map (foundAt context root)) = held) :
    GoAlike (SentAlike revise fs context dockerfile root content content')
      (if held then .ok ⟨name, listed⟩
        else (dockerfileEntry name content).map fun entry => ⟨name, listed ++ [entry]⟩)
      (if held then .ok ⟨name, reviseAll revise places listed⟩
        else (dockerfileEntry name content').map fun entry =>
          ⟨name, reviseAll revise places listed ++ [entry]⟩) := by
  have halike : ∀ path, SentAlike revise fs context dockerfile root content content' _ _ :=
    fun path => .intro name path hlisting hentered hheld
  cases held with
  | true =>
    simp only [if_true, List.append_nil] at halike ⊢
    exact .done (halike [])
  | false =>
    rw [dockerfileEntry, dockerfileEntry, ArchiveEntry.ofMemory, ArchiveEntry.ofMemory]
    cases ArchiveEntry.fieldText (.ofString name) with
    | error fault => exact .failed _
    | ok path =>
      simp only [Except.map, Bool.false_eq_true, if_false] at halike ⊢
      exact .done (halike path)

/-- Two contexts that show the same are sent alike. -/
theorem create_alike {content content' : Bytes} (h : Revised revise root root')
    (hfind : fs.find? context = some root) (hfind' : fs'.find? context = some root')
    (hdirectory : root.isDirectory = true) (hdirectory' : root'.isDirectory = true)
    (hnamed : root.WellNamed) (hnamed' : root'.WellNamed)
    (hread : fs.read dockerfile = .ok content) (hread' : fs'.read dockerfile = .ok content') :
    GoAlike (SentAlike revise fs context dockerfile root content content')
      (create fs (some context) dockerfile) (create fs' (some context) dockerfile) := by
  cases root with
  | directory attributes entries =>
    cases root' with
    | directory attributes' entries' =>
      obtain ⟨places, hlisting, hfound⟩ := exists_isListing fs context rfl hnamed
      obtain ⟨places', hlisting', hfound'⟩ := exists_isListing fs' context rfl hnamed'
      obtain rfl := hlisting'.unique (h.isListing hlisting)
      simp only [create, hread, hread', ofDirectory, hfind, hfind', hfound, hfound',
        entriesOf_revised h hlisting, holds_revised h hlisting]
      split
      · exact .failed _
      · next relative hbelow =>
        have hplaces : ∀ place ∈ places',
            place ≠ [] ∧ (Node.directory attributes entries).at? place ≠ none := fun place hplace =>
          ((hlisting.mem_iff place).mp hplace).imp_right And.left
        generalize hlisted : entriesOf (places'.map _) = listed
        cases listed with
        | error fault => exact .failed _
        | ok listed =>
          have hentered := forall₂_entered hnamed hplaces hlisted
          exact finish_alike hlisting hentered (slashed relative.display) content content' rfl
    | _ => simp [Node.isDirectory] at hdirectory'
  | _ => simp [Node.isDirectory] at hdirectory

end Entries

end BuildContext

end ReleasePublisher
