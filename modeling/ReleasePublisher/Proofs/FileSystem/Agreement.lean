import ReleasePublisher.Proofs.FileSystem.Effects

/-!
Two file systems that show the same except at one location and below it. What is done by paths that
keep off that location is done alike in both, and they show the same outside it afterwards.
-/
namespace ReleasePublisher

inductive GoAlike {ε α β : Type} (related : α → β → Prop) : Except ε α → Except ε β → Prop
  | done {a : α} {b : β} (step : related a b) : GoAlike related (.ok a) (.ok b)
  | failed (e : ε) : GoAlike related (.error e) (.error e)

namespace GoAlike

variable {ε α β : Type} {related : α → β → Prop}

theorem of_ok {a : α} {y : Except ε β} (h : GoAlike related (.ok a) y) :
    ∃ b, y = .ok b ∧ related a b := by
  cases h with
  | done step => exact ⟨_, rfl, step⟩

theorem of_error {e : ε} {y : Except ε β} (h : GoAlike related (.error e) y) : y = .error e := by
  cases h
  rfl

end GoAlike

namespace Node

theorem eq_nil_iff_child? {entries : List (Bytes × Node)} :
    entries = [] ↔ ∀ name, child? name entries = none := by
  cases entries with
  | nil => simp [child?]
  | cons e rest =>
    refine ⟨by simp, fun h => ?_⟩
    simpa [child?] using h e.1

theorem at?_child {location : Location} {root node : Node} (h : at? location root = some node)
    (name : Bytes) : at? (location ++ [name]) root = child? name node.entries := by
  rw [at?_append, h]
  cases node <;> simp [at?, Node.entries, child?]

theorem isBare_of_entries_eq_nil {node : Node} (h : node.entries = []) : node.IsBare := by
  intro name rest
  cases node <;> simp_all [at?, Node.entries, child?]

theorem isDirectory_eq_of_face {node node' : Node} (h : node'.face = node.face) :
    node'.isDirectory = node.isDirectory := by
  cases node <;> cases node' <;> simp_all [face, isDirectory]

end Node

namespace FileSystem

theorem removeFile_of_present {fs : FileSystem} {path : Path} {l : Location} {node : Node}
    (h : fs.resolve .keep path = .ok (.present l node)) :
    fs.removeFile path =
      if node.isDirectory then .error (.system .isADirectory) else .ok (fs.erase l) := by
  rw [removeFile, h]
  cases node <;> rfl

theorem removeDirectory_of_present {fs : FileSystem} {path : Path} {l : Location} {node : Node}
    (h : fs.resolve .keep path = .ok (.present l node)) :
    fs.removeDirectory path =
      if node.isDirectory then
        if node.entries = [] then .ok (fs.erase l) else .error (.system .notEmpty)
      else .error (.system .notADirectory) := by
  rw [removeDirectory, h]
  cases node with
  | directory attributes entries => cases entries <;> rfl
  | _ => rfl

structure SameOff (c : Location) (fs fs' : FileSystem) : Prop where
  face?_eq : ∀ x, ¬ c <+: x → fs'.face? x = fs.face? x
  here_eq : fs'.workingDirectory = fs.workingDirectory
  clock_eq : fs'.clock = fs.clock
  serial_eq : fs'.nextSerial = fs.nextSerial

def Off (c : Location) (fs : FileSystem) (path : Path) : Prop :=
  ∀ x ∈ fs.trail .follow path, ¬ c <+: x

instance (c : Location) (fs : FileSystem) (path : Path) : Decidable (Off c fs path) :=
  inferInstanceAs (Decidable (∀ x ∈ fs.trail .follow path, ¬ c <+: x))

variable {c l : Location} {fs fs' after after' : FileSystem} {path : Path}

theorem Off.outside (h : Off c fs path) {last : LastLink} {x : Location}
    (hx : x ∈ fs.trail last path) : ¬ c <+: x := by
  cases last with
  | follow => exact h x hx
  | keep => exact h x (trail_keep_subset hx)

/-- A path that goes no further keeps off what it kept off. -/
theorem Off.within (h : Off c fs path) (hwithin : Turns.Within fs'.turns fs.turns)
    (hhere : path.isAbsolute = true ∨ fs'.workingDirectory = fs.workingDirectory) :
    Off c fs' path := by
  intro x hx
  refine h x ?_
  rw [trail, entry_congr hhere] at hx
  rw [trail]
  split at hx
  · exact hwithin.followTrail_subset .follow linkLimit _ _ hx
  · simp at hx

theorem Grows.within (h : Grows fs fs') : Turns.Within fs.turns fs'.turns := by
  intro x
  by_cases hx : fs.face? x = none
  · exact Or.inr (Or.inl (turns_eq_none_iff.mpr hx))
  · exact Or.inl (turns_eq_of_face?_eq (h.face?_eq x hx)).symm

theorem Off.of_grows (h : Off c fs' path) (hgrows : Grows fs fs') : Off c fs path :=
  h.within hgrows.within (Or.inr hgrows.here_eq.symm)

namespace SameOff

/-- The same change at the same location outside. -/
theorem changed (h : SameOff c fs fs') (hchanges : ChangesOnly l fs after)
    (hchanges' : ChangesOnly l fs' after') (hself : after'.face? l = after.face? l)
    (here_eq : after'.workingDirectory = after.workingDirectory)
    (clock_eq : after'.clock = after.clock) (serial_eq : after'.nextSerial = after.nextSerial) :
    SameOff c after after' := by
  refine ⟨fun x hx => ?_, here_eq, clock_eq, serial_eq⟩
  by_cases hxl : x = l
  · rw [hxl, hself]
  · rw [hchanges'.face?_eq x hxl, hchanges.face?_eq x hxl, h.face?_eq x hx]

/-- A path that avoids the location leads to the same place, along the same trail. -/
theorem place_eq (h : SameOff c fs fs') (hoff : Off c fs path) (last : LastLink) :
    fs'.place last path = fs.place last path ∧ fs'.trail last path = fs.trail last path :=
  place_congr (fun x hx => turns_eq_of_face?_eq (h.face?_eq x (hoff.outside hx)))
    (Or.inr h.here_eq)

theorem off (h : SameOff c fs fs') (hoff : Off c fs path) : Off c fs' path := by
  rw [Off, (h.place_eq hoff .follow).2]
  exact hoff

inductive SameDestination (c : Location) (fs fs' : FileSystem) :
    Destination → Destination → Prop
  | present {l : Location} {node node' : Node} (outside : ¬ c <+: l)
      (at?_eq : fs.root.at? l = some node) (at?_eq' : fs'.root.at? l = some node')
      (face_eq : node'.face = node.face) :
      SameDestination c fs fs' (.present l node) (.present l node')
  | absent {directory : Location} {name : Bytes} (outside : ¬ c <+: directory ++ [name]) :
      SameDestination c fs fs' (.absent directory name) (.absent directory name)
  | removed (here : WorkingDirectory) : SameDestination c fs fs' (.removed here) (.removed here)

/-- A path that avoids the location comes to like nodes, or fails for the same reason. -/
theorem resolve (h : SameOff c fs fs') (hoff : Off c fs path) (last : LastLink) :
    GoAlike (SameDestination c fs fs') (fs.resolve last path) (fs'.resolve last path) := by
  have hplace := (h.place_eq hoff last).1
  have hmap := hplace
  rw [place, place] at hmap
  cases hresolve : fs.resolve last path with
  | error e =>
    cases hresolve' : fs'.resolve last path with
    | error e' =>
      rw [hresolve, hresolve'] at hmap
      obtain rfl : e' = e := by simpa [Except.map] using hmap
      exact .failed e'
    | ok d' => simp [hresolve, hresolve', Except.map] at hmap
  | ok d =>
    cases hresolve' : fs'.resolve last path with
    | error e' => simp [hresolve, hresolve', Except.map] at hmap
    | ok d' =>
      rw [hresolve, hresolve'] at hmap
      have hsame : d'.place = d.place := by simpa [Except.map] using hmap
      refine .done ?_
      cases d with
      | present l node =>
        cases d' with
        | present l' node' =>
          obtain rfl : l' = l := by simpa [Destination.place] using hsame
          obtain ⟨htaken, hat⟩ := resolve_eq_present_iff.mp hresolve
          obtain ⟨-, hat'⟩ := resolve_eq_present_iff.mp hresolve'
          have houtside := hoff.outside (mem_trail_of_taken htaken).1
          have hface := h.face?_eq l' houtside
          refine .present houtside hat hat' ?_
          simpa [face?, hat, hat'] using hface
        | _ => simp [Destination.place] at hsame
      | absent directory name =>
        cases d' with
        | absent directory' name' =>
          have hconcat : directory' ++ [name'] = directory ++ [name] := by
            simpa [Destination.place] using hsame
          obtain ⟨rfl, hname⟩ := List.append_inj' hconcat rfl
          obtain rfl : name' = name := by simpa using hname
          have hfree : fs.place last path = .ok (.free (directory' ++ [name'])) := by
            rw [place, hresolve]
            rfl
          exact .absent (hoff.outside (mem_trail_of_free hfree).1)
        | _ => simp [Destination.place] at hsame
      | removed here =>
        cases d' with
        | removed here' =>
          obtain rfl : here' = here := by simpa [Destination.place] using hsame
          exact .removed here'
        | _ => simp [Destination.place] at hsame

theorem add (h : SameOff c fs fs') {last : LastLink} {directory : Location} {name : Bytes}
    {node : Node} (hbare : node.IsBare)
    (hresolve : fs.resolve last path = .ok (.absent directory name))
    (hresolve' : fs'.resolve last path = .ok (.absent directory name)) :
    SameOff c (fs.add directory name node) (fs'.add directory name node) := by
  have hmade := made_add hresolve hbare
  have hmade' := made_add hresolve' hbare
  exact h.changed hmade.changes hmade'.changes (hmade'.shows.trans hmade.shows.symm) h.here_eq
    h.clock_eq h.serial_eq

theorem addFile (h : SameOff c fs fs') {last : LastLink} {directory : Location} {name : Bytes}
    (content : Bytes) (hresolve : fs.resolve last path = .ok (.absent directory name))
    (hresolve' : fs'.resolve last path = .ok (.absent directory name)) :
    SameOff c (fs.addFile directory name content) (fs'.addFile directory name content) := by
  have hmade := made_addFile hresolve content
  have hmade' := made_addFile hresolve' content
  refine h.changed hmade.changes hmade'.changes ?_ h.here_eq h.clock_eq
    (congrArg (· + 1) h.serial_eq)
  rw [hmade.shows, hmade'.shows, h.serial_eq, h.clock_eq]

theorem erase (h : SameOff c fs fs') {node node' : Node} (hat : fs.root.at? l = some node)
    (hat' : fs'.root.at? l = some node') (hbare : node.IsBare) (hbare' : node'.IsBare) :
    SameOff c (fs.erase l) (fs'.erase l) := by
  by_cases hl : l = []
  · subst hl
    exact h
  · have hserial : ∀ fs : FileSystem, (fs.erase l).nextSerial = fs.nextSerial := by
      intro fs
      rw [FileSystem.erase]
      split <;> rfl
    refine h.changed (changesOnly_erase hat hbare) (changesOnly_erase hat' hbare') ?_ ?_ ?_ ?_
    · rw [face?_erase_self hl, face?_erase_self hl]
    · rw [FileSystem.erase, FileSystem.erase]
      split <;> simp only [h.here_eq]
    · rw [clock_erase, clock_erase, h.clock_eq]
    · rw [hserial, hserial, h.serial_eq]

theorem find (h : SameOff c fs fs') (hoff : Off c fs path) (last : LastLink) :
    GoAlike (fun node node' => node'.face = node.face) (fs.find last path)
      (fs'.find last path) := by
  have hboth := h.resolve hoff last
  rw [FileSystem.find, FileSystem.find]
  generalize fs.resolve last path = d at hboth ⊢
  generalize fs'.resolve last path = d' at hboth ⊢
  cases hboth with
  | failed e => exact .failed e
  | done step =>
    cases step with
    | present _ _ _ face_eq => exact .done face_eq
    | absent => exact .failed _
    | removed => exact .done rfl

theorem isDirectory_eq (h : SameOff c fs fs') (hoff : Off c fs path) :
    fs'.isDirectory path = fs.isDirectory path := by
  have hboth := h.find hoff .follow
  rw [FileSystem.isDirectory, FileSystem.isDirectory, find?, find?]
  generalize fs.find .follow path = d at hboth ⊢
  generalize fs'.find .follow path = d' at hboth ⊢
  cases hboth with
  | failed e => rfl
  | done step => exact Node.isDirectory_eq_of_face step

/-- What can be read off the location is the same. -/
theorem read_eq (h : SameOff c fs fs') (hoff : Off c fs path) :
    fs'.read path = fs.read path := by
  have hboth := h.find hoff .follow
  rw [FileSystem.read, FileSystem.read]
  generalize fs.find .follow path = d at hboth ⊢
  generalize fs'.find .follow path = d' at hboth ⊢
  cases hboth with
  | failed e => rfl
  | @done node node' step => cases node <;> cases node' <;> simp_all [Node.face, contentOf]

theorem createNew (h : SameOff c fs fs') (hoff : Off c fs path) :
    GoAlike (fun made made' => SameOff c made.1 made'.1 ∧ made'.2 = made.2) (fs.createNew path)
      (fs'.createNew path) := by
  have hboth := h.resolve hoff .keep
  rw [FileSystem.createNew, FileSystem.createNew]
  generalize hd : fs.resolve .keep path = d at hboth ⊢
  generalize hd' : fs'.resolve .keep path = d' at hboth ⊢
  cases hboth with
  | failed e => exact .failed e
  | done step =>
    cases step with
    | present => exact .failed _
    | removed => exact .failed _
    | absent => exact .done ⟨h.addFile [] hd hd', by rw [h.serial_eq]⟩

theorem writeTo (h : SameOff c fs fs') {handle : Handle} {attributes : Attributes} {old : Bytes}
    (houtside : ¬ c <+: handle.location)
    (hface : fs.face? handle.location = some (.file handle.serial attributes old))
    (content : Bytes) : SameOff c (fs.writeTo handle content) (fs'.writeTo handle content) := by
  have hface' := (h.face?_eq _ houtside).trans hface
  have hrefilled := refilled_writeTo hface content
  have hrefilled' := refilled_writeTo hface' content
  refine h.changed hrefilled.changes hrefilled'.changes ?_ ?_ ?_ ?_
  · rw [face?_writeTo hface, face?_writeTo hface', h.clock_eq]
  · rw [hrefilled.here_eq, hrefilled'.here_eq, h.here_eq]
  · rw [clock_writeTo, clock_writeTo, h.clock_eq]
  · rw [hrefilled.serial_eq, hrefilled'.serial_eq, h.serial_eq]

theorem removeFile (h : SameOff c fs fs') (hoff : Off c fs path) :
    GoAlike (SameOff c) (fs.removeFile path) (fs'.removeFile path) := by
  have hboth := h.resolve hoff .keep
  cases hd : fs.resolve .keep path with
  | error e =>
    rw [hd] at hboth
    rw [FileSystem.removeFile, FileSystem.removeFile, hd, hboth.of_error]
    exact .failed e
  | ok d =>
    rw [hd] at hboth
    obtain ⟨d', hd', hsame⟩ := hboth.of_ok
    cases hsame with
    | absent =>
      rw [FileSystem.removeFile, FileSystem.removeFile, hd, hd']
      exact .failed _
    | removed =>
      rw [FileSystem.removeFile, FileSystem.removeFile, hd, hd']
      exact .failed _
    | present houtside hat hat' hface =>
      have hkind := Node.isDirectory_eq_of_face hface
      rw [removeFile_of_present hd, removeFile_of_present hd', hkind]
      split
      · exact .failed _
      · next hfile =>
        rw [Bool.not_eq_true] at hfile
        exact .done (h.erase hat hat' (Node.isBare_of_isDirectory_eq_false hfile)
          (Node.isBare_of_isDirectory_eq_false (hkind.trans hfile)))

/-- What does not have the location below it has entries in both file systems or in neither. -/
theorem entries_eq_nil_iff (h : SameOff c fs fs') (houtside : ¬ c <+: l) (hbeside : ¬ l <+: c)
    {node node' : Node} (hat : fs.root.at? l = some node) (hat' : fs'.root.at? l = some node') :
    node'.entries = [] ↔ node.entries = [] := by
  rw [Node.eq_nil_iff_child?, Node.eq_nil_iff_child?]
  refine forall_congr' fun name => ?_
  have hname : ¬ c <+: l ++ [name] := by
    intro hprefix
    rcases List.prefix_concat_iff.mp hprefix with heq | hprefix
    · exact hbeside (heq ▸ List.prefix_append _ _)
    · exact houtside hprefix
  have hboth := h.face?_eq _ hname
  rw [← Node.at?_child hat, ← Node.at?_child hat', ← face?_eq_none_iff, ← face?_eq_none_iff, hboth]

/-- Removing a directory beside the location goes alike, as long as it does not hold the
location. -/
theorem removeDirectory (h : SameOff c fs fs') (hoff : Off c fs path)
    (hbeside : ∀ l, fs.place .keep path = .ok (.taken l) → ¬ l <+: c) :
    GoAlike (SameOff c) (fs.removeDirectory path) (fs'.removeDirectory path) := by
  have hboth := h.resolve hoff .keep
  cases hd : fs.resolve .keep path with
  | error e =>
    rw [hd] at hboth
    rw [FileSystem.removeDirectory, FileSystem.removeDirectory, hd, hboth.of_error]
    exact .failed e
  | ok d =>
    rw [hd] at hboth
    obtain ⟨d', hd', hsame⟩ := hboth.of_ok
    cases hsame with
    | absent =>
      rw [FileSystem.removeDirectory, FileSystem.removeDirectory, hd, hd']
      exact .failed _
    | removed =>
      rw [FileSystem.removeDirectory, FileSystem.removeDirectory, hd, hd']
      exact .failed _
    | present houtside hat hat' hface =>
      have hplace := (resolve_eq_present_iff.mp hd).1
      have hempty := h.entries_eq_nil_iff houtside (hbeside _ hplace) hat hat'
      rw [removeDirectory_of_present hd, removeDirectory_of_present hd',
        Node.isDirectory_eq_of_face hface]
      simp only [hempty]
      split
      · split
        · next hnil =>
          exact .done (h.erase hat hat' (Node.isBare_of_entries_eq_nil hnil)
            (Node.isBare_of_entries_eq_nil (hempty.mpr hnil)))
        · exact .failed _
      · exact .failed _

end SameOff

def modifiedAt (fs : FileSystem) (x : Location) : Option Timestamp :=
  (fs.root.at? x).bind Node.modified?

/-- The times of the last change are the same as well, except at and below the location and in the
directories above it. -/
structure DifferOnlyAt (c : Location) (fs fs' : FileSystem) : Prop extends SameOff c fs fs' where
  modifiedAt_eq : ∀ x, ¬ c <+: x → ¬ x <+: c → fs'.modifiedAt x = fs.modifiedAt x

/-- Whatever is put in the place of what is at a location, nothing else differs. -/
theorem differOnlyAt_replace (fs : FileSystem) (c : Location) (node : Node) :
    DifferOnlyAt c fs (fs.replace c node) := by
  refine ⟨⟨fun x hx => ?_, rfl, rfl, rfl⟩, fun x hx _ => ?_⟩
  · rw [face?, face?, replace]
    exact Node.face_modify_of_not_prefix _ hx fs.root
  · have hmap := Node.map_modify_of_not_prefix Node.modified? (fun _ _ _ => rfl) (fun _ => node) hx
      fs.root
    rw [modifiedAt, modifiedAt, replace]
    generalize Node.at? x (Node.modify _ _ _) = changed at hmap ⊢
    generalize Node.at? x fs.root = kept at hmap ⊢
    cases changed <;> cases kept <;> simp_all

/-- The time of the last change of what a path leads to, when the location is not below it. -/
theorem DifferOnlyAt.modified?_eq (h : DifferOnlyAt c fs fs') (hoff : Off c fs path)
    (hbeside : ∀ l, fs.place .follow path = .ok (.taken l) → ¬ l <+: c) :
    fs'.modified? path = fs.modified? path := by
  have hboth := h.resolve hoff .follow
  rw [modified?, modified?, find?, find?, FileSystem.find, FileSystem.find]
  generalize hd : fs.resolve .follow path = d at hboth ⊢
  generalize fs'.resolve .follow path = d' at hboth ⊢
  cases hboth with
  | failed e => rfl
  | done step =>
    cases step with
    | @present l node node' houtside hat hat' hface =>
      have hplace := (resolve_eq_present_iff.mp hd).1
      have htime := h.modifiedAt_eq l houtside (hbeside l hplace)
      rw [modifiedAt, modifiedAt, hat, hat'] at htime
      exact htime
    | absent => rfl
    | removed => simp [Except.toOption, emptyDirectory, Node.modified?, h.clock_eq]

/-- Adding an entry changes the time of the directory and of the new node alone. -/
theorem modifiedAt_add {directory : Location} {attributes : Attributes}
    {entries : List (Bytes × Node)}
    (hat : fs.root.at? directory = some (.directory attributes entries)) {name : Bytes}
    (hnone : Node.child? name entries = none) {node : Node} (hbare : node.IsBare) (x : Location) :
    (fs.add directory name node).modifiedAt x =
      if x = directory then some fs.clock
      else if x = directory ++ [name] then node.modified? else fs.modifiedAt x := by
  by_cases hdir : directory <+: x
  · obtain ⟨rest, rfl⟩ := hdir
    simp only [modifiedAt, FileSystem.add, Node.at?_modify_append, hat, Option.bind_some,
      Node.addEntry]
    rw [Node.at?_append, hat]
    cases rest with
    | nil => simp [Node.modified?]
    | cons n rest =>
      by_cases hn : n = name
      · subst n
        cases rest with
        | nil => simp [Node.at?, Node.child?_putEntry_self]
        | cons below rest =>
          simp [Node.at?, Node.child?_putEntry_self, hnone, hbare below rest]
      · simp [Node.at?, Node.child?_putEntry_of_ne hn, hn]
  · have hx : x ≠ directory := fun heq => hdir (heq ▸ List.prefix_refl _)
    have hx' : x ≠ directory ++ [name] := fun heq => hdir (heq ▸ List.prefix_append _ _)
    have hsame := Node.map_modify_of_not_prefix Node.modified? (fun _ _ _ => rfl)
      (Node.addEntry fs.clock name node) hdir fs.root
    rw [if_neg hx, if_neg hx', modifiedAt, modifiedAt, FileSystem.add]
    generalize Node.at? x (Node.modify _ _ _) = first at hsame ⊢
    generalize Node.at? x fs.root = second at hsame ⊢
    cases first <;> cases second <;> simp_all

section Chain

variable {above : List Path} {made : FileSystem} {e : FileFault}

theorem ensureChain_of_empty (h : path.text = []) : fs.ensureChain (path :: above) = (fs, none) := by
  rw [ensureChain, if_pos h]

theorem ensureChain_of_made (h : path.text ≠ []) (hmake : fs.makeDirectory path = .ok made) :
    fs.ensureChain (path :: above) = (made, none) := by
  rw [ensureChain, if_neg h, hmake]

theorem ensureChain_of_fault (h : path.text ≠ []) (hmake : fs.makeDirectory path = .error e)
    (hother : e ≠ .system .notFound) :
    fs.ensureChain (path :: above) = (fs, if fs.isDirectory path then none else some e) := by
  rw [ensureChain, if_neg h, hmake]
  split
  · next heq => simp at heq
  · next heq => exact absurd (Except.error.inj heq) hother
  · next heq =>
    obtain rfl := Except.error.inj heq
    split <;> rfl

/-- A directory that is missing above is made first, and then the directory itself. -/
theorem ensureChain_of_missing (h : path.text ≠ [])
    (hmake : fs.makeDirectory path = .error (.system .notFound)) :
    fs.ensureChain (path :: above) =
      match (fs.ensureChain above).2 with
      | some fault => ((fs.ensureChain above).1, some fault)
      | none =>
        match (fs.ensureChain above).1.ensureDirectory path with
        | .ok done => (done, none)
        | .error e => ((fs.ensureChain above).1, some e) := by
  rw [ensureChain, if_neg h, hmake]
  rcases fs.ensureChain above with ⟨made, _ | fault⟩ <;> rfl

/-- What is made for a path that lacks the directory above it is more than what is made for that
one. -/
theorem grows_last (above : List Path) (h : path.text ≠ [])
    (hmake : fs.makeDirectory path = .error (.system .notFound)) :
    Grows (fs.ensureChain above).1 (fs.ensureChain (path :: above)).1 := by
  rw [ensureChain_of_missing h hmake]
  split
  · exact Grows.refl _
  · split
    · next done hdone => exact (grows_of_ensureDirectory hdone).1
    · exact Grows.refl _

end Chain

namespace DifferOnlyAt

theorem add (h : DifferOnlyAt c fs fs') {last : LastLink} {directory : Location} {name : Bytes}
    {node : Node} (hbare : node.IsBare)
    (hresolve : fs.resolve last path = .ok (.absent directory name))
    (hresolve' : fs'.resolve last path = .ok (.absent directory name)) :
    DifferOnlyAt c (fs.add directory name node) (fs'.add directory name node) := by
  refine ⟨h.toSameOff.add hbare hresolve hresolve', fun x hx hx' => ?_⟩
  obtain ⟨attributes, entries, hat, hnone⟩ := (at?_of_resolve hresolve).2 directory name rfl
  obtain ⟨attributes', entries', hat', hnone'⟩ := (at?_of_resolve hresolve').2 directory name rfl
  rw [modifiedAt_add hat hnone hbare, modifiedAt_add hat' hnone' hbare, h.clock_eq,
    h.modifiedAt_eq x hx hx']

theorem makeDirectory (h : DifferOnlyAt c fs fs') (hoff : Off c fs path.withoutEndSlashes) :
    GoAlike (DifferOnlyAt c) (fs.makeDirectory path) (fs'.makeDirectory path) := by
  have hboth := h.resolve hoff .keep
  rw [FileSystem.makeDirectory, FileSystem.makeDirectory]
  generalize hd : fs.resolve .keep path.withoutEndSlashes = d at hboth ⊢
  generalize hd' : fs'.resolve .keep path.withoutEndSlashes = d' at hboth ⊢
  cases hboth with
  | failed e => exact .failed e
  | done step =>
    cases step with
    | present => exact .failed _
    | removed => exact .failed _
    | absent =>
      simp only [h.clock_eq]
      exact .done (h.add (Node.isBare_directory_nil _) hd hd')

theorem ensureDirectory (h : DifferOnlyAt c fs fs') (hoff : Off c fs path)
    (hoff' : Off c fs path.withoutEndSlashes) :
    GoAlike (DifferOnlyAt c) (fs.ensureDirectory path) (fs'.ensureDirectory path) := by
  have hboth := h.makeDirectory hoff'
  rw [FileSystem.ensureDirectory, FileSystem.ensureDirectory, h.isDirectory_eq hoff]
  generalize fs.makeDirectory path = d at hboth ⊢
  generalize fs'.makeDirectory path = d' at hboth ⊢
  cases hboth with
  | done step => exact .done step
  | failed e =>
    simp only
    split
    · exact .done h
    · exact .failed e

/-- Directories are made alike when none of their paths comes to the location; that is said of the
files when they have been made, since by then the paths go furthest. -/
theorem ensureChain (h : DifferOnlyAt c fs fs') {paths : List Path}
    (hoff : ∀ p ∈ paths, Off c (fs.ensureChain paths).1 p ∧
      Off c (fs.ensureChain paths).1 p.withoutEndSlashes) :
    DifferOnlyAt c (fs.ensureChain paths).1 (fs'.ensureChain paths).1 ∧
      (fs'.ensureChain paths).2 = (fs.ensureChain paths).2 := by
  induction paths with
  | nil => exact ⟨h, rfl⟩
  | cons path above ih =>
    by_cases hempty : path.text = []
    · rw [ensureChain_of_empty hempty, ensureChain_of_empty hempty]
      exact ⟨h, rfl⟩
    have hgrows := (grows_ensureChain fs (path :: above)).1
    obtain ⟨hpath, hpath'⟩ := hoff path List.mem_cons_self
    have hboth := h.makeDirectory (hpath'.of_grows hgrows)
    cases hmake : fs.makeDirectory path with
    | ok made =>
      rw [hmake] at hboth
      obtain ⟨made', hmake', hmade⟩ := hboth.of_ok
      rw [ensureChain_of_made hempty hmake, ensureChain_of_made hempty hmake']
      exact ⟨hmade, rfl⟩
    | error e =>
      rw [hmake] at hboth
      have hmake' := hboth.of_error
      by_cases hmissing : e = .system .notFound
      · subst hmissing
        have hlast := grows_last above hempty hmake
        obtain ⟨habove, hfault⟩ := ih fun p hp =>
          ⟨(hoff p (List.mem_cons_of_mem _ hp)).1.of_grows hlast,
            (hoff p (List.mem_cons_of_mem _ hp)).2.of_grows hlast⟩
        have hensure := habove.ensureDirectory (hpath.of_grows hlast) (hpath'.of_grows hlast)
        rw [ensureChain_of_missing hempty hmake, ensureChain_of_missing hempty hmake', hfault]
        cases (fs.ensureChain above).2 with
        | some fault => exact ⟨habove, rfl⟩
        | none =>
          cases hdone : (fs.ensureChain above).1.ensureDirectory path with
          | ok done =>
            rw [hdone] at hensure
            obtain ⟨done', hdone', hsame⟩ := hensure.of_ok
            rw [hdone']
            exact ⟨hsame, rfl⟩
          | error e =>
            rw [hdone] at hensure
            rw [hensure.of_error]
            exact ⟨habove, rfl⟩
      · rw [ensureChain_of_fault hempty hmake hmissing,
          ensureChain_of_fault hempty hmake' hmissing, h.isDirectory_eq (hpath.of_grows hgrows)]
        exact ⟨h, rfl⟩

end DifferOnlyAt

structure NewFor (paths : List Path) (before after : FileSystem) (x : Location) : Prop where
  missing : before.face? x = none
  shows : after.face? x = some (.directory newDirectoryMode)
  leads : ∃ p ∈ paths, after.place .keep p.withoutEndSlashes = .ok (.taken x)

theorem NewFor.of_grows {paths more : List Path} {before middle after : FileSystem} {x : Location}
    (h : NewFor paths before middle x) (hgrows : Grows middle after) (hpaths : paths ⊆ more) :
    NewFor more before after x := by
  obtain ⟨hmissing, hshows, p, hp, hplace⟩ := h
  refine ⟨hmissing, ?_, p, hpaths hp, (hgrows.place_taken hplace).1⟩
  rw [hgrows.face?_eq x (by simp [hshows]), hshows]

theorem newFor_makeDirectory {made : FileSystem} (h : fs.makeDirectory path = .ok made)
    {x : Location} (hx : made.face? x ≠ fs.face? x) : NewFor [path] fs made x := by
  obtain ⟨-, l, hmade, -⟩ := made_of_makeDirectory h
  obtain rfl : x = l := Classical.byContradiction fun hne =>
    hx (hmade.changes.face?_eq x hne)
  exact ⟨(mem_trail_of_free hmade.free).2, hmade.shows, path, List.mem_singleton_self _,
    (hmade.place_eq (by simp [Face.turn])).1⟩

theorem newFor_ensureDirectory {done : FileSystem} (h : fs.ensureDirectory path = .ok done)
    {x : Location} (hx : done.face? x ≠ fs.face? x) : NewFor [path] fs done x := by
  rw [ensureDirectory] at h
  split at h
  · next made hmake =>
    obtain rfl := Except.ok.inj h
    exact newFor_makeDirectory hmake hx
  · split at h
    · obtain rfl := Except.ok.inj h
      exact absurd rfl hx
    · simp at h

/-- Nothing else is new when directories have been made. -/
theorem newFor_ensureChain {paths : List Path} {x : Location}
    (hx : (fs.ensureChain paths).1.face? x ≠ fs.face? x) :
    NewFor paths fs (fs.ensureChain paths).1 x := by
  induction paths with
  | nil => exact absurd rfl hx
  | cons path above ih =>
    have hsingle : [path] ⊆ path :: above := List.cons_subset_cons _ (List.nil_subset _)
    have habove : above ⊆ path :: above := List.subset_cons_self _ _
    by_cases hempty : path.text = []
    · rw [ensureChain_of_empty hempty] at hx
      exact absurd rfl hx
    cases hmake : fs.makeDirectory path with
    | ok made =>
      rw [ensureChain_of_made hempty hmake] at hx ⊢
      exact (newFor_makeDirectory hmake hx).of_grows (Grows.refl made) hsingle
    | error e =>
      by_cases hmissing : e = .system .notFound
      · subst hmissing
        have hlast := grows_last above hempty hmake
        by_cases hfirst : (fs.ensureChain above).1.face? x = fs.face? x
        · rw [← hfirst] at hx
          rw [ensureChain_of_missing hempty hmake] at hx ⊢
          cases hfault : (fs.ensureChain above).2 with
          | some fault =>
            rw [hfault] at hx
            exact absurd rfl hx
          | none =>
            rw [hfault] at hx
            cases hdone : (fs.ensureChain above).1.ensureDirectory path with
            | ok done =>
              rw [hdone] at hx
              obtain ⟨hgone, hshows, hleads⟩ := newFor_ensureDirectory hdone hx
              have hnew : NewFor [path] fs done x := ⟨hfirst ▸ hgone, hshows, hleads⟩
              exact hnew.of_grows (Grows.refl done) hsingle
            | error e =>
              rw [hdone] at hx
              exact absurd rfl hx
        · exact (ih hfirst).of_grows hlast habove
      · rw [ensureChain_of_fault hempty hmake hmissing] at hx
        exact absurd rfl hx

end FileSystem

end ReleasePublisher
