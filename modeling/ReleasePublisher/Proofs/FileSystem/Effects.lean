import ReleasePublisher.Proofs.FileSystem.Entries
import ReleasePublisher.Proofs.FileSystem.Removals

/-!
What each file operation does, said in terms of places and faces. A write leaves its content where
the path leads and nothing else changed, so that what is written is read; an operation that makes
something only adds to what shows, and one that takes something away changes a single location.
-/
namespace ReleasePublisher

def Face.content? : Face → Option Bytes
  | .file _ _ content => some content
  | .special .pipe _ => some []
  | _ => none

namespace FileSystem

theorem contentOf_eq_ok_iff {node : Node} {content : Bytes} :
    contentOf node = .ok content ↔ node.face.content? = some content := by
  cases node with
  | special kind attributes => cases kind <;> simp [contentOf, Node.face, Face.content?]
  | _ => simp [contentOf, Node.face, Face.content?]

theorem read_eq_ok_iff {fs : FileSystem} {path : Path} {content : Bytes} :
    fs.read path = .ok content ↔
      ∃ l face, fs.place .follow path = .ok (.taken l) ∧ fs.face? l = some face ∧
        face.content? = some content := by
  constructor
  · intro h
    rw [read, find] at h
    cases hresolve : fs.resolve .follow path with
    | error e => simp [hresolve] at h
    | ok destination =>
      cases destination with
      | present l node =>
        simp only [hresolve] at h
        obtain ⟨hplace, hat⟩ := resolve_eq_present_iff.mp hresolve
        exact ⟨l, node.face, hplace, by simp [face?, hat], contentOf_eq_ok_iff.mp h⟩
      | absent directory name => simp [hresolve] at h
      | removed here => simp [hresolve, emptyDirectory, contentOf] at h
  · rintro ⟨l, face, hplace, hface, hcontent⟩
    obtain ⟨node, hat, rfl⟩ := face?_eq_some_iff.mp hface
    rw [read, find, resolve_eq_present_iff.mpr ⟨hplace, hat⟩]
    exact contentOf_eq_ok_iff.mpr hcontent

/-- Reading goes by the place of the path and what shows there. -/
theorem read_of_place {fs fs' : FileSystem} {path : Path} {content : Bytes}
    (h : fs.read path = .ok content)
    (hplace : ∀ l, fs.place .follow path = .ok (.taken l) →
      fs'.place .follow path = .ok (.taken l) ∧ fs'.face? l = fs.face? l) :
    fs'.read path = .ok content := by
  obtain ⟨l, face, hl, hface, hcontent⟩ := read_eq_ok_iff.mp h
  obtain ⟨hl', hface'⟩ := hplace l hl
  exact read_eq_ok_iff.mpr ⟨l, face, hl', hface'.trans hface, hcontent⟩

/-- What can be read without a node could be read with it. -/
theorem read_of_erase {fs : FileSystem} {location : Location} {node : Node}
    (hat : fs.root.at? location = some node) (hbare : node.IsBare) {path : Path}
    (hhere : path.isAbsolute = false → fs.turns fs.workingDirectory.location = some .enter)
    {content : Bytes} (h : (fs.erase location).read path = .ok content) :
    fs.read path = .ok content := by
  by_cases hroot : location = []
  · subst hroot
    exact h
  · obtain ⟨l, face, hplace, hface, hcontent⟩ := read_eq_ok_iff.mp h
    have hne : l ≠ location := by
      rintro rfl
      rw [face?_erase_self hroot] at hface
      simp at hface
    rw [(changesOnly_erase hat hbare).face?_eq l hne] at hface
    rcases place_erase hat hbare .follow hhere with hsame | hvacant
    · exact read_eq_ok_iff.mpr ⟨l, face, hsame ▸ hplace, hface, hcontent⟩
    · exact absurd hplace (hvacant l).1

structure Made (last : LastLink) (path : Path) (l : Location) (new : Face)
    (before after : FileSystem) : Prop where
  changes : ChangesOnly l before after
  here_eq : after.workingDirectory = before.workingDirectory
  free : before.place last path = .ok (.free l)
  shows : after.face? l = some new

theorem Made.grows {last : LastLink} {path : Path} {l : Location} {new : Face}
    {before after : FileSystem} (h : Made last path l new before after) : Grows before after :=
  h.changes.grows (mem_trail_of_free h.free).2 h.here_eq

/-- What is made is found by the path that it was made through. -/
theorem Made.place_eq {last : LastLink} {path : Path} {l : Location} {new : Face}
    {before after : FileSystem} (h : Made last path l new before after)
    (hlink : ∀ target, new.turn ≠ .follow target) :
    after.place last path = .ok (.taken l) ∧ after.trail last path = before.trail last path :=
  h.changes.place_filled h.here_eq h.free h.shows hlink

/-- A path that does not meet the new node led to the same place before. -/
theorem Made.place_back {last last' : LastLink} {path other : Path} {l : Location} {new : Face}
    {before after : FileSystem} (h : Made last path l new before after)
    (hbeside : l ∉ after.trail last' other) :
    before.place last' other = after.place last' other ∧
      before.trail last' other = after.trail last' other := by
  apply place_congr
  · intro x hx
    have hne : x ≠ l := fun heq => hbeside (heq ▸ hx)
    exact (turns_eq_of_face?_eq (h.changes.face?_eq x hne)).symm
  · exact Or.inr h.here_eq.symm

theorem made_add {fs : FileSystem} {last : LastLink} {path : Path} {directory : Location}
    {name : Bytes} {node : Node} (h : fs.resolve last path = .ok (.absent directory name))
    (hbare : node.IsBare) :
    Made last path (directory ++ [name]) node.face fs (fs.add directory name node) := by
  have hplace : fs.place last path = .ok (.free (directory ++ [name])) := by
    rw [place, h]
    rfl
  obtain ⟨attributes, entries, hat, -⟩ := (at?_of_resolve h).2 directory name rfl
  exact ⟨changesOnly_add (mem_trail_of_free hplace).2 hbare, rfl, hplace, face?_add_self hat ..⟩

theorem made_addFile {fs : FileSystem} {last : LastLink} {path : Path} {directory : Location}
    {name : Bytes} (h : fs.resolve last path = .ok (.absent directory name)) (content : Bytes) :
    Made last path (directory ++ [name])
      (.file fs.nextSerial ⟨newFileMode, fs.clock⟩ content) fs
      (fs.addFile directory name content) := by
  have hbare : Node.IsBare (.file fs.nextSerial ⟨newFileMode, fs.clock⟩ content) :=
    Node.isBare_of_isDirectory_eq_false rfl
  obtain ⟨hchanges, hhere, hfree, hshows⟩ := made_add h hbare
  exact ⟨⟨hchanges.face?_eq, hchanges.here_eq⟩, hhere, hfree, hshows⟩

structure Refilled (l : Location) (content : Bytes) (before after : FileSystem) : Prop where
  changes : ChangesOnly l before after
  here_eq : after.workingDirectory = before.workingDirectory
  serial_eq : after.nextSerial = before.nextSerial
  shows : ∃ serial attributes attributes' old,
    before.face? l = some (.file serial attributes old) ∧
      after.face? l = some (.file serial attributes' content)

theorem Refilled.place_eq {l : Location} {content : Bytes} {before after : FileSystem}
    (h : Refilled l content before after) (last : LastLink) (path : Path) :
    after.place last path = before.place last path ∧
      after.trail last path = before.trail last path := by
  refine place_congr (fun x _ => ?_) (Or.inr h.here_eq)
  by_cases hx : x = l
  · obtain ⟨serial, attributes, attributes', old, hbefore, hafter⟩ := h.shows
    subst hx
    rw [turns_eq_map_face?, turns_eq_map_face?, hbefore, hafter]
    rfl
  · exact turns_eq_of_face?_eq (h.changes.face?_eq x hx)

theorem refilled_replace {fs : FileSystem} {l : Location} {serial : Serial}
    {attributes : Attributes} {old : Bytes}
    (h : fs.root.at? l = some (.file serial attributes old)) (attributes' : Attributes)
    (content : Bytes) :
    Refilled l content fs (fs.replace l (.file serial attributes' content)) := by
  refine ⟨changesOnly_replace h (Node.isBare_of_isDirectory_eq_false rfl)
    (Node.isBare_of_isDirectory_eq_false rfl), rfl, rfl, ?_⟩
  exact ⟨serial, attributes, attributes', old, by simp [face?, h], face?_replace_self h _⟩

/-- What is written to a path is left in the file that it leads to, old or new. -/
inductive Written (path : Path) (l : Location) (content : Bytes)
    (before after : FileSystem) : Prop
  | refilled (place_eq : before.place .follow path = .ok (.taken l))
      (step : Refilled l content before after)
  | made (serial : Serial) (attributes : Attributes)
      (step : Made .follow path l (.file serial attributes content) before after)

namespace Written

variable {path : Path} {l : Location} {content : Bytes} {before after : FileSystem}

/-- Writing changes only what shows at the file. -/
theorem changes (h : Written path l content before after) : ChangesOnly l before after := by
  cases h with
  | refilled _ step => exact step.changes
  | made _ _ step => exact step.changes

theorem shows (h : Written path l content before after) :
    ∃ serial attributes, after.face? l = some (.file serial attributes content) := by
  cases h with
  | refilled _ step =>
    obtain ⟨serial, _, attributes, _, _, hafter⟩ := step.shows
    exact ⟨serial, attributes, hafter⟩
  | made serial attributes step => exact ⟨serial, attributes, step.shows⟩

theorem place_eq (h : Written path l content before after) :
    after.place .follow path = .ok (.taken l) ∧
      after.trail .follow path = before.trail .follow path := by
  cases h with
  | refilled hplace step =>
    obtain ⟨hplace', htrail⟩ := step.place_eq .follow path
    exact ⟨hplace'.trans hplace, htrail⟩
  | made _ _ step => exact step.place_eq (by simp [Face.turn])

theorem read_eq (h : Written path l content before after) : after.read path = .ok content := by
  obtain ⟨serial, attributes, hface⟩ := h.shows
  exact read_eq_ok_iff.mpr ⟨l, _, h.place_eq.1, hface, rfl⟩

/-- Every path that led somewhere before still leads there after a file was written. -/
theorem place_taken (h : Written path l content before after) {last : LastLink} {other : Path}
    {x : Location} (hplace : before.place last other = .ok (.taken x)) :
    after.place last other = .ok (.taken x) ∧
      after.trail last other = before.trail last other := by
  cases h with
  | refilled _ step =>
    obtain ⟨hplace', htrail⟩ := step.place_eq last other
    exact ⟨hplace'.trans hplace, htrail⟩
  | made _ _ step =>
    obtain ⟨hplace', htrail, -⟩ := step.grows.place_taken hplace
    exact ⟨hplace', htrail⟩

theorem mem_trail (h : Written path l content before after) : l ∈ before.trail .follow path := by
  cases h with
  | refilled place_eq step => exact (mem_trail_of_taken place_eq).1
  | made serial attributes step => exact (mem_trail_of_free step.free).1

end Written

/-- A write that succeeds leaves the content at some place. -/
theorem written_of_write {fs fs' : FileSystem} {path : Path} {content : Bytes}
    (h : fs.write path content = .ok fs') : ∃ l, Written path l content fs fs' := by
  rw [write] at h
  cases hresolve : fs.resolve .follow path with
  | error e => simp [hresolve] at h
  | ok destination =>
    cases destination with
    | present l node =>
      obtain ⟨hplace, hat⟩ := resolve_eq_present_iff.mp hresolve
      cases node with
      | file serial attributes old =>
        simp only [hresolve, writeAt, Except.ok.injEq] at h
        exact ⟨l, .refilled hplace (h ▸ refilled_replace hat _ content)⟩
      | _ => simp [hresolve, writeAt] at h
    | absent directory name =>
      simp only [hresolve, Except.ok.injEq] at h
      exact ⟨directory ++ [name], .made _ _ (h ▸ made_addFile hresolve content)⟩
    | removed here => simp [hresolve] at h

theorem exists_write_of_file {fs : FileSystem} {path : Path} {l : Location} {serial : Serial}
    {attributes : Attributes} {old : Bytes} (hplace : fs.place .follow path = .ok (.taken l))
    (hface : fs.face? l = some (.file serial attributes old)) (content : Bytes) :
    ∃ fs', fs.write path content = .ok fs' := by
  obtain ⟨node, hat, hnode⟩ := face?_eq_some_iff.mp hface
  rw [Node.eq_file_of_face hnode] at hat
  rw [write, resolve_eq_present_iff.mpr ⟨hplace, hat⟩]
  exact ⟨_, rfl⟩

/-- Whether writing works does not depend on what is written. -/
theorem exists_write_of_write {fs fs' : FileSystem} {path : Path} {content : Bytes}
    (h : fs.write path content = .ok fs') (content' : Bytes) :
    ∃ fs', fs.write path content' = .ok fs' := by
  rw [write] at h ⊢
  cases hresolve : fs.resolve .follow path with
  | error e => simp [hresolve] at h
  | ok destination =>
    cases destination with
    | present l node => cases node <;> simp_all [writeAt]
    | absent directory name => exact ⟨_, rfl⟩
    | removed here => simp [hresolve] at h

theorem append_of_file {fs : FileSystem} {path : Path} {l : Location} {serial : Serial}
    {attributes : Attributes} {old : Bytes} (hplace : fs.place .follow path = .ok (.taken l))
    (hface : fs.face? l = some (.file serial attributes old)) (more : Bytes) :
    ∃ fs', fs.append path more = .ok fs' ∧ Written path l (old ++ more) fs fs' := by
  obtain ⟨node, hat, hnode⟩ := face?_eq_some_iff.mp hface
  rw [Node.eq_file_of_face hnode] at hat
  rw [append, resolve_eq_present_iff.mpr ⟨hplace, hat⟩]
  exact ⟨_, rfl, .refilled hplace (refilled_replace hat _ _)⟩

theorem exists_file_of_append {fs fs' : FileSystem} {path : Path} {more : Bytes}
    (h : fs.append path more = .ok fs') :
    ∃ l serial attributes old, fs.place .follow path = .ok (.taken l) ∧
      fs.face? l = some (.file serial attributes old) := by
  rw [append] at h
  cases hresolve : fs.resolve .follow path with
  | error e => simp [hresolve] at h
  | ok destination =>
    cases destination with
    | present l node =>
      obtain ⟨hplace, hat⟩ := resolve_eq_present_iff.mp hresolve
      cases node with
      | file serial attributes old =>
        exact ⟨l, serial, attributes, old, hplace, by simp [face?, hat]⟩
      | _ => simp [hresolve, writeAt] at h
    | _ => simp [hresolve] at h

theorem made_of_createNew {fs fs' : FileSystem} {path : Path} {handle : Handle}
    (h : fs.createNew path = .ok (fs', handle)) :
    handle.serial = fs.nextSerial ∧
      Made .keep path handle.location (.file fs.nextSerial ⟨newFileMode, fs.clock⟩ []) fs fs' := by
  rw [createNew] at h
  cases hresolve : fs.resolve .keep path with
  | error e => simp [hresolve] at h
  | ok destination =>
    cases destination with
    | absent directory name =>
      simp only [hresolve, Except.ok.injEq, Prod.mk.injEq] at h
      obtain ⟨rfl, rfl⟩ := h
      exact ⟨rfl, made_addFile hresolve []⟩
    | _ => simp [hresolve] at h

theorem refilled_writeTo {fs : FileSystem} {handle : Handle} {attributes : Attributes}
    {old : Bytes} (h : fs.face? handle.location = some (.file handle.serial attributes old))
    (content : Bytes) : Refilled handle.location content fs (fs.writeTo handle content) := by
  obtain ⟨node, hat, hnode⟩ := face?_eq_some_iff.mp h
  rw [Node.eq_file_of_face hnode] at hat
  rw [writeTo, hat]
  simp only [if_pos]
  exact refilled_replace hat _ content

/-- What is removed as a file is not a directory, and the path led to it. -/
theorem erase_of_removeFile {fs fs' : FileSystem} {path : Path}
    (h : fs.removeFile path = .ok fs') :
    ∃ l node, fs.place .keep path = .ok (.taken l) ∧ fs.root.at? l = some node ∧
      node.isDirectory = false ∧ fs' = fs.erase l := by
  rw [removeFile] at h
  cases hresolve : fs.resolve .keep path with
  | error e => simp [hresolve] at h
  | ok destination =>
    cases destination with
    | present l node =>
      obtain ⟨hplace, hat⟩ := resolve_eq_present_iff.mp hresolve
      cases node with
      | directory attributes entries => simp [hresolve] at h
      | _ =>
        simp only [hresolve, Except.ok.injEq] at h
        exact ⟨l, _, hplace, hat, rfl, h.symm⟩
    | _ => simp [hresolve] at h

theorem removeFile_of_file {fs : FileSystem} {path : Path} {l : Location} {serial : Serial}
    {attributes : Attributes} {content : Bytes} (hplace : fs.place .keep path = .ok (.taken l))
    (hface : fs.face? l = some (.file serial attributes content)) :
    fs.removeFile path = .ok (fs.erase l) := by
  obtain ⟨node, hat, hnode⟩ := face?_eq_some_iff.mp hface
  rw [Node.eq_file_of_face hnode] at hat
  rw [removeFile, resolve_eq_present_iff.mpr ⟨hplace, hat⟩]

theorem erase_of_removeDirectory {fs fs' : FileSystem} {path : Path}
    (h : fs.removeDirectory path = .ok fs') :
    ∃ l attributes, fs.place .keep path = .ok (.taken l) ∧
      fs.root.at? l = some (.directory attributes []) ∧ fs' = fs.erase l := by
  rw [removeDirectory] at h
  cases hresolve : fs.resolve .keep path with
  | error e => simp [hresolve] at h
  | ok destination =>
    cases destination with
    | present l node =>
      obtain ⟨hplace, hat⟩ := resolve_eq_present_iff.mp hresolve
      cases node with
      | directory attributes entries =>
        cases entries with
        | nil =>
          simp only [hresolve, Except.ok.injEq] at h
          exact ⟨l, attributes, hplace, hat, h.symm⟩
        | cons e rest => simp [hresolve] at h
      | _ => simp [hresolve] at h
    | _ => simp [hresolve] at h

theorem removeDirectory_of_place {fs : FileSystem} {path : Path} {l : Location}
    {attributes : Attributes} {entries : List (Bytes × Node)}
    (hplace : fs.place .keep path = .ok (.taken l))
    (hat : fs.root.at? l = some (.directory attributes entries)) :
    fs.removeDirectory path =
      if entries = [] then .ok (fs.erase l) else .error (.system .notEmpty) := by
  rw [removeDirectory, resolve_eq_present_iff.mpr ⟨hplace, hat⟩]
  cases entries <;> rfl

theorem at?_erase_parent {fs : FileSystem} {directory : Location} {attributes : Attributes}
    {entries : List (Bytes × Node)}
    (h : fs.root.at? directory = some (.directory attributes entries)) (name : Bytes) :
    (fs.erase (directory ++ [name])).root.at? directory =
      some (.directory { attributes with modified := fs.clock }
        (Node.eraseEntry name entries)) := by
  simp [erase, Node.at?_modify_self, h, Node.dropEntry]

theorem made_of_makeDirectory {fs fs' : FileSystem} {path : Path}
    (h : fs.makeDirectory path = .ok fs') :
    fs'.nextSerial = fs.nextSerial ∧ ∃ l,
      Made .keep path.withoutEndSlashes l (.directory newDirectoryMode) fs fs' ∧
      ∃ attributes, fs'.root.at? l = some (.directory attributes []) := by
  rw [makeDirectory] at h
  cases hresolve : fs.resolve .keep path.withoutEndSlashes with
  | error e => simp [hresolve] at h
  | ok destination =>
    cases destination with
    | absent directory name =>
      simp only [hresolve, Except.ok.injEq] at h
      subst h
      have hmade := made_add hresolve (Node.isBare_directory_nil ⟨newDirectoryMode, fs.clock⟩)
      refine ⟨rfl, directory ++ [name], hmade, ⟨newDirectoryMode, fs.clock⟩, ?_⟩
      obtain ⟨attributes, entries, hat, -⟩ := (at?_of_resolve hresolve).2 directory name rfl
      simp [add, Node.at?_modify_append, hat, Node.addEntry, Node.at?, Node.child?_putEntry_self]
    | _ => simp [hresolve] at h

theorem exists_resolve_of_place {fs : FileSystem} {last : LastLink} {path : Path} {l : Location}
    (h : fs.place last path = .ok (.taken l)) :
    ∃ node, fs.resolve last path = .ok (.present l node) := by
  obtain ⟨face, hface⟩ := Option.ne_none_iff_exists'.mp (mem_trail_of_taken h).2
  obtain ⟨node, hat, -⟩ := face?_eq_some_iff.mp hface
  exact ⟨node, resolve_eq_present_iff.mpr ⟨h, hat⟩⟩

theorem createNew_of_place {fs : FileSystem} {path : Path} {l : Location}
    (h : fs.place .keep path = .ok (.taken l)) :
    fs.createNew path = .error (.system .alreadyExists) := by
  obtain ⟨node, hresolve⟩ := exists_resolve_of_place h
  rw [createNew, hresolve]

/-- A directory that is there already need not be made. -/
theorem ensureDirectories_of_place {fs : FileSystem} {path : Path} (hopen : path.IsOpen)
    {l : Location} (h : fs.place .keep path = .ok (.taken l)) :
    fs.ensureDirectories path =
      (fs, if fs.isDirectory path then none else some (.system .alreadyExists)) := by
  obtain ⟨above, habove⟩ := path.exists_ancestors_eq_cons
  obtain ⟨node, hresolve⟩ := exists_resolve_of_place h
  have hmake : fs.makeDirectory path = .error (.system .alreadyExists) := by
    rw [makeDirectory, Path.withoutEndSlashes_of_isOpen hopen, hresolve]
  rw [ensureDirectories, habove, ensureChain, if_neg hopen.ne_nil, hmake]
  simp only
  split <;> rfl

theorem isDirectory_of_place {fs : FileSystem} {path : Path} {d : Location}
    (hplace : fs.place .follow path = .ok (.taken d)) (hturn : fs.turns d = some .enter) :
    fs.isDirectory path := by
  obtain ⟨attributes, entries, hat⟩ := exists_directory_of_turns hturn
  rw [isDirectory, find?, find, resolve_eq_present_iff.mpr ⟨hplace, hat⟩]
  rfl

/-- Making directories only adds to what shows, and uses up no serial. -/
theorem grows_of_ensureDirectory {fs fs' : FileSystem} {path : Path}
    (h : fs.ensureDirectory path = .ok fs') :
    Grows fs fs' ∧ fs'.nextSerial = fs.nextSerial := by
  rw [ensureDirectory] at h
  cases hmake : fs.makeDirectory path with
  | ok made =>
    simp only [hmake, Except.ok.injEq] at h
    subst h
    obtain ⟨hserial, l, hmade, -⟩ := made_of_makeDirectory hmake
    exact ⟨hmade.grows, hserial⟩
  | error e =>
    simp only [hmake] at h
    split at h
    · simp only [Except.ok.injEq] at h
      exact ⟨h ▸ Grows.refl fs, by rw [h]⟩
    · simp at h

/-- Making directories only adds to what shows. -/
theorem grows_ensureChain (fs : FileSystem) (paths : List Path) :
    Grows fs (fs.ensureChain paths).1 ∧ (fs.ensureChain paths).1.nextSerial = fs.nextSerial := by
  induction paths with
  | nil => exact ⟨Grows.refl fs, rfl⟩
  | cons path above ih =>
    rw [ensureChain]
    split
    · exact ⟨Grows.refl fs, rfl⟩
    · split
      · next made hmake =>
        obtain ⟨hserial, l, hmade, -⟩ := made_of_makeDirectory hmake
        exact ⟨hmade.grows, hserial⟩
      · cases habove : ensureChain fs above with
        | mk made fault =>
          rw [habove] at ih
          cases fault with
          | some fault => exact ih
          | none =>
            simp only
            cases hensure : made.ensureDirectory path with
            | ok done =>
              obtain ⟨hgrows, hserial⟩ := grows_of_ensureDirectory hensure
              exact ⟨ih.1.trans hgrows, hserial.trans ih.2⟩
            | error e => exact ih
      · split <;> exact ⟨Grows.refl fs, rfl⟩

/-- The time of the last change of a file that a path leads to. -/
theorem modified?_of_place {fs : FileSystem} {path : Path} {l : Location} {serial : Serial}
    {attributes : Attributes} {content : Bytes} (hplace : fs.place .follow path = .ok (.taken l))
    (hface : fs.face? l = some (.file serial attributes content)) :
    fs.modified? path = some attributes.modified := by
  obtain ⟨node, hat, hnode⟩ := face?_eq_some_iff.mp hface
  rw [Node.eq_file_of_face hnode] at hat
  rw [modified?, find?, find, resolve_eq_present_iff.mpr ⟨hplace, hat⟩]
  rfl

theorem face?_writeTo {fs : FileSystem} {handle : Handle} {attributes : Attributes} {old : Bytes}
    (h : fs.face? handle.location = some (.file handle.serial attributes old)) (content : Bytes) :
    (fs.writeTo handle content).face? handle.location =
      some (.file handle.serial { attributes with modified := fs.clock } content) := by
  obtain ⟨node, hat, hnode⟩ := face?_eq_some_iff.mp h
  rw [Node.eq_file_of_face hnode] at hat
  rw [writeTo, hat]
  simp only [if_pos]
  exact face?_replace_self hat _

/-- Nothing that is done to the files sets the clock. -/
@[simp] theorem clock_erase (fs : FileSystem) (l : Location) : (fs.erase l).clock = fs.clock := by
  rw [erase]
  split <;> rfl

@[simp] theorem clock_writeTo (fs : FileSystem) (handle : Handle) (content : Bytes) :
    (fs.writeTo handle content).clock = fs.clock := by
  rw [writeTo]
  split
  · split <;> rfl
  · rfl

theorem clock_of_createNew {fs fs' : FileSystem} {path : Path} {handle : Handle}
    (h : fs.createNew path = .ok (fs', handle)) : fs'.clock = fs.clock := by
  rw [createNew] at h
  split at h <;> simp only [Except.ok.injEq, Prod.mk.injEq, reduceCtorEq] at h
  rw [← h.1]
  rfl

theorem clock_of_removeFile {fs fs' : FileSystem} {path : Path}
    (h : fs.removeFile path = .ok fs') : fs'.clock = fs.clock := by
  obtain ⟨l, node, -, -, -, rfl⟩ := erase_of_removeFile h
  exact clock_erase fs l

theorem clock_of_removeDirectory {fs fs' : FileSystem} {path : Path}
    (h : fs.removeDirectory path = .ok fs') : fs'.clock = fs.clock := by
  obtain ⟨l, attributes, -, -, rfl⟩ := erase_of_removeDirectory h
  exact clock_erase fs l

theorem clock_of_makeDirectory {fs fs' : FileSystem} {path : Path}
    (h : fs.makeDirectory path = .ok fs') : fs'.clock = fs.clock := by
  rw [makeDirectory] at h
  split at h <;> simp only [Except.ok.injEq, reduceCtorEq] at h
  rw [← h]
  rfl

theorem clock_of_ensureDirectory {fs fs' : FileSystem} {path : Path}
    (h : fs.ensureDirectory path = .ok fs') : fs'.clock = fs.clock := by
  rw [ensureDirectory] at h
  cases hmake : fs.makeDirectory path with
  | ok made =>
    simp only [hmake, Except.ok.injEq] at h
    exact h ▸ clock_of_makeDirectory hmake
  | error e =>
    simp only [hmake] at h
    split at h <;> simp only [Except.ok.injEq, reduceCtorEq] at h
    rw [h]

theorem clock_ensureChain (fs : FileSystem) (paths : List Path) :
    (fs.ensureChain paths).1.clock = fs.clock := by
  induction paths with
  | nil => rfl
  | cons path above ih =>
    rw [ensureChain]
    split
    · rfl
    split
    · next made hmake => exact clock_of_makeDirectory hmake
    · cases habove : ensureChain fs above with
      | mk made fault =>
        rw [habove] at ih
        cases fault with
        | some fault => exact ih
        | none =>
          simp only
          cases hensure : made.ensureDirectory path with
          | ok done => exact (clock_of_ensureDirectory hensure).trans ih
          | error e => exact ih
    · split <;> rfl

end FileSystem

end ReleasePublisher
