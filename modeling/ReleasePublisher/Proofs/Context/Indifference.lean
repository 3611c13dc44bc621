import ReleasePublisher.Proofs.Context.Dockerfile
import ReleasePublisher.Proofs.Context.Revision

/-!
What a context does not tell. Nothing that stands in the directory of the lock or outside the
context has an influence on what is sent, and a file that is no ignore file has one on its own entry
only, whatever name it has.
-/
namespace ReleasePublisher

open ReleasePublisher.Path (IsFileName)

namespace BuildContext

open FileSystem

/-- A directory without links for ignore files, and a path that leads to a regular file in it
outside the directory of the lock. -/
structure HasDockerfile (fs : FileSystem) (context dockerfile : Path) (root : Node)
    (names : Location) : Prop where
  resolve_eq : ∃ l serial attributes content,
    fs.resolve .follow context = .ok (.present l root) ∧
      fs.resolve .follow dockerfile = .ok (.present (l ++ names) (.file serial attributes content))
  isDirectory : root.isDirectory = true
  wellNamed : root.WellNamed
  shown : ¬ Hidden names
  link_ne : ∀ place target, ¬ Hidden place →
    root.at? (place ++ [ignoreFile.text]) ≠ some (.link target)

def ShowSame (root root' : Node) : Prop :=
  ∀ place, place ≠ [] → ¬ Hidden place →
    (root'.at? place).map Node.look = (root.at? place).map Node.look

/-- Two trees show the same outside the directory of the lock, except for the content of one
file. -/
structure ShowSameBut (place : Location) (content content' : Bytes) (root root' : Node) :
    Prop where
  look_eq : ∀ other, other ≠ [] → ¬ Hidden other → other ≠ place →
    (root'.at? other).map Node.look = (root.at? other).map Node.look
  file_eq : ∃ serial serial' attributes attributes',
    root.at? place = some (.file serial attributes content) ∧
      root'.at? place = some (.file serial' attributes' content') ∧
      attributes'.mode = attributes.mode

/-- What is sent of two trees that differ in the content of one file. It is seen in the entry of the
file and nowhere else. A Dockerfile that is left out has its entry at the end, and it is entered there
once more if its path leads to it in another way than its names do. -/
inductive AlikeBut (place names : Location) (direct : Prop) (content content' : Bytes) :
    Except BuildError BuildContext → Except BuildError BuildContext → Prop
  | unseen (sent : Except BuildError BuildContext) :
      AlikeBut place names direct content content' sent sent
  | own (name : String) (before : List ArchiveEntry) (mode : Nat) (after : List ArchiveEntry) :
      AlikeBut place names direct content content'
        (.ok ⟨name, before ++ ⟨Bytes.join Bytes.slash place, mode, .file content⟩ :: after⟩)
        (.ok ⟨name, before ++ ⟨Bytes.join Bytes.slash place, mode, .file content'⟩ :: after⟩)
  | last (isDockerfile : place = names) (name : String) (before : List ArchiveEntry) (path : Bytes)
      (mode : Nat) :
      AlikeBut place names direct content content'
        (.ok ⟨name, before ++ [⟨path, mode, .file content⟩]⟩)
        (.ok ⟨name, before ++ [⟨path, mode, .file content'⟩]⟩)
  | twice (isDockerfile : place = names) (indirect : ¬ direct) (name : String)
      (before : List ArchiveEntry) (mode : Nat) (after : List ArchiveEntry) (path : Bytes)
      (mode' : Nat) :
      AlikeBut place names direct content content'
        (.ok ⟨name, before ++ ⟨Bytes.join Bytes.slash place, mode, .file content⟩ :: after ++
          [⟨path, mode', .file content⟩]⟩)
        (.ok ⟨name, before ++ ⟨Bytes.join Bytes.slash place, mode, .file content'⟩ :: after ++
          [⟨path, mode', .file content'⟩]⟩)

namespace HasDockerfile

variable {fs : FileSystem} {context dockerfile : Path} {root : Node} {names : Location}

theorem find?_eq (h : HasDockerfile fs context dockerfile root names) :
    fs.find? context = some root := by
  obtain ⟨l, serial, attributes, content, hcontext, -⟩ := h.resolve_eq
  rw [find?, find, hcontext]
  rfl

/-- What is read as the Dockerfile is the content of the file. -/
theorem exists_file (h : HasDockerfile fs context dockerfile root names) :
    ∃ serial attributes content, root.at? names = some (.file serial attributes content) ∧
      fs.read dockerfile = .ok content := by
  obtain ⟨l, serial, attributes, content, hcontext, hdockerfile⟩ := h.resolve_eq
  have hroot := (resolve_eq_present_iff.mp hcontext).2
  have hfile := (resolve_eq_present_iff.mp hdockerfile).2
  rw [Node.at?_append, hroot] at hfile
  refine ⟨serial, attributes, content, hfile, ?_⟩
  rw [FileSystem.read, find, hdockerfile]
  rfl

theorem ne_nil (h : HasDockerfile fs context dockerfile root names) : names ≠ [] := by
  rintro rfl
  obtain ⟨serial, attributes, content, hfile, -⟩ := h.exists_file
  have hdirectory := h.isDirectory
  rw [Node.at?_nil] at hfile
  rw [Option.some.inj hfile] at hdirectory
  simp [Node.isDirectory] at hdirectory

/-- A Dockerfile under its own names is found where it is listed. -/
theorem holds_iff (h : HasDockerfile fs context dockerfile root names) {places : List Location}
    (hlisting : IsListing fs context root places)
    (hdirect : dockerfile.components = context.components ++ names.map .named) :
    holds dockerfile (places.map (foundAt context root)) = true ↔ names ∈ places := by
  obtain ⟨serial, attributes, content, hfile, -⟩ := h.exists_file
  have hplain := isFileName_of_at? h.wellNamed (Option.ne_none_iff_exists'.mpr ⟨_, hfile⟩)
  have hjoin := Path.components_join hplain
  have hheld := BuildContext.holds_iff h.wellNamed
    (fun place hplace => ((hlisting.mem_iff place).mp hplace).2.1) (hdirect.trans (by rw [← hjoin]))
  rw [hheld, hjoin]
  constructor
  · rintro ⟨place, hplace, -, hnames⟩
    exact Path.named_injective hnames ▸ hplace
  · exact fun hmem => ⟨names, hmem, by rw [hfile]; rfl, rfl⟩

end HasDockerfile

theorem content_eq_of_look {root root' : Node} {names : Location} {serial serial' : Serial}
    {attributes attributes' : Attributes} {content content' : Bytes}
    (hlook : (root'.at? names).map Node.look = (root.at? names).map Node.look)
    (hfile : root.at? names = some (.file serial attributes content))
    (hfile' : root'.at? names = some (.file serial' attributes' content')) :
    content' = content := by
  rw [hfile, hfile'] at hlook
  simp only [Option.map_some, Node.look, Option.some.injEq, Face.file.injEq] at hlook
  exact hlook.2.2

section Revisions

variable {root root' : Node} {context : Path} {place : Location} {content content' : Bytes}
  {places : List Location} {listed : List ArchiveEntry}

/-- To show the same is to show the contents of the other tree as they are. -/
theorem revised_id (h : ShowSame root root')
    (hlink : ∀ place target, ¬ Hidden place →
      root.at? (place ++ [ignoreFile.text]) ≠ some (.link target)) :
    Revised (fun _ => id) root root' where
  look_eq place hne hshown := by
    have hid : Face.revise id ∘ Node.look = Node.look := funext fun node => Face.revise_id _
    rw [hid, h place hne hshown]
  rules_eq _ := rfl
  link_ne := hlink

def renewAt (place : Location) (content' : Bytes) : Location → Bytes → Bytes :=
  fun other => if other = place then fun _ => content' else id

/-- Two trees that show the same but for one file show the contents of each other, that one
renewed. -/
theorem revised_renewAt (h : ShowSameBut place content content' root root')
    (hignore : place.getLast? ≠ some ignoreFile.text)
    (hlink : ∀ place target, ¬ Hidden place →
      root.at? (place ++ [ignoreFile.text]) ≠ some (.link target)) :
    Revised (renewAt place content') root root' where
  look_eq other hne hshown := by
    by_cases hother : other = place
    · subst hother
      obtain ⟨serial, serial', attributes, attributes', hat, hat', hmode⟩ := h.file_eq
      simp [hat, hat', renewAt, Node.look, Face.revise, hmode]
    · have hid : Face.revise id ∘ Node.look = Node.look := funext fun node => Face.revise_id _
      rw [renewAt, if_neg hother, hid, h.look_eq other hne hshown hother]
  rules_eq other := if_neg fun heq => hignore (by rw [← heq]; simp)
  link_ne := hlink

/-- One entry is renewed, that of the file, if it is among the listed ones. -/
theorem reviseAll_renewAt {serial : Serial} {attributes : Attributes}
    (hfile : root.at? place = some (.file serial attributes content))
    (hentered : List.Forall₂ (Entered context root) places listed) (hnodup : places.Nodup)
    (hmem : place ∈ places) (content' : Bytes) :
    ∃ before after,
      listed = before ++ ⟨Bytes.join Bytes.slash place, attributes.mode, .file content⟩ :: after ∧
        reviseAll (renewAt place content') places listed =
          before ++ ⟨Bytes.join Bytes.slash place, attributes.mode, .file content'⟩ :: after := by
  induction hentered with
  | nil => simp at hmem
  | @cons first entry places listed hfirst hrest ih =>
    obtain ⟨hnotMem, hnodup⟩ := List.nodup_cons.mp hnodup
    rw [reviseAll_cons]
    by_cases hsame : first = place
    · subst hsame
      obtain ⟨node, hat, hentry⟩ := hfirst
      obtain rfl : node = .file serial attributes content := Option.some.inj (hat.symm.trans hfile)
      have hothers : ∀ other ∈ places, renewAt first content' other = id := by
        intro other hother
        refine if_neg ?_
        rintro rfl
        exact hnotMem hother
      rw [reviseAll_eq_self hrest.length_eq hothers, renewAt, if_pos rfl]
      cases hentry with
      | file => exact ⟨[], listed, rfl, rfl⟩
    · obtain ⟨before, after, hlisted, hrevised⟩ :=
        ih hnodup ((List.mem_cons.mp hmem).resolve_left (Ne.symm hsame))
      refine ⟨entry :: before, after, by rw [hlisted]; rfl, ?_⟩
      rw [hrevised, renewAt, if_neg hsame, ArchiveEntry.revise_id]
      rfl

/-- Where the file is not listed, its content is not seen. -/
theorem reviseAll_renewAt_of_not_mem (hlength : places.length = listed.length)
    (hmem : place ∉ places) (content' : Bytes) :
    reviseAll (renewAt place content') places listed = listed := by
  refine reviseAll_eq_self hlength fun other hother => if_neg ?_
  rintro rfl
  exact hmem hother

end Revisions

section

variable {fs fs' : FileSystem} {context dockerfile : Path} {root root' : Node} {names : Location}

/-- Nothing in the directory of the lock and nothing outside the context has an influence on what is
sent. -/
theorem create_eq_of_showSame (h : HasDockerfile fs context dockerfile root names)
    (h' : HasDockerfile fs' context dockerfile root' names) (hsame : ShowSame root root') :
    create fs' (some context) dockerfile = create fs (some context) dockerfile := by
  obtain ⟨serial, attributes, content, hfile, hread⟩ := h.exists_file
  obtain ⟨serial', attributes', content', hfile', hread'⟩ := h'.exists_file
  obtain rfl := content_eq_of_look (hsame names h.ne_nil h.shown) hfile hfile'
  have halike := create_alike (revised_id hsame h.link_ne) h.find?_eq h'.find?_eq h.isDirectory
    h'.isDirectory h.wellNamed h'.wellNamed hread hread'
  generalize create fs (some context) dockerfile = sent at halike
  generalize create fs' (some context) dockerfile = sent' at halike
  cases halike with
  | failed error => rfl
  | done halike =>
    cases halike with
    | intro name path hlisting hentered hheld =>
      rw [reviseAll_eq_self hentered.length_eq fun _ _ => rfl]

/-- The text of a file that is no ignore file is seen in what is made of the file. -/
theorem create_of_showSameBut (h : HasDockerfile fs context dockerfile root names)
    (h' : HasDockerfile fs' context dockerfile root' names) {place : Location}
    {content content' : Bytes} (hsame : ShowSameBut place content content' root root')
    (hignore : place.getLast? ≠ some ignoreFile.text) :
    AlikeBut place names (dockerfile.components = context.components ++ names.map .named) content
      content' (create fs (some context) dockerfile) (create fs' (some context) dockerfile) := by
  obtain ⟨serial, attributes, stored, hnames, hread⟩ := h.exists_file
  obtain ⟨serial', attributes', stored', hnames', hread'⟩ := h'.exists_file
  obtain ⟨serial₁, serial₂, attributes₁, attributes₂, hfile, hfile', hmode⟩ := hsame.file_eq
  have hother : place ≠ names → stored' = stored := fun hplace =>
    content_eq_of_look (hsame.look_eq names h.ne_nil h.shown (Ne.symm hplace)) hnames hnames'
  have hsole : place = names → stored = content ∧ stored' = content' := by
    rintro rfl
    exact ⟨(Node.file.inj (Option.some.inj (hnames.symm.trans hfile))).2.2,
      (Node.file.inj (Option.some.inj (hnames'.symm.trans hfile'))).2.2⟩
  have halike := create_alike (revised_renewAt hsame hignore h.link_ne) h.find?_eq h'.find?_eq
    h.isDirectory h'.isDirectory h.wellNamed h'.wellNamed hread hread'
  generalize create fs (some context) dockerfile = sent at halike
  generalize create fs' (some context) dockerfile = sent' at halike
  cases halike with
  | failed error => exact .unseen _
  | done halike =>
    cases halike with
    | @intro places listed held name path hlisting hentered hheld =>
      by_cases hmem : place ∈ places
      · -- the file has an entry of its own
        obtain ⟨before, after, hlisted, hrevised⟩ :=
          reviseAll_renewAt hfile hentered hlisting.nodup hmem content'
        rw [hrevised, hlisted]
        by_cases hlast : held = true ∨ stored' = stored
        · have hrest : before ++ ⟨Bytes.join Bytes.slash place, attributes₁.mode, .file content'⟩ ::
              after ++ (if held then [] else [⟨path, ArchiveEntry.memoryMode, .file stored'⟩]) =
              before ++ ⟨Bytes.join Bytes.slash place, attributes₁.mode, .file content'⟩ ::
                (after ++ if held then [] else [⟨path, ArchiveEntry.memoryMode, .file stored⟩]) := by
            rcases hlast with rfl | rfl <;> simp
          rw [hrest, List.append_assoc, List.cons_append]
          exact .own name before _ _
        · -- the Dockerfile is listed as well, but not under its path
          obtain ⟨hnotHeld, hchanged⟩ := not_or.mp hlast
          obtain rfl := Classical.byContradiction fun hne => hchanged (hother hne)
          obtain ⟨rfl, rfl⟩ := hsole rfl
          obtain rfl : held = false := Bool.eq_false_iff.mpr hnotHeld
          refine .twice rfl (fun hdirect => ?_) name before _ after path _
          rw [(h.holds_iff hlisting hdirect).mpr hmem] at hheld
          exact Bool.false_ne_true hheld.symm
      · rw [reviseAll_renewAt_of_not_mem hentered.length_eq hmem]
        by_cases hlast : held = true ∨ stored' = stored
        · rcases hlast with rfl | rfl
          · exact .unseen _
          · exact .unseen _
        · -- the file is the Dockerfile and was left out
          obtain ⟨hnotHeld, hchanged⟩ := not_or.mp hlast
          obtain rfl := Classical.byContradiction fun hne => hchanged (hother hne)
          obtain ⟨rfl, rfl⟩ := hsole rfl
          obtain rfl : held = false := Bool.eq_false_iff.mpr hnotHeld
          exact .last rfl name listed path _

/-- What is sent does not depend on the directory of the lock or on anything outside the context,
and a file that is no ignore file leaves nothing out, whatever its name and its text are. -/
theorem create_indifferent (h : HasDockerfile fs context dockerfile root names)
    (h' : HasDockerfile fs' context dockerfile root' names) :
    (ShowSame root root' →
      create fs' (some context) dockerfile = create fs (some context) dockerfile) ∧
    ∀ place content content', ShowSameBut place content content' root root' →
      place.getLast? ≠ some ignoreFile.text →
      AlikeBut place names (dockerfile.components = context.components ++ names.map .named) content
        content' (create fs (some context) dockerfile) (create fs' (some context) dockerfile) :=
  ⟨create_eq_of_showSame h h', fun _ _ _ => create_of_showSameBut h h'⟩

end

/-- The directory of the lock makes no difference. -/
theorem showSame_visibleEntries (attributes attributes' : Attributes)
    (entries : List (Bytes × Node)) :
    ShowSame (.directory attributes entries) (.directory attributes' (visibleEntries entries)) := by
  intro place hne hshown
  cases place with
  | nil => exact absurd rfl hne
  | cons name rest =>
    have hname : name ≠ Bytes.ofString RunLock.directoryName := by
      rintro rfl
      exact hshown rfl
    rw [Node.at?, Node.at?, visibleEntries, ← Node.eraseEntry, Node.child?_eraseEntry_of_ne hname]

/-- Another content in the place of a file. -/
theorem showSameBut_modify {root : Node} {place : Location} {serial : Serial}
    {attributes : Attributes} {content : Bytes}
    (hat : root.at? place = some (.file serial attributes content)) (content' : Bytes) :
    ShowSameBut place content content' root
      (root.modify (fun _ => .file serial attributes content') place) where
  file_eq := ⟨serial, serial, attributes, attributes, hat,
    by rw [Node.at?_modify_self, hat]; rfl, rfl⟩
  look_eq other hne hshown hother := by
    by_cases hbelow : place <+: other
    · obtain ⟨rest, rfl⟩ := hbelow
      cases rest with
      | nil => simp at hother
      | cons name rest =>
        rw [Node.at?_modify_append, Node.at?_append, hat]
        rfl
    · exact Node.map_modify_of_not_prefix Node.look (fun _ _ _ => rfl) _ hbelow root

namespace Sample

def guarded : Node := folder
  [(".gitignore", file "*.rs\n"),
    (".shipwright", folder [(".dockerignore", file "*\n"), ("publish.lock", file "")]),
    ("Dockerfile", file "FROM scratch"), ("main.rs", file "fn main() {}")]

def unguarded : Node := .directory ⟨0o755, .epoch⟩ (visibleEntries guarded.entries)

def emptied : Node :=
  .directory ⟨0o755, .epoch⟩
    (Node.putEntry (Bytes.ofString ".gitignore") (file "") unguarded.entries)

theorem hasDockerfile_disk {context : Node}
    (hcontext : (disk "app" context).place .follow (.ofString "app") =
      .ok (.taken [Bytes.ofString "app"]))
    (hdockerfile : (disk "app" context).place .follow (.ofString "app/Dockerfile") =
      .ok (.taken [Bytes.ofString "app", Bytes.ofString "Dockerfile"]))
    (hface : (context.at? [Bytes.ofString "Dockerfile"]).map Node.face =
      some (file "FROM scratch").face)
    (hdirectory : context.isDirectory = true) (hnamed : context.WellNamed)
    (hlinks : context.all (!Node.isLink ·) = true) :
    HasDockerfile (disk "app" context) (.ofString "app") (.ofString "app/Dockerfile") context
      [Bytes.ofString "Dockerfile"] where
  resolve_eq := by
    have hroot : (disk "app" context).root.at? [Bytes.ofString "app"] = some context := by
      simp [disk, folder, Node.at?, Node.child?]
    obtain ⟨node, hat, hnode⟩ := Option.map_eq_some_iff.mp hface
    refine ⟨_, 0, ⟨0o644, .epoch⟩, Bytes.ofString "FROM scratch",
      resolve_eq_present_iff.mpr ⟨hcontext, hroot⟩, resolve_eq_present_iff.mpr ⟨hdockerfile, ?_⟩⟩
    rw [Node.at?_append, hroot, Option.bind_some, hat, Node.eq_file_of_face hnode]
  isDirectory := hdirectory
  wellNamed := hnamed
  shown := by
    show some (Bytes.ofString "Dockerfile") ≠ some (Bytes.ofString RunLock.directoryName)
    decide +kernel
  link_ne place target _ := Node.ne_link_of_all hlinks _ target

theorem hasDockerfile_guarded :
    HasDockerfile (disk "app" guarded) (.ofString "app") (.ofString "app/Dockerfile") guarded
      [Bytes.ofString "Dockerfile"] :=
  hasDockerfile_disk (by decide +kernel) (by decide +kernel) (by decide +kernel) rfl
    (Node.throughout_of_all (by decide +kernel)) (by decide +kernel)

theorem hasDockerfile_unguarded :
    HasDockerfile (disk "app" unguarded) (.ofString "app") (.ofString "app/Dockerfile") unguarded
      [Bytes.ofString "Dockerfile"] :=
  hasDockerfile_disk (by decide +kernel) (by decide +kernel) (by decide +kernel) rfl
    (Node.throughout_of_all (by decide +kernel)) (by decide +kernel)

theorem hasDockerfile_emptied :
    HasDockerfile (disk "app" emptied) (.ofString "app") (.ofString "app/Dockerfile") emptied
      [Bytes.ofString "Dockerfile"] :=
  hasDockerfile_disk (by decide +kernel) (by decide +kernel) (by decide +kernel)
    (by decide +kernel) (Node.throughout_of_all (by decide +kernel)) (by decide +kernel)

theorem showSame_guarded : ShowSame guarded unguarded := showSame_visibleEntries _ _ _

theorem showSameBut_unguarded :
    ShowSameBut [Bytes.ofString ".gitignore"] (Bytes.ofString "*.rs\n") (Bytes.ofString "")
      unguarded emptied := by
  have hface : (unguarded.at? [Bytes.ofString ".gitignore"]).map Node.face =
      some (file "*.rs\n").face := by decide +kernel
  obtain ⟨node, hat, hnode⟩ := Option.map_eq_some_iff.mp hface
  rw [Node.eq_file_of_face hnode] at hat
  have hemptied : unguarded.modify (fun _ => file "") [Bytes.ofString ".gitignore"] = emptied := by
    have hchild : Node.child? (Bytes.ofString ".gitignore") unguarded.entries =
        some (file "*.rs\n") := (Node.at?_concat (Node.at?_nil unguarded) _).symm.trans hat
    rw [unguarded, Node.modify]
    rw [unguarded, Node.entries] at hchild
    rw [hchild]
    rfl
  exact hemptied ▸ showSameBut_modify hat (Bytes.ofString "")

def sent (rules : String) : BuildContext where
  dockerfile := "Dockerfile"
  entries := [fileEntry ".gitignore" rules, fileEntry "Dockerfile" "FROM scratch",
    fileEntry "main.rs" "fn main() {}"]

theorem below?_dockerfile : (Path.ofString "app/Dockerfile").below? (.ofString "app") =
    some (.ofString "Dockerfile") := by
  decide +kernel

theorem create_unguarded :
    create (disk "app" unguarded) (some (.ofString "app")) (.ofString "app/Dockerfile") =
      .ok (sent "*.rs\n") := by
  have horder : unguarded.all (InOrder ·.entries) = true := by decide +kernel
  have hread : (disk "app" unguarded).read (.ofString "app/Dockerfile") =
      .ok (Bytes.ofString "FROM scratch") := by
    decide +kernel
  rw [create_eq_of_tour horder hread hasDockerfile_unguarded.find?_eq below?_dockerfile]
  decide +kernel

theorem create_emptied :
    create (disk "app" emptied) (some (.ofString "app")) (.ofString "app/Dockerfile") =
      .ok (sent "") := by
  have horder : emptied.all (InOrder ·.entries) = true := by decide +kernel
  have hread : (disk "app" emptied).read (.ofString "app/Dockerfile") =
      .ok (Bytes.ofString "FROM scratch") := by
    decide +kernel
  rw [create_eq_of_tour horder hread hasDockerfile_emptied.find?_eq below?_dockerfile]
  decide +kernel

end Sample

/-- The rules in the directory of the lock would leave out everything, and those of another kind are
taken away. -/
theorem create_indifferent_hidden_rules :
    let context := Path.ofString "app"
    let dockerfile := Path.ofString "app/Dockerfile"
    let names := [Bytes.ofString "Dockerfile"]
    HasDockerfile (Sample.disk "app" Sample.guarded) context dockerfile Sample.guarded names ∧
      HasDockerfile (Sample.disk "app" Sample.unguarded) context dockerfile Sample.unguarded names ∧
      HasDockerfile (Sample.disk "app" Sample.emptied) context dockerfile Sample.emptied names ∧
      create (Sample.disk "app" Sample.guarded) (some context) dockerfile =
        .ok (Sample.sent "*.rs\n") ∧
      ∃ name before mode after,
        Sample.sent "*.rs\n" = ⟨name, before ++
          ⟨Bytes.ofString ".gitignore", mode, .file (Bytes.ofString "*.rs\n")⟩ :: after⟩ ∧
        Sample.sent "" = ⟨name, before ++
          ⟨Bytes.ofString ".gitignore", mode, .file (Bytes.ofString "")⟩ :: after⟩ := by
  intro context dockerfile names
  refine ⟨Sample.hasDockerfile_guarded, Sample.hasDockerfile_unguarded,
    Sample.hasDockerfile_emptied, ?_, ?_⟩
  · rw [← (create_indifferent Sample.hasDockerfile_guarded Sample.hasDockerfile_unguarded).1
      Sample.showSame_guarded]
    exact Sample.create_unguarded
  · have hplace : [Bytes.ofString ".gitignore"] ≠ names := by decide +kernel
    have hdiffer : Sample.sent "" ≠ Sample.sent "*.rs\n" := by decide +kernel
    have hbut := (create_indifferent Sample.hasDockerfile_unguarded
      Sample.hasDockerfile_emptied).2 _ _ _ Sample.showSameBut_unguarded (by decide +kernel)
    rw [Sample.create_unguarded, Sample.create_emptied] at hbut
    generalize hsent : Except.ok (Sample.sent "*.rs\n") = sent at hbut
    generalize hsent' : Except.ok (Sample.sent "") = sent' at hbut
    cases hbut with
    | unseen => exact absurd (Except.ok.inj (hsent'.trans hsent.symm)) hdiffer
    | own name before mode after =>
      exact ⟨name, before, mode, after, Except.ok.inj hsent, Except.ok.inj hsent'⟩
    | last isDockerfile => exact absurd isDockerfile hplace
    | twice isDockerfile => exact absurd isDockerfile hplace

end BuildContext

end ReleasePublisher
