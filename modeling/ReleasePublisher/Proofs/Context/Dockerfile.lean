import ReleasePublisher.Proofs.Context.Entries
import ReleasePublisher.Proofs.FileSystem.Descent
import ReleasePublisher.Proofs.Text.Encoding

/-!
What is sent as a context. A directory is sent as its listing, and the Dockerfile once: in its place
in the listing or, where it was left out, at the end.
-/
namespace ReleasePublisher

open ReleasePublisher.Path (IsFileName)

namespace BuildContext

open FileSystem

variable {fs : FileSystem} {context dockerfile relative : Path} {root : Node} {text : String}
  {content : Bytes} {built : BuildContext}

/-- A Dockerfile below a context with proper names, under a text without a backslash. -/
structure Below (fs : FileSystem) (context dockerfile : Path) (root : Node) (text : String) :
    Prop where
  find_eq : fs.find? context = some root
  wellNamed : root.WellNamed
  below_eq : dockerfile.below? context = some (.ofString text)
  backslash_notMem : '\\' ∉ text.toList

theorem display_ofString (text : String) : (Path.ofString text).display = text := by
  rw [Path.display, Path.ofString, Utf8.lossy, Utf8.decode?_ofString]

theorem slashed_eq_self (h : '\\' ∉ text.toList) : slashed text = text := by
  have hkeep : text.toList.map (fun c => if c = '\\' then '/' else c) = text.toList :=
    (List.map_congr_left fun c hc => if_neg fun heq : c = '\\' => h (heq ▸ hc)).trans
      (List.map_id _)
  rw [slashed, hkeep, String.ofList_toList]

theorem exists_find_of_read (h : fs.read dockerfile = .ok content) :
    ∃ found, fs.find .follow dockerfile = .ok found ∧ contentOf found = .ok content := by
  rw [FileSystem.read] at h
  split at h
  next found hfound => exact ⟨found, hfound, h⟩
  next => simp at h

/-- What is known of a context that has been made of a directory. -/
theorem exists_of_create (h : create fs (some context) dockerfile = .ok built) :
    ∃ content attributes entries relative listed,
      fs.read dockerfile = .ok content ∧
      fs.find? context = some (.directory attributes entries) ∧
      dockerfile.below? context = some relative ∧
      entriesOf (walkContext fs context entries) = .ok listed ∧
      built.dockerfile = slashed relative.display ∧
      if holds dockerfile (walkContext fs context entries) then built.entries = listed
      else ∃ entry, dockerfileEntry built.dockerfile content = .ok entry ∧
        built.entries = listed ++ [entry] := by
  rw [create] at h
  split at h
  · simp at h
  next content hread =>
    simp only [ofDirectory] at h
    split at h
    next attributes entries hfind =>
      split at h
      · simp at h
      next relative hbelow =>
        split at h
        · simp at h
        next listed hlisted =>
          refine ⟨content, attributes, entries, relative, listed, hread, hfind, hbelow, hlisted, ?_⟩
          split at h
          next hholds =>
            obtain rfl := Except.ok.inj h
            exact ⟨rfl, by rw [if_pos hholds]⟩
          next hholds =>
            rw [if_neg hholds]
            cases hentry : dockerfileEntry (slashed relative.display) content with
            | error fault => simp [hentry, Except.map] at h
            | ok entry =>
              rw [hentry] at h
              obtain rfl := Except.ok.inj h
              exact ⟨rfl, entry, hentry, rfl⟩
    next => simp at h

/-- What is sent of a context whose directories are in name order. -/
theorem create_eq_of_tour {attributes : Attributes} {entries : List (Bytes × Node)}
    (horder : (Node.directory attributes entries).all (InOrder ·.entries) = true)
    (hread : fs.read dockerfile = .ok content)
    (hfind : fs.find? context = some (.directory attributes entries))
    (hbelow : dockerfile.below? context = some relative) :
    create fs (some context) dockerfile =
      let name := slashed relative.display
      let found := tourEntries fs [.of context (rulesIn fs context entries)] context []
        (visibleEntries entries)
      ((entriesOf found).mapError .io).bind fun listed =>
        if holds dockerfile found then .ok ⟨name, listed⟩
        else (dockerfileEntry name content).map fun entry => ⟨name, listed ++ [entry]⟩ := by
  have hdirectory : create fs (some context) dockerfile =
      ofDirectory fs context dockerfile content := by rw [create, hread]
  have htour : walkContext fs context entries = _ := walkContext_eq_tour horder
  rw [hdirectory, ofDirectory, hfind]
  simp only [hbelow, htour]
  generalize entriesOf _ = listed
  cases listed <;> rfl

theorem text_ne_nil_of_find {last : LastLink} {path : Path} {node : Node}
    (h : fs.find last path = .ok node) : path.text ≠ [] := by
  intro hnil
  rw [find, resolve_eq, pathFault?, hnil] at h
  simp at h

/-- The rest of a path below a context has no `.` and no separator at its end. -/
theorem components_of_below (h : dockerfile.below? context = some relative)
    (hcontext : context.text ≠ []) :
    dockerfile.components = context.components ++ relative.components ∧
      relative.steps = relative.components ∧ ArchiveEntry.endsWithSlash relative = false := by
  obtain ⟨hcomponents, hend, pieces, -, hpieces⟩ := Path.components_of_below? h hcontext
  refine ⟨hcomponents, ?_, beq_eq_false_iff_ne.mpr hend⟩
  rw [Path.steps, hpieces, Path.componentsOf, Path.filter_ne_here_componentOf]

/-- A Dockerfile that comes last is entered under its names. -/
theorem exists_names_of_dockerfileEntry {entry : ArchiveEntry}
    (h : dockerfileEntry text content = .ok entry)
    (hsteps : (Path.ofString text).steps = (Path.ofString text).components)
    (hend : ArchiveEntry.endsWithSlash (.ofString text) = false) :
    ∃ names, (∀ name ∈ names, IsFileName name) ∧ names ≠ [] ∧
      (Path.ofString text).components = names.map .named ∧
      entry = ⟨Bytes.join Bytes.slash names, ArchiveEntry.memoryMode, .file content⟩ := by
  rw [dockerfileEntry, ArchiveEntry.ofMemory] at h
  cases hfield : ArchiveEntry.fieldText (.ofString text) with
  | error fault => simp [hfield, Except.map] at h
  | ok field =>
    obtain rfl : ⟨field, ArchiveEntry.memoryMode, .file content⟩ = entry := by
      simpa [hfield, Except.map] using h
    obtain ⟨names, hplain, hnames, rfl⟩ := ArchiveEntry.fieldText_eq hfield
    have hcomponents := hsteps.symm.trans hnames
    have hne : names ≠ [] := by
      rintro rfl
      simp [ArchiveEntry.fieldText, ArchiveEntry.writtenText, hcomponents,
        ArchiveEntry.writeComponents, bind, Except.bind] at hfield
    exact ⟨names, hplain, hne, hcomponents, by simp [hne, hend]⟩

/-- The Dockerfile counts as found on the walk if some place but a directory has its components. -/
theorem holds_iff {places : List Location} (hnamed : root.WellNamed)
    (hplaces : ∀ place ∈ places, root.at? place ≠ none)
    (hcomponents : dockerfile.components = context.components ++ relative.components) :
    holds dockerfile (places.map (foundAt context root)) = true ↔
      ∃ place ∈ places, (root.at? place).any Node.isDirectory = false ∧
        relative.components = place.map .named := by
  rw [holds, List.any_map, List.any_eq_true]
  refine exists_congr fun place => and_congr_right fun hplace => ?_
  have hplain := isFileName_of_at? hnamed (hplaces place hplace)
  show (!(root.at? place).any Node.isDirectory && (pathAt context place).same dockerfile) = true ↔ _
  rw [Bool.and_eq_true, Bool.not_eq_true', Path.same, beq_iff_eq, components_pathAt context hplain,
    hcomponents, List.append_cancel_left_eq]
  exact and_congr_right fun _ => eq_comm

/-- A Dockerfile that can be read is no directory of the context. -/
theorem isDirectory_eq_false_of_read {place : Location} {node : Node} {content : Bytes}
    (hcontext : fs.find? context = some root) (hread : fs.read dockerfile = .ok content)
    (hcomponents : dockerfile.components = context.components ++ place.map .named)
    (hplain : ∀ name ∈ place, IsFileName name) (hne : place ≠ [])
    (hat : root.at? place = some node) : node.isDirectory = false := by
  cases node with
  | directory attributes entries =>
    obtain ⟨found, hfound, hcontent⟩ := exists_find_of_read hread
    obtain rfl := find_down (eq_ok_of_toOption hcontext) hfound hcomponents hplain hne hat (by simp)
    simp [contentOf] at hcontent
  | _ => rfl

/-- What is sent for a directory: its listing, and the Dockerfile where that leaves it out. -/
theorem exists_listing (hbelow : Below fs context dockerfile root text)
    (h : create fs (some context) dockerfile = .ok built) :
    ∃ places listed names content,
      IsListing fs context root places ∧ List.Forall₂ (Entered context root) places listed ∧
      (Path.ofString text).components = names.map .named ∧
      (names ≠ [] ∧ ∀ name ∈ names, IsFileName name) ∧
      fs.read dockerfile = .ok content ∧ built.dockerfile = text ∧
      built.entries = listed ++
        if names ∈ places then []
        else [⟨Bytes.join Bytes.slash names, ArchiveEntry.memoryMode, .file content⟩] := by
  obtain ⟨hcontext, hnamed, hrelative, hbackslash⟩ := hbelow
  obtain ⟨content, attributes, entries, relative, listed, hread, hfind, hsame, hlisted, hname,
    hentries⟩ := exists_of_create h
  have hroot : root = .directory attributes entries := Option.some.inj (hcontext.symm.trans hfind)
  obtain rfl : .ofString text = relative := Option.some.inj (hrelative.symm.trans hsame)
  rw [display_ofString, slashed_eq_self hbackslash] at hname
  rw [hname] at hentries
  obtain ⟨places, hlisting, hfound⟩ := exists_isListing fs context hroot hnamed
  have hplaces : ∀ place ∈ places, place ≠ [] ∧ root.at? place ≠ none := fun place hplace =>
    ⟨((hlisting.mem_iff place).mp hplace).1, ((hlisting.mem_iff place).mp hplace).2.1⟩
  obtain ⟨hcomponents, hsteps, hend⟩ :=
    components_of_below hrelative (text_ne_nil_of_find (eq_ok_of_toOption hcontext))
  have hholds := holds_iff hnamed (fun place hplace => (hplaces place hplace).2) hcomponents
  rw [hfound] at hlisted hentries
  have hentered := forall₂_entered hnamed hplaces hlisted
  split at hentries
  next hheld =>
    obtain ⟨names, hmem, -, hnames⟩ := hholds.mp hheld
    have hplain := isFileName_of_at? hnamed (hplaces names hmem).2
    exact ⟨places, listed, names, content, hlisting, hentered, hnames,
      ⟨(hplaces names hmem).1, hplain⟩, hread, hname,
      by rw [hentries, if_pos hmem, List.append_nil]⟩
  next hheld =>
    obtain ⟨entry, hentry, hentries⟩ := hentries
    obtain ⟨names, hplain, hne, hnames, rfl⟩ := exists_names_of_dockerfileEntry hentry hsteps hend
    have hmem : names ∉ places := by
      intro hmem
      obtain ⟨node, hat⟩ := Option.ne_none_iff_exists'.mp (hplaces names hmem).2
      have hleaf :=
        isDirectory_eq_false_of_read hcontext hread (hnames ▸ hcomponents) hplain hne hat
      exact hheld (hholds.mpr ⟨names, hmem, by rw [hat]; exact hleaf, hnames⟩)
    exact ⟨places, listed, names, content, hlisting, hentered, hnames, ⟨hne, hplain⟩, hread, hname,
      by rw [hentries, if_neg hmem]⟩

/-- Names of entries can be told apart in the path that they make. -/
theorem join_injective {names names' : List Bytes} (hplain : ∀ name ∈ names, IsFileName name)
    (hplain' : ∀ name ∈ names', IsFileName name)
    (h : Bytes.join Bytes.slash names = Bytes.join Bytes.slash names') : names = names' := by
  apply Path.named_injective
  rw [← Path.components_join hplain, ← Path.components_join hplain', h]

/-- Without pipes, what is sent is entered under its place. -/
theorem map_path_of_entered {places : List Location} {listed : List ArchiveEntry}
    (hfree : root.SpecialFree) (h : List.Forall₂ (Entered context root) places listed) :
    listed.map ArchiveEntry.path = places.map (Bytes.join Bytes.slash) := by
  induction h with
  | nil => rfl
  | cons hentered hrest ih =>
    obtain ⟨node, hat, hentry⟩ := hentered
    rw [List.map_cons, List.map_cons, ih]
    cases hentry with
    | pipe => exact absurd (hfree _ _ hat) (by simp [Node.isSpecial])
    | _ => rfl

/-- What is sent of a directory: its listing, and behind it the Dockerfile if that leaves it out. -/
structure SentAs (fs : FileSystem) (context dockerfile : Path) (root : Node) (text : String)
    (built : BuildContext) (places : List Location) (listed : List ArchiveEntry) (names : Location)
    (content : Bytes) : Prop where
  isListing : IsListing fs context root places
  entered : List.Forall₂ (Entered context root) places listed
  components_eq : (Path.ofString text).components = names.map .named
  read_eq : fs.read dockerfile = .ok content
  entries_eq : built.entries = listed ++
    if names ∈ places then []
    else [⟨Bytes.join Bytes.slash names, ArchiveEntry.memoryMode, .file content⟩]
  nodup : (built.entries.map ArchiveEntry.path).Nodup

/-- A directory of files, directories and links is sent as its listing. Each entry has a path of its
own, also the Dockerfile that comes last. -/
theorem create_lists (hbelow : Below fs context dockerfile root text) (hfree : root.SpecialFree)
    (h : create fs (some context) dockerfile = .ok built) :
    ∃ places listed names content,
      SentAs fs context dockerfile root text built places listed names content := by
  obtain ⟨places, listed, names, content, hlisting, hentered, hnames, ⟨-, hplain⟩, hread, -,
    hentries⟩ := exists_listing hbelow h
  refine ⟨places, listed, names, content, hlisting, hentered, hnames, hread, hentries, ?_⟩
  have hplaces : ∀ place ∈ places, ∀ name ∈ place, IsFileName name := fun place hplace =>
    isFileName_of_at? hbelow.wellNamed ((hlisting.mem_iff place).mp hplace).2.1
  have hlisted : (listed.map ArchiveEntry.path).Nodup := by
    rw [map_path_of_entered hfree hentered]
    refine List.pairwise_map.mpr (hlisting.nodup.imp_of_mem fun hplace hother hne hsame => ?_)
    exact hne (join_injective (hplaces _ hplace) (hplaces _ hother) hsame)
  rw [hentries]
  split
  · rwa [List.append_nil]
  · next hmem =>
    rw [List.map_append, map_path_of_entered hfree hentered] at *
    refine List.nodup_append.mpr ⟨hlisted, by simp, ?_⟩
    intro path hpath other hother
    obtain ⟨place, hplace, rfl⟩ := List.mem_map.mp hpath
    obtain rfl : other = Bytes.join Bytes.slash names := by simpa using hother
    intro hsame
    exact hmem (join_injective (hplaces place hplace) hplain hsame ▸ hplace)

namespace Sample

def file (content : String) : Node := .file 0 ⟨0o644, .epoch⟩ (Bytes.ofString content)

def folder (entries : List (String × Node)) : Node :=
  .directory ⟨0o755, .epoch⟩ (entries.map fun e => (Bytes.ofString e.1, e.2))

def disk (name : String) (context : Node) : FileSystem :=
  ⟨folder [(name, context)], ⟨[], 0⟩, .epoch, 1⟩

theorem find?_disk {name : String} {context : Node}
    (hplace : (disk name context).place .follow (.ofString name) =
      .ok (.taken [Bytes.ofString name])) :
    (disk name context).find? (.ofString name) = some context := by
  have hat : (disk name context).root.at? [Bytes.ofString name] = some context := by
    simp [disk, folder, Node.at?, Node.child?]
  rw [find?, find, resolve_eq_present_iff.mpr ⟨hplace, hat⟩]
  rfl

/-- The Dockerfile is left out, and so is a directory with a file in it that is named again. -/
def app : Node := folder
  [(".dockerignore", file "build\n!build/keep\n*.log\nDockerfile\n"),
    (".shipwright", folder [("publish.lock", file "")]),
    ("Dockerfile", file "FROM scratch"),
    ("build", folder [("keep", file "k")]),
    ("debug.log", file "d"),
    ("latest", .link (Bytes.ofString "src//main.rs")),
    ("src", folder
      [(".dockerignore", file "!trace.log\n"), ("main.rs", file "fn main() {}"),
        ("trace.log", file "t")])]

def entry (path : String) (mode : Nat) (kind : EntryKind) : ArchiveEntry :=
  ⟨Bytes.ofString path, mode, kind⟩

def fileEntry (path content : String) : ArchiveEntry :=
  entry path 0o644 (.file (Bytes.ofString content))

def appSent : BuildContext where
  dockerfile := "Dockerfile"
  entries :=
    [fileEntry ".dockerignore" "build\n!build/keep\n*.log\nDockerfile\n",
      entry "latest" 0o777 (.link (Bytes.ofString "src/main.rs")),
      entry "src" 0o755 .directory,
      fileEntry "src/.dockerignore" "!trace.log\n",
      fileEntry "src/main.rs" "fn main() {}",
      fileEntry "src/trace.log" "t",
      fileEntry "Dockerfile" "FROM scratch"]

theorem find?_app : (disk "app" app).find? (.ofString "app") = some app :=
  find?_disk (by decide +kernel)

theorem create_app :
    create (disk "app" app) (some (.ofString "app")) (.ofString "app/Dockerfile") =
      .ok appSent := by
  have horder : app.all (InOrder ·.entries) = true := by decide +kernel
  have hread : (disk "app" app).read (.ofString "app/Dockerfile") =
      .ok (Bytes.ofString "FROM scratch") := by
    decide +kernel
  have hbelow : (Path.ofString "app/Dockerfile").below? (.ofString "app") =
      some (.ofString "Dockerfile") := by
    decide +kernel
  rw [create_eq_of_tour horder hread find?_app hbelow]
  decide +kernel

theorem below_app :
    Below (disk "app" app) (.ofString "app") (.ofString "app/Dockerfile") app "Dockerfile" :=
  ⟨find?_app, Node.throughout_of_all (by decide +kernel), by decide +kernel, by decide +kernel⟩

theorem specialFree_app : app.SpecialFree := Node.throughout_of_all (by decide +kernel)

def letters : Node :=
  .directory ⟨0o755, .epoch⟩
    [(Bytes.ofString ".dockerignore", file "*\n!\uFFFD\n!l\n"),
      (Bytes.ofString "l", .link (Bytes.ofString "a//b")),
      (Bytes.ofString "\uFFFD", file "A"), ([0xFF], file "B")]

def lettersSent : BuildContext where
  dockerfile := "\uFFFD"
  entries := [entry "l" 0o777 (.link (Bytes.ofString "a/b")), fileEntry "\uFFFD" "A",
    fileEntry "\uFFFD" "B"]

theorem find?_letters : (disk "c" letters).find? (.ofString "c") = some letters :=
  find?_disk (by decide +kernel)

theorem create_letters :
    create (disk "c" letters) (some (.ofString "c")) ⟨Bytes.ofString "c/" ++ [0xFF]⟩ =
      .ok lettersSent := by
  have horder : letters.all (InOrder ·.entries) = true := by decide +kernel
  have hread : (disk "c" letters).read ⟨Bytes.ofString "c/" ++ [0xFF]⟩ =
      .ok (Bytes.ofString "B") := by
    decide +kernel
  have hbelow : (⟨Bytes.ofString "c/" ++ [0xFF]⟩ : Path).below? (.ofString "c") =
      some ⟨[0xFF]⟩ := by
    decide +kernel
  rw [create_eq_of_tour horder hread find?_letters hbelow]
  decide +kernel

end Sample

/-- What is named again in a directory that is left out is left out with it, and the Dockerfile,
which is left out as well, comes last. -/
theorem create_lists_excluded_dockerfile :
    let fs := Sample.disk "app" Sample.app
    let context := Path.ofString "app"
    let dockerfile := Path.ofString "app/Dockerfile"
    Below fs context dockerfile Sample.app "Dockerfile" ∧ Sample.app.SpecialFree ∧
      create fs (some context) dockerfile = .ok Sample.appSent ∧
      ∃ places listed names content,
        SentAs fs context dockerfile Sample.app "Dockerfile" Sample.appSent places listed names
          content :=
  ⟨Sample.below_app, Sample.specialFree_app, Sample.create_app,
    create_lists Sample.below_app Sample.specialFree_app Sample.create_app⟩

/-- A Dockerfile whose name is not text may come last under a path that is in the listing already.
And the target of a link is not always sent as it is written. -/
theorem not_lists_of_unreadable_name :
    let fs := Sample.disk "c" Sample.letters
    let dockerfile : Path := ⟨Bytes.ofString "c/" ++ [0xFF]⟩
    fs.find? (.ofString "c") = some Sample.letters ∧ Sample.letters.WellNamed ∧
      Sample.letters.SpecialFree ∧ dockerfile.below? (.ofString "c") = some ⟨[0xFF]⟩ ∧
      create fs (some (.ofString "c")) dockerfile = .ok Sample.lettersSent ∧
      ¬ (Sample.lettersSent.entries.map ArchiveEntry.path).Nodup ∧
      Sample.letters.at? [Bytes.ofString "l"] = some (.link (Bytes.ofString "a//b")) ∧
      ∀ entry ∈ Sample.lettersSent.entries, entry.kind ≠ .link (Bytes.ofString "a//b") := by
  have hnamed : Sample.letters.WellNamed := Node.throughout_of_all (by decide +kernel)
  exact ⟨Sample.find?_letters, hnamed, Node.throughout_of_all (by decide +kernel),
    by decide +kernel, Sample.create_letters, by decide +kernel, hnamed.at?_cons (by simp) [],
    by decide +kernel⟩

/-- Which entries have a property that singles out one place. -/
theorem filter_of_forall₂ {places : List Location} {listed : List ArchiveEntry} {names : Location}
    {p : ArchiveEntry → Bool} (h : List.Forall₂ (Entered context root) places listed)
    (hnodup : places.Nodup)
    (hp : ∀ place entry, Entered context root place entry → (p entry = true ↔ place = names)) :
    if names ∈ places then ∃ entry, Entered context root names entry ∧ listed.filter p = [entry]
    else listed.filter p = [] := by
  induction h with
  | nil => simp
  | @cons place entry places listed hentered hrest ih =>
    obtain ⟨hfirst, hnodup⟩ := List.nodup_cons.mp hnodup
    have hinner := ih hnodup
    by_cases hplace : place = names
    · subst hplace
      rw [if_neg hfirst] at hinner
      rw [if_pos List.mem_cons_self, List.filter_cons_of_pos ((hp _ _ hentered).mpr rfl), hinner]
      exact ⟨entry, hentered, rfl⟩
    · have hmem : names ∈ place :: places ↔ names ∈ places := by simp [Ne.symm hplace]
      rw [List.filter_cons_of_neg fun hholds => hplace ((hp _ _ hentered).mp hholds)]
      simpa only [hmem] using hinner

/-- A Dockerfile that is a regular file of a context, under plain names. No pipe is reached by a
path that reads like these. -/
structure PlainlyBelow (fs : FileSystem) (context dockerfile : Path) (root : Node) (text : String)
    (names : Location) : Prop extends Below fs context dockerfile root text where
  components_eq : (Path.ofString text).components = names.map .named
  isFile : ∃ serial attributes content, root.at? names = some (.file serial attributes content)
  pipe_ne : ∀ place attributes, root.at? place = some (.special .pipe attributes) →
    (pathAt context place).steps ≠ names.map .named

namespace PlainlyBelow

variable {names : Location}

/-- Only what is at the place of the Dockerfile is entered under a path that reads like its own. -/
theorem same_iff (h : PlainlyBelow fs context dockerfile root text names) {place : Location}
    {entry : ArchiveEntry} (hentered : Entered context root place entry) :
    (⟨entry.path⟩ : Path).same (.ofString text) = true ↔ place = names := by
  obtain ⟨node, hat, hentry⟩ := hentered
  have hplain := isFileName_of_at? h.wellNamed (Option.ne_none_iff_exists'.mpr ⟨node, hat⟩)
  have hjoin : (⟨Bytes.join Bytes.slash place⟩ : Path).same (.ofString text) = true ↔
      place = names := by
    rw [Path.same, beq_iff_eq, Path.components_join hplain, h.components_eq]
    exact ⟨Path.named_injective, fun heq => heq ▸ rfl⟩
  cases hentry with
  | pipe hsteps =>
    constructor
    · intro hsame
      rw [Path.same, beq_iff_eq, h.components_eq] at hsame
      rw [Path.steps_of_components_named hsame] at hsteps
      exact absurd hsteps.symm (h.pipe_ne place _ hat)
    · rintro rfl
      obtain ⟨serial, attributes, content, hfile⟩ := h.isFile
      simp [hat] at hfile
  | _ => exact hjoin

/-- What is read from the path of the Dockerfile is what stands in the context. -/
theorem exists_at? (h : PlainlyBelow fs context dockerfile root text names)
    (hne : names ≠ []) (hread : fs.read dockerfile = .ok content) :
    ∃ serial attributes, root.at? names = some (.file serial attributes content) := by
  obtain ⟨serial, attributes, content', hat⟩ := h.isFile
  have hplain := isFileName_of_at? h.wellNamed (Option.ne_none_iff_exists'.mpr ⟨_, hat⟩)
  have hcontext := eq_ok_of_toOption h.find_eq
  have hcomponents := (components_of_below h.below_eq (text_ne_nil_of_find hcontext)).1
  rw [h.components_eq] at hcomponents
  obtain ⟨found, hfound, hcontent⟩ := exists_find_of_read hread
  obtain rfl := find_down hcontext hfound hcomponents hplain hne hat (by simp)
  exact ⟨serial, attributes, by rw [hat, Except.ok.inj hcontent]⟩

end PlainlyBelow

/-- The single entry of a Dockerfile without a context. -/
theorem create_none (h : create fs none dockerfile = .ok built) :
    ∃ content names, fs.read dockerfile = .ok content ∧
      (Path.ofString built.dockerfile).components = names.map .named ∧
      (∀ name ∈ names, IsFileName name) ∧
      built.entries = [⟨Bytes.join Bytes.slash names, ArchiveEntry.memoryMode, .file content⟩] := by
  rw [create] at h
  split at h
  · simp at h
  next content hread =>
    simp only [ofDockerfile] at h
    cases hentry : dockerfileEntry loneDockerfile content with
    | error fault => simp [hentry, Except.map] at h
    | ok entry =>
      rw [hentry] at h
      obtain rfl := Except.ok.inj h
      obtain ⟨names, hplain, -, hnames, rfl⟩ :=
        exists_names_of_dockerfileEntry hentry (by decide +kernel) (by decide +kernel)
      exact ⟨content, names, hread, hnames, hplain, rfl⟩

theorem filter_same {names : Location} (hplain : ∀ name ∈ names, IsFileName name)
    (hnames : (Path.ofString text).components = names.map .named) (mode : Nat) (kind : EntryKind) :
    [(⟨Bytes.join Bytes.slash names, mode, kind⟩ : ArchiveEntry)].filter
        (fun e => (⟨e.path⟩ : Path).same (.ofString text)) =
      [⟨Bytes.join Bytes.slash names, mode, kind⟩] := by
  refine List.filter_eq_self.mpr fun entry hentry => ?_
  rw [List.mem_singleton.mp hentry, Path.same, beq_iff_eq, Path.components_join hplain, hnames]

/-- The Dockerfile is sent once, with its own content, and without a context nothing else is. -/
theorem create_holds_dockerfile {context : Option Path}
    (h : create fs context dockerfile = .ok built)
    (hplain : ∀ directory ∈ context, ∃ root text names,
      PlainlyBelow fs directory dockerfile root text names) :
    ∃ content names entry, fs.read dockerfile = .ok content ∧
      (Path.ofString built.dockerfile).components = names.map .named ∧
      built.entries.filter (fun e => (⟨e.path⟩ : Path).same (.ofString built.dockerfile)) =
        [entry] ∧
      entry.path = Bytes.join Bytes.slash names ∧ entry.kind = .file content ∧
      (context = none → built.entries = [entry]) := by
  cases context with
  | none =>
    obtain ⟨content, names, hread, hnames, hplain, hentries⟩ := create_none h
    refine ⟨content, names, ⟨_, ArchiveEntry.memoryMode, _⟩, hread, hnames, ?_, rfl, rfl,
      fun _ => hentries⟩
    rw [hentries, filter_same hplain hnames]
  | some context =>
    obtain ⟨root, text, names, hplain⟩ := hplain context rfl
    obtain ⟨places, listed, names', content, hlisting, hentered, hnames, ⟨hne, hplain'⟩, hread,
      hname, hentries⟩ := exists_listing hplain.toBelow h
    obtain rfl : names' = names := Path.named_injective (hnames.symm.trans hplain.components_eq)
    obtain ⟨serial, attributes, hat⟩ := hplain.exists_at? hne hread
    have hfilter := filter_of_forall₂ hentered hlisting.nodup fun place entry => hplain.same_iff
    rw [hname, hentries, List.filter_append]
    split at hfilter
    next hmem =>
      obtain ⟨entry, ⟨node, hnode, hentry⟩, hfilter⟩ := hfilter
      obtain rfl : node = .file serial attributes content := Option.some.inj (hnode.symm.trans hat)
      refine ⟨content, names', entry, hread, hnames, by rw [hfilter, if_pos hmem]; rfl, ?_⟩
      cases hentry with
      | file => exact ⟨rfl, rfl, nofun⟩
    next hmem =>
      refine ⟨content, names', ⟨_, ArchiveEntry.memoryMode, _⟩, hread, hnames, ?_, rfl, rfl, nofun⟩
      rw [hfilter, if_neg hmem, List.nil_append, filter_same hplain' hnames]

namespace Sample

def pipes : Node := folder
  [("c", folder [("p", file "FROM scratch")]), ("p", .special .pipe ⟨0o644, .epoch⟩)]

def pipesSent : BuildContext where
  dockerfile := "c/p"
  entries := [entry "c" 0o755 .directory, fileEntry "c/p" "FROM scratch", entry "c/p" 0o644 .pipe]

theorem find?_pipes : (disk "c" pipes).find? (.ofString "c") = some pipes :=
  find?_disk (by decide +kernel)

theorem create_pipes :
    create (disk "c" pipes) (some (.ofString "c")) (.ofString "c/c/p") = .ok pipesSent := by
  have horder : pipes.all (InOrder ·.entries) = true := by decide +kernel
  have hread : (disk "c" pipes).read (.ofString "c/c/p") = .ok (Bytes.ofString "FROM scratch") := by
    decide +kernel
  have hbelow : (Path.ofString "c/c/p").below? (.ofString "c") = some (.ofString "c/p") := by
    decide +kernel
  rw [create_eq_of_tour horder hread find?_pipes hbelow]
  decide +kernel

end Sample

theorem create_holds_dockerfile_left_out :
    let fs := Sample.disk "app" Sample.app
    let dockerfile := Path.ofString "app/Dockerfile"
    create fs (some (.ofString "app")) dockerfile = .ok Sample.appSent ∧
      (∀ directory ∈ some (Path.ofString "app"), ∃ root text names,
        PlainlyBelow fs directory dockerfile root text names) ∧
      ∃ content names entry, fs.read dockerfile = .ok content ∧
        (Path.ofString Sample.appSent.dockerfile).components = names.map .named ∧
        Sample.appSent.entries.filter
          (fun e => (⟨e.path⟩ : Path).same (.ofString Sample.appSent.dockerfile)) = [entry] ∧
        entry.path = Bytes.join Bytes.slash names ∧ entry.kind = .file content := by
  intro fs dockerfile
  have hplain : ∀ directory ∈ some (Path.ofString "app"), ∃ root text names,
      PlainlyBelow fs directory dockerfile root text names := by
    intro directory hdirectory
    obtain rfl : Path.ofString "app" = directory := Option.some.inj hdirectory
    have hat : Sample.app.at? [Bytes.ofString "Dockerfile"] = some (Sample.file "FROM scratch") :=
      Sample.below_app.wellNamed.at?_cons (by simp) []
    refine ⟨Sample.app, "Dockerfile", [Bytes.ofString "Dockerfile"], Sample.below_app,
      by decide +kernel, ⟨_, _, _, hat⟩, ?_⟩
    exact fun place attributes hat =>
      absurd (Sample.specialFree_app _ _ hat) (by simp [Node.isSpecial])
  obtain ⟨content, names, entry, hread, hnames, hfilter, hpath, hkind, -⟩ :=
    create_holds_dockerfile Sample.create_app hplain
  exact ⟨Sample.create_app, hplain, content, names, entry, hread, hnames, hfilter, hpath, hkind⟩

/-- A pipe is sent under the path by which it was reached, which can be the name of the
Dockerfile. -/
theorem not_holds_once_of_pipe :
    let fs := Sample.disk "c" Sample.pipes
    let names := [Bytes.ofString "c", Bytes.ofString "p"]
    Below fs (.ofString "c") (.ofString "c/c/p") Sample.pipes "c/p" ∧
      (Path.ofString "c/p").components = names.map .named ∧
      (∃ serial attributes content,
        Sample.pipes.at? names = some (.file serial attributes content)) ∧
      create fs (some (.ofString "c")) (.ofString "c/c/p") = .ok Sample.pipesSent ∧
      Sample.pipesSent.dockerfile = "c/p" ∧
      (Sample.pipesSent.entries.filter (·.path = Bytes.ofString "c/p")).length = 2 := by
  have hnamed : Sample.pipes.WellNamed := Node.throughout_of_all (by decide +kernel)
  have hinner : (Sample.folder [("p", Sample.file "FROM scratch")]).WellNamed :=
    Node.throughout_of_all (by decide +kernel)
  have hat : Sample.pipes.at? [Bytes.ofString "c", Bytes.ofString "p"] =
      some (Sample.file "FROM scratch") :=
    (hnamed.at?_cons List.mem_cons_self _).trans (hinner.at?_cons List.mem_cons_self [])
  exact ⟨⟨Sample.find?_pipes, hnamed, by decide +kernel, by decide +kernel⟩, by decide +kernel,
    ⟨_, _, _, hat⟩, Sample.create_pipes, rfl, by decide +kernel⟩

end BuildContext

end ReleasePublisher
