import ReleasePublisher.Proofs.Context.Revision
import ReleasePublisher.Proofs.Lock.Surroundings
import ReleasePublisher.Proofs.Publication.Requests

/-!
The files of a project at the first build of a run. The lock is held then, and in a debug run the
configuration file has been added to; all else that a context shows is as it was before the run, and
so is what is sent.
-/
namespace ReleasePublisher

namespace FileSystem

/-- What is added to a file is added where its path leads. -/
theorem append_eq_replace {fs : FileSystem} {path : Path} {l : Location} {serial : Serial}
    {attributes : Attributes} {old : Bytes} (hplace : fs.place .follow path = .ok (.taken l))
    (hat : fs.root.at? l = some (.file serial attributes old)) (more : Bytes) :
    fs.append path more =
      .ok (fs.replace l (.file serial { attributes with modified := fs.clock } (old ++ more))) := by
  rw [append, resolve_eq_present_iff.mpr ⟨hplace, hat⟩]
  rfl

/-- A file that shows is there. -/
theorem at?_of_face?_file {fs : FileSystem} {l : Location} {serial : Serial}
    {attributes : Attributes} {content : Bytes}
    (h : fs.face? l = some (.file serial attributes content)) :
    fs.root.at? l = some (.file serial attributes content) := by
  obtain ⟨node, hat, hnode⟩ := face?_eq_some_iff.mp h
  rw [hat, Node.eq_file_of_face hnode]

end FileSystem

/-- What something stands below is a directory. -/
theorem Node.exists_directory_of_below {root : Node} {l names : Location} (hne : names ≠ [])
    (h : root.at? (l ++ names) ≠ none) :
    ∃ attributes entries, root.at? l = some (.directory attributes entries) := by
  obtain ⟨target, hat⟩ := Option.ne_none_iff_exists'.mp h
  rw [Node.at?_append, Option.bind_eq_some_iff] at hat
  obtain ⟨node, hnode, hbelow⟩ := hat
  cases node with
  | directory attributes entries => exact ⟨attributes, entries, hnode⟩
  | _ =>
    obtain ⟨name, rest, rfl⟩ := List.exists_cons_of_ne_nil hne
    simp [Node.at?] at hbelow

namespace Publication

open BuildContext FileSystem

/-- The files of a project whose base image can be built: a configuration file in the project that
no link in the project leads to and that is no ignore file, a Dockerfile whose path does not meet
the lock, and no ignore file that is a link. The lock is not taken in the project, except in the
directory that is kept back. -/
structure ProjectFiles (project : Project) (dockerfile : Path) (fs : FileSystem)
    (l names f : Location) (saved : Bytes) : Prop where
  root_eq : fs.place .follow project.root = .ok (.taken l)
  wellNamed : fs.root.WellNamed
  ignore_ne_link : ∀ place target, ¬ Hidden place →
    fs.root.at? (l ++ place ++ [ignoreFile.text]) ≠ some (.link target)
  config_eq : fs.place .follow project.configPath = .ok (.taken (l ++ names))
  config_file : ∃ serial attributes,
    fs.root.at? (l ++ names) = some (.file serial attributes saved)
  config_direct : ∀ x ∈ fs.trail .follow project.configPath, ∀ target,
    fs.turns x = some (.follow target) → x ∈ fs.trail .follow project.root
  config_shown : ¬ Hidden names
  config_name : ∃ name, names.getLast? = some name ∧ name ≠ ignoreFile.text
  lock_hidden : ∀ place, RunLock.IsPlace project.root fs (l ++ place) → Hidden place
  dockerfile_eq : fs.place .follow dockerfile = .ok (.taken f)
  dockerfile_file : ∃ serial attributes content,
    fs.root.at? f = some (.file serial attributes content)
  dockerfile_apart : RunLock.Apart project.root dockerfile fs

/-- The files at the first build of a run: what shows is as before the run, apart from the contents
of some files. -/
structure Kept (project : Project) (dockerfile : Path) (fs : FileSystem) (l f : Location)
    (revise : Location → Bytes → Bytes) (fs' : FileSystem) : Prop where
  root_eq : fs'.place .follow project.root = .ok (.taken l)
  dockerfile_eq : fs'.place .follow dockerfile = .ok (.taken f)
  wellNamed : fs'.root.WellNamed
  shown_eq : ∀ place, place ≠ [] → ¬ Hidden place →
    (fs'.face? (l ++ place)).map Face.plain =
      (fs.face? (l ++ place)).map (Face.revise (revise (l ++ place)) ∘ Face.plain)
  dockerfile_shows : (fs'.face? f).map Face.plain =
    (fs.face? f).map (Face.revise (revise f) ∘ Face.plain)

def directiveAt (config : Location) : Location → Bytes → Bytes :=
  fun x => if x = config then (· ++ DebugProfile.directive) else id

theorem revise_id_comp : Face.revise id ∘ Face.plain = Face.plain :=
  funext fun face => Face.revise_id face.plain

namespace ProjectFiles

variable {project : Project} {dockerfile : Path} {fs : FileSystem} {l names f : Location}
  {saved : Bytes} {owner : LockOwner} {lock : RunLock} {locked : Site}

theorem names_ne_nil (h : ProjectFiles project dockerfile fs l names f saved) : names ≠ [] := by
  obtain ⟨name, hlast, -⟩ := h.config_name
  rintro rfl
  simp at hlast

/-- The project is a directory, since the configuration file is in it. -/
theorem exists_root (h : ProjectFiles project dockerfile fs l names f saved) :
    ∃ attributes entries, fs.root.at? l = some (.directory attributes entries) := by
  obtain ⟨serial, attributes, hfile⟩ := h.config_file
  exact Node.exists_directory_of_below h.names_ne_nil (by simp [hfile])

theorem turns_root (h : ProjectFiles project dockerfile fs l names f saved) :
    fs.turns l = some .enter := by
  obtain ⟨attributes, entries, hat⟩ := h.exists_root
  rw [turns, turns_directory hat]

/-- The lock is taken out of sight, also when its directory has just been made. -/
theorem hidden_of_isPlace (h : ProjectFiles project dockerfile fs l names f saved)
    {place : Location} (hplace : RunLock.IsPlace project.root (RunLock.entered project.root fs)
      (l ++ place)) : Hidden place := by
  rcases hplace.of_entered h.root_eq h.turns_root with hbefore | ⟨-, heq⟩
  · exact h.lock_hidden place hbefore
  · rw [List.append_assoc, List.append_right_inj] at heq
    rw [heq]
    rfl

/-- What shows in the project before a run shows while the lock is held. -/
theorem face?_locked (h : ProjectFiles project dockerfile fs l names f saved)
    (hacquire : RunLock.acquire owner project.root { disk := fs } = (.ok lock, locked))
    {place : Location} (hshown : ¬ Hidden place) :
    locked.disk.face? (l ++ place) = fs.face? (l ++ place) := by
  obtain ⟨-, -, ⟨x, hlock, hchanges, -⟩, -⟩ := RunLock.acquire_ok hacquire
  have hne : l ++ place ≠ x := by
    rintro rfl
    exact hshown (h.hidden_of_isPlace hlock.place_eq)
  have hne' : l ++ place ≠ l ++ [Bytes.ofString RunLock.directoryName] := by
    intro heq
    obtain rfl := List.append_cancel_left heq
    exact hshown rfl
  rw [hchanges.face?_eq _ hne, RunLock.face?_entered h.root_eq h.turns_root hne']

theorem apart_config (h : ProjectFiles project dockerfile fs l names f saved)
    (hacquire : RunLock.acquire owner project.root { disk := fs } = (.ok lock, locked)) :
    RunLock.Apart project.root project.configPath (RunLock.entered project.root fs) := by
  have hgrows := RunLock.grows_entered project.root fs
  have hroot := RunLock.apart_root hacquire
  obtain ⟨-, -, ⟨y, hlock, -, -⟩, -⟩ := RunLock.acquire_ok hacquire
  intro x hx hmem
  obtain rfl : x = y := hlock.eq_of_isPlace hx
  rw [(hgrows.place_taken h.config_eq).2.1] at hmem
  have hface := hgrows.face?_eq x (face?_ne_none_of_mem_trail h.config_eq hmem)
  have hturns := turns_eq_of_face?_eq hface
  cases hturn : fs.turns x with
  | none =>
    exact face?_ne_none_of_mem_trail h.config_eq hmem (turns_eq_none_iff.mp hturn)
  | some turn =>
    cases turn with
    | enter => exact hlock.turns_ne (hturns.trans hturn)
    | stop =>
      obtain rfl := eq_of_mem_trail_of_stop h.config_eq hmem hturn
      exact h.config_shown (h.hidden_of_isPlace hx)
    | follow target =>
      -- a link on the way to the configuration file is on the way to the project
      have hpassed := h.config_direct x hmem target hturn
      rw [← (hgrows.place_taken h.root_eq).2.1] at hpassed
      exact hroot x hx hpassed

/-- Taking the lock keeps the files of the project as they are. -/
theorem kept_locked (h : ProjectFiles project dockerfile fs l names f saved)
    (hacquire : RunLock.acquire owner project.root { disk := fs } = (.ok lock, locked)) :
    Kept project dockerfile fs l f (fun _ => id) locked.disk := by
  obtain ⟨-, htouched, -, -⟩ := RunLock.acquire_ok hacquire
  have hapart := h.dockerfile_apart.entered h.root_eq h.turns_root h.dockerfile_eq
  obtain ⟨hdockerfile, -, hface⟩ := htouched.place_taken hapart h.dockerfile_eq
  refine ⟨(htouched.place_taken (RunLock.apart_root hacquire) h.root_eq).1, hdockerfile,
    htouched.wellNamed (RunLock.wellNamed_entered h.root_eq h.turns_root h.wellNamed), ?_, ?_⟩
  · intro place hne hshown
    rw [revise_id_comp, h.face?_locked hacquire hshown]
  · rw [revise_id_comp, hface]

/-- The file that is added to is the one that was there before the run. -/
theorem at?_config_locked (h : ProjectFiles project dockerfile fs l names f saved)
    (hacquire : RunLock.acquire owner project.root { disk := fs } = (.ok lock, locked)) :
    locked.disk.place .follow project.configPath = .ok (.taken (l ++ names)) ∧
      ∃ serial attributes,
        fs.root.at? (l ++ names) = some (.file serial attributes saved) ∧
          locked.disk.root.at? (l ++ names) = some (.file serial attributes saved) := by
  obtain ⟨-, htouched, -, -⟩ := RunLock.acquire_ok hacquire
  obtain ⟨hplace, -, hface⟩ := htouched.place_taken (h.apart_config hacquire) h.config_eq
  obtain ⟨serial, attributes, hfile⟩ := h.config_file
  have hshows : fs.face? (l ++ names) = some (.file serial attributes saved) := by
    rw [face?, hfile]
    rfl
  exact ⟨hplace, serial, attributes, hfile, at?_of_face?_file (hface.trans hshows)⟩

/-- In a debug run the configuration file ends with the directive, and all else is as in a release
run. -/
theorem kept_enabled (h : ProjectFiles project dockerfile fs l names f saved)
    (hacquire : RunLock.acquire owner project.root { disk := fs } = (.ok lock, locked))
    {saved' : Bytes} {on : FileSystem}
    (enabled : Enabled project.configPath saved' locked.disk on) :
    Kept project dockerfile fs l f (directiveAt (l ++ names)) on := by
  have hkept := h.kept_locked hacquire
  obtain ⟨hplace, serial, attributes, hfile, hfile'⟩ := h.at?_config_locked hacquire
  have happend := enabled.append_eq
  rw [append_eq_replace hplace hfile', Except.ok.injEq] at happend
  subst happend
  have hrefilled := refilled_replace hfile' { attributes with modified := locked.disk.clock }
    (saved ++ DebugProfile.directive)
  generalize hon : locked.disk.replace (l ++ names) _ = on at hrefilled
  have hface : ∀ x, (locked.disk.face? x).map Face.plain = (fs.face? x).map Face.plain →
      (on.face? x).map Face.plain =
        (fs.face? x).map (Face.revise (directiveAt (l ++ names) x) ∘ Face.plain) := by
    intro x hx
    by_cases hconfig : x = l ++ names
    · subst hconfig
      rw [← hon, face?_replace_self hfile', face?, hfile, directiveAt, if_pos rfl]
      rfl
    · rw [directiveAt, if_neg hconfig, revise_id_comp, hrefilled.changes.face?_eq x hconfig, hx]
  refine ⟨(hrefilled.place_eq .follow _).1.trans hkept.root_eq,
    (hrefilled.place_eq .follow _).1.trans hkept.dockerfile_eq, ?_, fun place hne hshown => ?_, ?_⟩
  · rw [← hon]
    exact wellNamed_replace hkept.wellNamed (Node.wellNamed_of_isDirectory_eq_false rfl) _
  · exact hface _ ((hkept.shown_eq place hne hshown).trans (by rw [revise_id_comp]))
  · exact hface _ (hkept.dockerfile_shows.trans (by rw [revise_id_comp]))

/-- The directive can be added. -/
theorem exists_enabled (h : ProjectFiles project dockerfile fs l names f saved)
    (hacquire : RunLock.acquire owner project.root { disk := fs } = (.ok lock, locked)) :
    ∃ content on, Enabled project.configPath content locked.disk on := by
  obtain ⟨hplace, serial, attributes, -, hfile⟩ := h.at?_config_locked hacquire
  have hface : locked.disk.face? (l ++ names) = some (.file serial attributes saved) := by
    rw [face?, hfile]
    rfl
  exact ⟨saved, _, read_eq_ok_iff.mpr ⟨_, _, hplace, hface, rfl⟩,
    append_eq_replace hplace hfile _⟩

end ProjectFiles

/-- The contexts of a build step on two file systems, where the contents of some files are revised
in the second one. Without a directory the Dockerfile is all there is. -/
inductive SentRevised (revise : Location → Bytes → Bytes) (fs : FileSystem) (root dockerfile : Path)
    (l f : Location) : ContextKind → BuildContext → BuildContext → Prop
  | lone {serial : Serial} {attributes : Attributes} {content : Bytes} (name : String)
      (path : Bytes) (file_eq : fs.root.at? f = some (.file serial attributes content)) :
      SentRevised revise fs root dockerfile l f .definitionOnly
        ⟨name, [⟨path, ArchiveEntry.memoryMode, .file content⟩]⟩
        ⟨name, [⟨path, ArchiveEntry.memoryMode, .file (revise f content)⟩]⟩
  | whole {node : Node} {serial : Serial} {attributes : Attributes} {content : Bytes}
      {sent sent' : BuildContext} (at_eq : fs.root.at? l = some node)
      (file_eq : fs.root.at? f = some (.file serial attributes content))
      (alike : SentAlike (fun place => revise (l ++ place)) fs root dockerfile node content
        (revise f content) sent sent') :
      SentRevised revise fs root dockerfile l f .projectRoot sent sent'

section Steps

variable {project : Project} {base : BuildStep} {fs fs' : FileSystem} {l names f : Location}
  {saved : Bytes} {revise : Location → Bytes → Bytes}

theorem find?_of_place {path : Path} {node : Node} (hplace : fs.place .follow path = .ok (.taken l))
    (hat : fs.root.at? l = some node) : fs.find? path = some node := by
  rw [find?, find, resolve_eq_present_iff.mpr ⟨hplace, hat⟩]
  rfl

theorem read_of_file {path : Path} {serial : Serial} {attributes : Attributes} {content : Bytes}
    (hplace : fs.place .follow path = .ok (.taken l))
    (hat : fs.root.at? l = some (.file serial attributes content)) :
    fs.read path = .ok content :=
  read_eq_ok_iff.mpr ⟨l, .file serial attributes content, hplace, by rw [face?, hat]; rfl, rfl⟩

theorem resolve_of_place {root dockerfile : Path} {node : Node} {l f : Location}
    (hroot : fs.place .follow root = .ok (.taken l)) (hat : fs.root.at? l = some node)
    (hdirectory : node.isDirectory = true)
    (hdockerfile : fs.place .follow dockerfile = .ok (.taken f))
    {serial : Serial} {attributes : Attributes} {content : Bytes}
    (hfile : fs.root.at? f = some (.file serial attributes content))
    (hpath : root / .ofString base.dockerfile = dockerfile) :
    BuildSource.resolve fs root base = .ok ⟨dockerfile,
      match base.context with
      | .projectRoot => some root
      | .definitionOnly => none⟩ := by
  have hisFile : fs.isFile dockerfile = true := by
    rw [isFile, find?_of_place hdockerfile hfile]
    rfl
  rw [BuildSource.resolve, BuildSource.findDockerfile, hpath, if_pos hisFile,
    BuildSource.findContext, find?_of_place hroot hat]
  simp only [hdirectory, if_true]
  cases base.context <;> rfl

theorem Kept.exists_root {dockerfile : Path}
    (hkept : Kept project dockerfile fs l f revise fs')
    (h : ProjectFiles project dockerfile fs l names f saved) :
    ∃ attributes entries, fs'.root.at? l = some (.directory attributes entries) := by
  obtain ⟨serial, attributes, hfile⟩ := h.config_file
  have hshows := hkept.shown_eq names h.names_ne_nil h.config_shown
  refine Node.exists_directory_of_below h.names_ne_nil (fun hnone => ?_)
  rw [face?, hnone, face?, hfile] at hshows
  simp at hshows

theorem Kept.exists_file {dockerfile : Path} (hkept : Kept project dockerfile fs l f revise fs')
    {serial : Serial} {attributes : Attributes} {content : Bytes}
    (hfile : fs.root.at? f = some (.file serial attributes content)) :
    ∃ serial' attributes',
      fs'.root.at? f = some (.file serial' attributes' (revise f content)) := by
  have hshows := hkept.dockerfile_shows
  rw [face?, face?, hfile] at hshows
  obtain ⟨face, hface, hplain⟩ := Option.map_eq_some_iff.mp hshows
  obtain ⟨node, hat, rfl⟩ := Option.map_eq_some_iff.mp hface
  rw [Function.comp_apply, Node.plain_face, Node.plain_face] at hplain
  cases shows_of_look hplain with
  | file => exact ⟨_, _, hat⟩

/-- What can be built before a run is built alike when the lock is held, and when the directive has
been added. -/
theorem Kept.sentRevised
    (h : ProjectFiles project (project.root / .ofString base.dockerfile) fs l names f saved)
    (hkept : Kept project (project.root / .ofString base.dockerfile) fs l f revise fs')
    (hrules : ∀ place, revise (l ++ (place ++ [ignoreFile.text])) = id) :
    GoAlike (SentRevised revise fs project.root (project.root / .ofString base.dockerfile) l f
        base.context)
      (ofStep fs project.root base) (ofStep fs' project.root base) := by
  obtain ⟨attributes, entries, hroot⟩ := h.exists_root
  obtain ⟨attributes', entries', hroot'⟩ := hkept.exists_root h
  obtain ⟨serial, stamped, content, hfile⟩ := h.dockerfile_file
  obtain ⟨serial', stamped', hfile'⟩ := hkept.exists_file hfile
  have hread := read_of_file h.dockerfile_eq hfile
  have hread' := read_of_file hkept.dockerfile_eq hfile'
  rw [ofStep, ofStep, resolve_of_place h.root_eq hroot rfl h.dockerfile_eq hfile rfl,
    resolve_of_place hkept.root_eq hroot' rfl hkept.dockerfile_eq hfile' rfl]
  cases base.context with
  | definitionOnly =>
    simp only [Except.bind, create, hread, hread', ofDockerfile]
    rw [dockerfileEntry, dockerfileEntry, ArchiveEntry.ofMemory, ArchiveEntry.ofMemory]
    cases ArchiveEntry.fieldText (.ofString loneDockerfile) with
    | error fault => exact .failed _
    | ok path => exact .done (.lone loneDockerfile path hfile)
  | projectRoot =>
    have hlink : ∀ place target, ¬ Hidden place →
        (Node.directory attributes entries).at? (place ++ [ignoreFile.text]) ≠
          some (.link target) := by
      intro place target hshown hat
      refine h.ignore_ne_link place target hshown ?_
      rw [List.append_assoc, Node.at?_append, hroot]
      exact hat
    have halike := create_alike
      (revised_of_face? hroot hroot' hkept.shown_eq hrules hlink) (find?_of_place h.root_eq hroot)
      (find?_of_place hkept.root_eq hroot') rfl rfl (h.wellNamed.at? hroot)
      (hkept.wellNamed.at? hroot') hread hread'
    simp only [Except.bind]
    generalize create fs _ _ = sent at halike
    generalize create fs' _ _ = sent' at halike
    cases halike with
    | failed error => exact .failed error
    | done halike => exact .done (.whole hroot hfile halike)

end Steps

end Publication

end ReleasePublisher
