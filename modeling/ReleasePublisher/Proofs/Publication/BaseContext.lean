import ReleasePublisher.Proofs.Context.Dockerfile
import ReleasePublisher.Proofs.Publication.Calls
import ReleasePublisher.Proofs.Publication.FirstBuild

/-!
The context of the base image in a release run and in a debug run of the same plan. Neither shows
that the lock is held, and the debug run differs in the configuration file only.
-/
namespace ReleasePublisher

namespace Publication

open BuildContext FileSystem

/-- Entries of two archives that are made of what is at the same locations. What is made of the
configuration file has the directive at its end in the second one. -/
inductive ToggledEntries (config : Location) (saved : Bytes) :
    List Location → List ArchiveEntry → List ArchiveEntry → Prop
  | nil : ToggledEntries config saved [] [] []
  | same {source : Location} {sources : List Location} {entries entries' : List ArchiveEntry}
      (ne : source ≠ config) (entry : ArchiveEntry)
      (rest : ToggledEntries config saved sources entries entries') :
      ToggledEntries config saved (source :: sources) (entry :: entries) (entry :: entries')
  | config {sources : List Location} {entries entries' : List ArchiveEntry} (path : Bytes)
      (mode : Nat) (rest : ToggledEntries config saved sources entries entries') :
      ToggledEntries config saved (config :: sources) (⟨path, mode, .file saved⟩ :: entries)
        (⟨path, mode, .file (saved ++ DebugProfile.directive)⟩ :: entries')

theorem ToggledEntries.append {config : Location} {saved : Bytes} {sources more : List Location}
    {entries entries' last last' : List ArchiveEntry}
    (h : ToggledEntries config saved sources entries entries')
    (hlast : ToggledEntries config saved more last last') :
    ToggledEntries config saved (sources ++ more) (entries ++ last) (entries' ++ last') := by
  induction h with
  | nil => exact hlast
  | same ne entry rest ih => exact .same ne entry ih
  | config path mode rest ih => exact .config path mode ih

/-- What is archived of a project, and where it stands. The places of the project are listed, and
the Dockerfile comes last unless it was found there; without a directory it is all there is. -/
inductive Sources (fs : FileSystem) (root dockerfile : Path) (l f : Location) :
    ContextKind → List Location → BuildContext → Prop
  | lone (name : String) (entry : ArchiveEntry) :
      Sources fs root dockerfile l f .definitionOnly [f] ⟨name, [entry]⟩
  | whole {node : Node} {places : List Location} {listed : List ArchiveEntry} {held : Bool}
      (name : String) (entry : ArchiveEntry) (at_eq : fs.root.at? l = some node)
      (isListing : IsListing fs root node places)
      (entered : List.Forall₂ (Entered root node) places listed)
      (held_eq : holds dockerfile (places.map (foundAt root node)) = held) :
      Sources fs root dockerfile l f .projectRoot
        (places.map (l ++ ·) ++ if held then [] else [f])
        ⟨name, listed ++ if held then [] else [entry]⟩

/-- The contexts of a build step in a release run and in a debug run, made of what was in the
project before the runs. -/
structure ToggledContexts (fs : FileSystem) (root dockerfile : Path) (l f config : Location)
    (saved : Bytes) (kind : ContextKind) (sources : List Location) (sent sent' : BuildContext) :
    Prop where
  archived : Sources fs root dockerfile l f kind sources sent
  dockerfile_eq : sent'.dockerfile = sent.dockerfile
  toggled : ToggledEntries config saved sources sent.entries sent'.entries

section Toggled

variable {fs : FileSystem} {root dockerfile : Path} {l f names config : Location} {saved : Bytes}
  {kind : ContextKind} {sent sent' : BuildContext}

theorem directiveAt_of_ne {x : Location} (h : x ≠ config) : directiveAt config x = id := if_neg h

/-- Nothing is revised in a release run. -/
theorem SentRevised.eq (h : SentRevised (fun _ => id) fs root dockerfile l f kind sent sent') :
    sent' = sent := by
  cases h with
  | lone name path file_eq => rfl
  | whole at_eq file_eq alike =>
    cases alike with
    | intro name path isListing entered held_eq =>
      rw [reviseAll_eq_self entered.length_eq fun _ _ => rfl]
      rfl

/-- Revised entries are the listed ones with the directive at the end of the configuration file. -/
theorem toggledEntries_listed {context : Path} {node : Node} {places : List Location}
    {listed : List ArchiveEntry} (h : List.Forall₂ (Entered context node) places listed)
    {serial : Serial} {attributes : Attributes}
    (hfile : node.at? names = some (.file serial attributes saved)) :
    ToggledEntries (l ++ names) saved (places.map (l ++ ·)) listed
      (reviseAll (fun place => directiveAt (l ++ names) (l ++ place)) places listed) := by
  induction h with
  | nil => exact .nil
  | @cons place entry places listed hentered hrest ih =>
    rw [reviseAll_cons, List.map_cons]
    by_cases hplace : place = names
    · subst hplace
      obtain ⟨found, hat, hentry⟩ := hentered
      obtain rfl : found = .file serial attributes saved := Option.some.inj (hat.symm.trans hfile)
      cases hentry with
      | file =>
        rw [directiveAt, if_pos rfl]
        exact .config _ _ ih
    · have hne : l ++ place ≠ l ++ names := fun heq => hplace (List.append_cancel_left heq)
      rw [directiveAt_of_ne hne, ArchiveEntry.revise_id]
      exact .same hne entry ih

/-- A Dockerfile that is not found on the walk may be the configuration file as well. -/
theorem toggledEntries_dockerfile {serial serial' : Serial} {attributes attributes' : Attributes}
    {content : Bytes} (hfile : fs.root.at? f = some (.file serial attributes content))
    (hconfig : fs.root.at? config = some (.file serial' attributes' saved)) (path : Bytes)
    (mode : Nat) :
    ToggledEntries config saved [f] [⟨path, mode, .file content⟩]
      [⟨path, mode, .file (directiveAt config f content)⟩] := by
  by_cases hf : f = config
  · subst hf
    obtain ⟨-, -, rfl⟩ := Node.file.inj (Option.some.inj (hfile.symm.trans hconfig))
    rw [directiveAt, if_pos rfl]
    exact .config path mode .nil
  · rw [directiveAt_of_ne hf]
    exact .same hf _ .nil

theorem SentRevised.toggled
    (h : SentRevised (directiveAt (l ++ names)) fs root dockerfile l f kind sent sent')
    (hconfig : ∃ serial attributes,
      fs.root.at? (l ++ names) = some (.file serial attributes saved)) :
    ∃ sources,
      ToggledContexts fs root dockerfile l f (l ++ names) saved kind sources sent sent' := by
  obtain ⟨serial, attributes, hconfig⟩ := hconfig
  cases h with
  | lone name path file_eq =>
    exact ⟨_, .lone name _, rfl, toggledEntries_dockerfile file_eq hconfig _ _⟩
  | whole at_eq file_eq alike =>
    have hbelow := hconfig
    rw [Node.at?_append, at_eq, Option.bind_some] at hbelow
    cases alike with
    | @intro places listed held name path isListing entered held_eq =>
      refine ⟨_, .whole name _ at_eq isListing entered held_eq, rfl,
        (toggledEntries_listed entered hbelow).append ?_⟩
      cases held with
      | true => exact .nil
      | false => exact toggledEntries_dockerfile file_eq hconfig _ _

/-- What is archived does not stand in the directory that is kept back, except perhaps the
Dockerfile. -/
theorem Sources.cases {sources : List Location}
    (h : Sources fs root dockerfile l f kind sources sent) {x : Location} (hx : x ∈ sources) :
    x = f ∨ ∃ place, ¬ Hidden place ∧ x = l ++ place := by
  cases h with
  | lone => exact Or.inl (List.mem_singleton.mp hx)
  | @whole node places listed held name entry at_eq isListing entered held_eq =>
    rcases List.mem_append.mp hx with hlisted | hlast
    · obtain ⟨place, hplace, rfl⟩ := List.mem_map.mp hlisted
      obtain ⟨-, -, hshown⟩ := (isListing.mem_iff place).mp hplace
      exact Or.inr ⟨place, fun hhidden => hshown (Or.inl hhidden), rfl⟩
    · split at hlast
      · simp at hlast
      · exact Or.inl (List.mem_singleton.mp hlast)

end Toggled

structure SameTree (fs fs' : FileSystem) : Prop where
  root_eq : fs'.root = fs.root
  here_eq : fs'.workingDirectory = fs.workingDirectory

namespace SameTree

variable {project : Project} {dockerfile : Path} {fs fs' disk : FileSystem} {l names f : Location}
  {saved : Bytes} {revise : Location → Bytes → Bytes}

theorem projectFiles (hsame : SameTree fs fs')
    (h : ProjectFiles project dockerfile fs l names f saved) :
    ProjectFiles project dockerfile fs' l names f saved := by
  obtain ⟨root, here, clock, serial⟩ := fs
  obtain ⟨root', here', clock', serial'⟩ := fs'
  obtain ⟨rfl, rfl⟩ := hsame
  exact ⟨h.root_eq, h.wellNamed, h.ignore_ne_link, h.config_eq, h.config_file, h.config_direct,
    h.config_shown, h.config_name, h.lock_hidden, h.dockerfile_eq, h.dockerfile_file,
    h.dockerfile_apart⟩

theorem kept (hsame : SameTree fs fs') (h : Kept project dockerfile fs' l f revise disk) :
    Kept project dockerfile fs l f revise disk := by
  have hface : ∀ x, fs'.face? x = fs.face? x := fun x => by rw [face?, face?, hsame.root_eq]
  refine ⟨h.root_eq, h.dockerfile_eq, h.wellNamed, fun place hne hshown => ?_, ?_⟩
  · rw [h.shown_eq place hne hshown, hface]
  · rw [h.dockerfile_shows, hface]

end SameTree

section Runs

variable {δ δ' : Type} {project : Project} {tag : ReleaseTag} {base : BuildStep}
  {others : List BuildStep} {pushes : List PushStep} {fs fs' : FileSystem} {l names f : Location}
  {saved : Bytes} {owner : LockOwner} {lock : RunLock} {locked : Site}

/-- A release run that gets the lock sends what could have been sent before. -/
theorem head?_requests_release (palette : Palette) (client : DaemonClient δ) (daemon : δ)
    (h : ProjectFiles project (project.root / .ofString base.dockerfile) fs l names f saved)
    (hclient : client.root = project.root)
    (hacquire : RunLock.acquire owner project.root { disk := fs } = (.ok lock, locked)) :
    (run palette client.engine owner project ⟨tag, .release, base :: others, pushes⟩ { daemon }
        { disk := fs }).state.requests.head? =
      (ofStep fs project.root base).toOption.map (DaemonClient.buildRequest base) := by
  have hlocked := (h.kept_locked hacquire).sentRevised h fun _ => rfl
  rw [head?_requests_run palette client daemon rfl hacquire .release, hclient]
  generalize ofStep fs project.root base = sent at hlocked
  generalize ofStep locked.disk project.root base = sent' at hlocked
  cases hlocked with
  | failed error => rfl
  | done hsent => rw [hsent.eq]

/-- A debug run that gets the lock sends the same with the directive in the configuration file. -/
theorem head?_requests_debug (palette : Palette) (client : DaemonClient δ) (daemon : δ)
    (h : ProjectFiles project (project.root / .ofString base.dockerfile) fs l names f saved)
    (hsame : SameTree fs fs') (hclient : client.root = project.root)
    (hacquire : RunLock.acquire owner project.root { disk := fs' } = (.ok lock, locked)) :
    ∃ sent, GoAlike (fun before after => ∃ sources, ToggledContexts fs project.root
          (project.root / .ofString base.dockerfile) l f (l ++ names) saved base.context sources
          before after)
        (ofStep fs project.root base) sent ∧
      (run palette client.engine owner project ⟨tag, .debug, base :: others, pushes⟩ { daemon }
        { disk := fs' }).state.requests.head? =
          sent.toOption.map (DaemonClient.buildRequest base) := by
  have h' := hsame.projectFiles h
  obtain ⟨content, on, enabled⟩ := h'.exists_enabled hacquire
  have hrules : ∀ place, directiveAt (l ++ names) (l ++ (place ++ [ignoreFile.text])) = id := by
    intro place
    refine directiveAt_of_ne fun heq => ?_
    obtain ⟨name, hlast, hname⟩ := h.config_name
    rw [← List.append_cancel_left heq] at hlast
    exact hname (by simpa using hlast.symm)
  have halike := (hsame.kept (h'.kept_enabled hacquire enabled)).sentRevised h hrules
  refine ⟨ofStep on project.root base, ?_, ?_⟩
  · generalize ofStep fs project.root base = sent at halike
    generalize ofStep on project.root base = sent' at halike
    cases halike with
    | failed error => exact .failed error
    | done hsent => exact .done (hsent.toggled h.config_file)
  · rw [head?_requests_run palette client daemon rfl hacquire (.debug enabled), hclient]

/-- Once a run has the lock, it is not at any of some locations. -/
def AwayFromLock (owner : LockOwner) (root : Path) (fs : FileSystem) (sources : List Location) :
    Prop :=
  ∀ lock locked, RunLock.acquire owner root { disk := fs } = (.ok lock, locked) →
    ∀ x ∈ sources, locked.disk.place .keep (RunLock.pathIn root) ≠ .ok (.taken x)

/-- What is sent for the base image is not touched by the lock. -/
theorem Sources.awayFromLock {dockerfile : Path} {kind : ContextKind} {sources : List Location}
    {sent : BuildContext} (hsources : Sources fs project.root dockerfile l f kind sources sent)
    (hsame : SameTree fs fs') (h : ProjectFiles project dockerfile fs l names f saved)
    (owner : LockOwner) : AwayFromLock owner project.root fs' sources := by
  have h' := hsame.projectFiles h
  intro lock locked hacquire x hx htaken
  obtain ⟨-, -, ⟨y, hlock, -, hstands⟩, -⟩ := RunLock.acquire_ok hacquire
  obtain rfl : y = x := by simpa [hstands.place_eq] using htaken
  rcases hsources.cases hx with rfl | ⟨place, hshown, rfl⟩
  · have hapart := h'.dockerfile_apart.entered h'.root_eq h'.turns_root h'.dockerfile_eq
    have hentered := (RunLock.grows_entered project.root fs').place_taken h'.dockerfile_eq
    exact hapart _ hlock.place_eq (mem_trail_of_taken hentered.1).1
  · exact hshown (h'.hidden_of_isPlace hlock.place_eq)

/-- A release run and a debug run of the same plan, which begin with the same tree, send the same
context for the base image, except that what is made of the configuration file ends with the
directive in the debug run. All of it is made of what was there before, and nothing of the lock. If
both runs get the lock, then either both send the context or none does. -/
theorem base_contexts_alike {δ' : Type} (palette palette' : Palette) (client : DaemonClient δ)
    (client' : DaemonClient δ') (owner owner' : LockOwner) (daemon : δ) (daemon' : δ')
    (tag : ReleaseTag) (base : BuildStep) (others : List BuildStep) (pushes : List PushStep)
    (h : ProjectFiles project (project.root / .ofString base.dockerfile) fs l names f saved)
    (hsame : SameTree fs fs') (hclient : client.root = project.root)
    (hclient' : client'.root = project.root) :
    let release := run palette client.engine owner project
      ⟨tag, .release, base :: others, pushes⟩ { daemon } { disk := fs }
    let debug := run palette' client'.engine owner' project
      ⟨tag, .debug, base :: others, pushes⟩ { daemon := daemon' } { disk := fs' }
    (∀ request ∈ release.state.requests.head?, ∀ request' ∈ debug.state.requests.head?,
      ∃ sources sent sent', ofStep fs project.root base = .ok sent ∧
        request = DaemonClient.buildRequest base sent ∧
        request' = DaemonClient.buildRequest base sent' ∧
        ToggledContexts fs project.root (project.root / .ofString base.dockerfile) l f (l ++ names)
          saved base.context sources sent sent' ∧
        AwayFromLock owner project.root fs sources ∧
        AwayFromLock owner' project.root fs' sources) ∧
      ∀ lock lock', (RunLock.acquire owner project.root { disk := fs }).1 = .ok lock →
        (RunLock.acquire owner' project.root { disk := fs' }).1 = .ok lock' →
          (release.state.requests.head? = none ↔ debug.state.requests.head? = none) := by
  intro release debug
  rcases hacquire : RunLock.acquire owner project.root { disk := fs } with ⟨error | lock, locked⟩
  · have hnone : release.state.requests = [] :=
      requests_run_of_refused palette client daemon hacquire
    simp [hnone]
  rcases hacquire' : RunLock.acquire owner' project.root { disk := fs' } with
    ⟨error | lock', locked'⟩
  · have hnone : debug.state.requests = [] :=
      requests_run_of_refused palette' client' daemon' hacquire'
    simp [hnone]
  have hrelease : release.state.requests.head? = _ :=
    head?_requests_release palette client daemon h hclient hacquire
  obtain ⟨sent', halike, hdebug⟩ :=
    head?_requests_debug palette' client' daemon' h hsame hclient' hacquire'
  have hdebug : debug.state.requests.head? = _ := hdebug
  rw [hrelease, hdebug]
  generalize ofStep fs project.root base = sent at halike
  cases halike with
  | failed error => exact ⟨nofun, fun _ _ _ _ => Iff.rfl⟩
  | done hsent =>
    obtain ⟨sources, htoggled⟩ := hsent
    refine ⟨?_, fun _ _ _ _ => ⟨nofun, nofun⟩⟩
    rintro request ⟨⟩ request' ⟨⟩
    exact ⟨sources, _, _, rfl, rfl, rfl, htoggled,
      htoggled.archived.awayFromLock ⟨rfl, rfl⟩ h owner,
      htoggled.archived.awayFromLock hsame h owner'⟩

end Runs

/-- The context of a build step when the directories of the project are in name order. -/
theorem ofStep_eq_of_tour {fs : FileSystem} {root : Path} {step : BuildStep}
    {entries : List (Bytes × Node)} (dockerfile relative : Path) (content : Bytes)
    (hresolve : BuildSource.resolve fs root step = .ok ⟨dockerfile, some root⟩)
    (hdirectory : (fs.find? root).any Node.isDirectory = true)
    (hentries : (fs.find? root).elim [] Node.entries = entries)
    (horder : (fs.find? root).all (Node.all (InOrder ·.entries)) = true)
    (hread : fs.read dockerfile = .ok content)
    (hbelow : dockerfile.below? root = some relative) :
    ofStep fs root step =
      let name := slashed relative.display
      let found := tourEntries fs [.of root (rulesIn fs root entries)] root []
        (visibleEntries entries)
      ((entriesOf found).mapError .io).bind fun listed =>
        if holds dockerfile found then .ok ⟨name, listed⟩
        else (dockerfileEntry name content).map fun entry => ⟨name, listed ++ [entry]⟩ := by
  rw [ofStep, hresolve]
  cases hfind : fs.find? root with
  | none => simp [hfind] at hdirectory
  | some node =>
    rw [hfind] at hdirectory hentries horder
    cases node with
    | directory attributes found =>
      obtain rfl : found = entries := hentries
      exact create_eq_of_tour horder hread hfind hbelow
    | _ => simp [Node.isDirectory] at hdirectory

namespace Sample

open BuildContext.Sample (file folder entry fileEntry)

def root : Path := .ofString "/work"

def workspace (context : Node) (clock : Timestamp) : FileSystem :=
  { BuildContext.Sample.disk "work" context with clock }

def baseStep (dockerfile : String) : BuildStep :=
  Plan.baseBuild ⟨"base", "base", dockerfile, .projectRoot⟩ {}

def client : DaemonClient Unit where
  transport _ s := (.reply 200 [], s)
  helpers _ := none
  configPath := .ofString "/config.json"
  root := root
  palette := .plain

def firstRequest (configFile dockerfile : String) (fs : FileSystem) (mode : BuildMode) :
    Option DaemonRequest :=
  (run .plain client.engine Sample.owner (Sample.project configFile)
    ⟨Sample.tag, mode, [baseStep dockerfile], []⟩ { daemon := () }
    { disk := fs }).state.requests.head?

def firstDisk (configFile : String) (fs : FileSystem) : BuildMode → FileSystem
  | .release => (RunLock.acquire Sample.owner root { disk := fs }).2.disk
  | .debug =>
    let locked := (RunLock.acquire Sample.owner root { disk := fs }).2.disk
    (locked.append (Sample.project configFile).configPath DebugProfile.directive).toOption.getD
      locked

/-- What is sent first by a run that gets the lock. -/
theorem firstRequest_eq {configFile dockerfile : String} {fs : FileSystem} {mode : BuildMode}
    {context : BuildContext}
    (hlock : (RunLock.acquire Sample.owner root { disk := fs }).1.toOption = some ⟨root⟩)
    (hfirst : FirstBuild (Sample.project configFile).configPath
      (RunLock.acquire Sample.owner root { disk := fs }).2.disk mode (firstDisk configFile fs mode))
    (hcontext : ofStep (firstDisk configFile fs mode) root (baseStep dockerfile) = .ok context) :
    firstRequest configFile dockerfile fs mode =
      some (DaemonClient.buildRequest (baseStep dockerfile) context) := by
  have hacquire : RunLock.acquire Sample.owner (Sample.project configFile).root { disk := fs } =
      (.ok ⟨root⟩, (RunLock.acquire Sample.owner root { disk := fs }).2) :=
    Prod.ext (eq_ok_of_toOption hlock) rfl
  have hsent : ofStep (firstDisk configFile fs mode) client.root (baseStep dockerfile) =
      .ok context := hcontext
  rw [firstRequest, head?_requests_run .plain client () rfl hacquire hfirst, hsent]
  rfl

/-- A debug run gets as far as its first build. -/
theorem firstBuild_debug {configFile : String} {fs : FileSystem} (saved : Bytes)
    (hread : (RunLock.acquire Sample.owner root { disk := fs }).2.disk.read
      (Sample.project configFile).configPath = .ok saved)
    (happend : ((RunLock.acquire Sample.owner root { disk := fs }).2.disk.append
      (Sample.project configFile).configPath DebugProfile.directive).toOption.isSome = true) :
    FirstBuild (Sample.project configFile).configPath
      (RunLock.acquire Sample.owner root { disk := fs }).2.disk .debug
      (firstDisk configFile fs .debug) := by
  obtain ⟨on, hon⟩ := Option.isSome_iff_exists.mp happend
  have hdisk : firstDisk configFile fs .debug = on := by rw [firstDisk, hon]; rfl
  exact .debug ⟨hread, eq_ok_of_toOption (hon.trans (congrArg some hdisk.symm))⟩

def plain : Node := folder
  [(".shipwright", folder []), ("Cargo.toml", file "[package]"),
    ("Dockerfile", file "FROM scratch"), ("src", folder [("main.rs", file "fn main() {}")])]

def plainSent (config : Bytes) : BuildContext where
  dockerfile := "Dockerfile"
  entries :=
    [entry "Cargo.toml" 0o644 (.file config), fileEntry "Dockerfile" "FROM scratch",
      entry "src" 0o755 .directory, fileEntry "src/main.rs" "fn main() {}"]

theorem firstRequest_plain_release :
    firstRequest "Cargo.toml" "Dockerfile" (workspace plain .epoch) .release =
      some (DaemonClient.buildRequest (baseStep "Dockerfile")
        (plainSent (Bytes.ofString "[package]"))) := by
  refine firstRequest_eq (by decide +kernel) .release ?_
  rw [ofStep_eq_of_tour (root / .ofString "Dockerfile") (.ofString "Dockerfile")
    (Bytes.ofString "FROM scratch") (by decide +kernel) (by decide +kernel) rfl (by decide +kernel)
    (by decide +kernel) (by decide +kernel)]
  decide +kernel

theorem firstRequest_plain_debug :
    firstRequest "Cargo.toml" "Dockerfile" (workspace plain Sample.halfPast) .debug =
      some (DaemonClient.buildRequest (baseStep "Dockerfile")
        (plainSent (Bytes.ofString "[package]" ++ DebugProfile.directive))) := by
  refine firstRequest_eq (by decide +kernel)
    (firstBuild_debug (Bytes.ofString "[package]") (by decide +kernel) (by decide +kernel)) ?_
  rw [ofStep_eq_of_tour (root / .ofString "Dockerfile") (.ofString "Dockerfile")
    (Bytes.ofString "FROM scratch") (by decide +kernel) (by decide +kernel) rfl (by decide +kernel)
    (by decide +kernel) (by decide +kernel)]
  decide +kernel

theorem projectFiles_plain : ProjectFiles (Sample.project "Cargo.toml")
    (root / .ofString "Dockerfile") (workspace plain .epoch) [Bytes.ofString "work"]
    [Bytes.ofString "Cargo.toml"] [Bytes.ofString "work", Bytes.ofString "Dockerfile"]
    (Bytes.ofString "[package]") where
  root_eq := by decide +kernel
  wellNamed := Node.throughout_of_all (by decide +kernel)
  ignore_ne_link place target _ := Node.ne_link_of_all (by decide +kernel) _ target
  config_eq := by decide +kernel
  config_file := ⟨0, ⟨0o644, .epoch⟩, at?_of_face?_file (by decide +kernel)⟩
  config_direct x hx target hturn := by
    have hdirect : ∀ x ∈ (workspace plain .epoch).trail .follow
        (Sample.project "Cargo.toml").configPath, (workspace plain .epoch).turns x = some .enter ∨
          (workspace plain .epoch).turns x = some .stop := by
      decide +kernel
    rcases hdirect x hx with heq | heq <;> simp [heq] at hturn
  config_shown := by
    show some (Bytes.ofString "Cargo.toml") ≠ some (Bytes.ofString RunLock.directoryName)
    decide +kernel
  config_name := ⟨Bytes.ofString "Cargo.toml", rfl, by decide +kernel⟩
  lock_hidden place hplace := by
    have hfree : (workspace plain .epoch).place .keep
          (RunLock.pathIn (Sample.project "Cargo.toml").root) =
        .ok (.free ([Bytes.ofString "work"] ++ [Bytes.ofString ".shipwright",
          Bytes.ofString "publish.lock"])) := by
      decide +kernel
    rw [RunLock.IsPlace, hfree] at hplace
    obtain rfl : [Bytes.ofString ".shipwright", Bytes.ofString "publish.lock"] = place := by
      simpa using hplace
    rfl
  dockerfile_eq := by decide +kernel
  dockerfile_file :=
    ⟨0, ⟨0o644, .epoch⟩, Bytes.ofString "FROM scratch", at?_of_face?_file (by decide +kernel)⟩
  dockerfile_apart := by decide +kernel

end Sample

/-- A release run, and a debug run of the same plan some hours later. -/
theorem base_contexts_alike_hours_later :
    let project := Sample.project "Cargo.toml"
    let dockerfile := Sample.root / .ofString "Dockerfile"
    let fs := Sample.workspace Sample.plain .epoch
    let fs' := Sample.workspace Sample.plain Sample.halfPast
    let l := [Bytes.ofString "work"]
    let names := [Bytes.ofString "Cargo.toml"]
    let f := [Bytes.ofString "work", Bytes.ofString "Dockerfile"]
    let saved := Bytes.ofString "[package]"
    let sent := Sample.plainSent saved
    let sent' := Sample.plainSent (saved ++ DebugProfile.directive)
    ProjectFiles project dockerfile fs l names f saved ∧ SameTree fs fs' ∧
      Sample.client.root = project.root ∧
      Sample.firstRequest "Cargo.toml" "Dockerfile" fs .release =
        some (DaemonClient.buildRequest (Sample.baseStep "Dockerfile") sent) ∧
      Sample.firstRequest "Cargo.toml" "Dockerfile" fs' .debug =
        some (DaemonClient.buildRequest (Sample.baseStep "Dockerfile") sent') ∧
      ∃ sources,
        ToggledContexts fs project.root dockerfile l f (l ++ names) saved .projectRoot sources sent
          sent' ∧
        AwayFromLock Sample.owner project.root fs sources ∧
        AwayFromLock Sample.owner project.root fs' sources := by
  intro project dockerfile fs fs' l names f saved sent sent'
  have hsame : SameTree fs fs' := ⟨rfl, rfl⟩
  have hrelease := Sample.firstRequest_plain_release
  have hdebug := Sample.firstRequest_plain_debug
  refine ⟨Sample.projectFiles_plain, hsame, rfl, hrelease, hdebug, ?_⟩
  obtain ⟨sources, before, after, -, hbefore, hafter, htoggled, haway, haway'⟩ :=
    (base_contexts_alike .plain .plain Sample.client Sample.client Sample.owner Sample.owner () ()
      Sample.tag (Sample.baseStep "Dockerfile") [] [] Sample.projectFiles_plain hsame rfl rfl).1
      _ hrelease _ hdebug
  obtain rfl := DaemonClient.buildRequest_injective hbefore
  obtain rfl := DaemonClient.buildRequest_injective hafter
  exact ⟨sources, htoggled, haway, haway'⟩

/-- Entries that are the same, or those of one file with the directive at the end in the second
one. -/
def SameButFor (name : Bytes) (saved : Bytes) (entry entry' : ArchiveEntry) : Prop :=
  entry' = entry ∨ entry.path = name ∧ entry.kind = .file saved ∧
    entry' = ⟨name, entry.mode, .file (saved ++ DebugProfile.directive)⟩

instance (name saved : Bytes) (entry entry' : ArchiveEntry) :
    Decidable (SameButFor name saved entry entry') :=
  inferInstanceAs (Decidable (_ ∨ _))

namespace Sample

open BuildContext.Sample (file folder entry fileEntry)

def linked : Node := folder
  [(".shipwright", .link (Bytes.ofString "locks")),
    ("conf", folder [("Dockerfile", file "FROM scratch")]), ("link", .link (Bytes.ofString "conf")),
    ("locks", folder [])]

def lockEntry (path : String) (time : Timestamp) : ArchiveEntry :=
  entry path 0o644 (.file (LockRecord.fileText ⟨Sample.owner, time⟩))

def linkedSent (config : Bytes) : BuildContext where
  dockerfile := "link/Dockerfile"
  entries :=
    [entry "conf" 0o755 .directory, entry "conf/Dockerfile" 0o644 (.file config),
      entry "link" 0o777 (.link (Bytes.ofString "conf")), entry "locks" 0o755 .directory,
      lockEntry "locks/publish.lock" .epoch, entry "link/Dockerfile" 0o644 (.file config)]

theorem firstRequest_linked_release :
    firstRequest "conf/Dockerfile" "link/Dockerfile" (workspace linked .epoch) .release =
      some (DaemonClient.buildRequest (baseStep "link/Dockerfile")
        (linkedSent (Bytes.ofString "FROM scratch"))) := by
  refine firstRequest_eq (by decide +kernel) .release ?_
  rw [ofStep_eq_of_tour (root / .ofString "link/Dockerfile") (.ofString "link/Dockerfile")
    (Bytes.ofString "FROM scratch") (by decide +kernel) (by decide +kernel) rfl (by decide +kernel)
    (by decide +kernel) (by decide +kernel)]
  decide +kernel

theorem firstRequest_linked_debug :
    firstRequest "conf/Dockerfile" "link/Dockerfile" (workspace linked .epoch) .debug =
      some (DaemonClient.buildRequest (baseStep "link/Dockerfile")
        (linkedSent (Bytes.ofString "FROM scratch" ++ DebugProfile.directive))) := by
  refine firstRequest_eq (by decide +kernel)
    (firstBuild_debug (Bytes.ofString "FROM scratch") (by decide +kernel) (by decide +kernel)) ?_
  rw [ofStep_eq_of_tour (root / .ofString "link/Dockerfile") (.ofString "link/Dockerfile")
    (Bytes.ofString "FROM scratch" ++ DebugProfile.directive) (by decide +kernel)
    (by decide +kernel) rfl (by decide +kernel) (by decide +kernel) (by decide +kernel)]
  decide +kernel

def stale : Node := folder
  [(".shipwright", folder [("publish.lock", file "FROM scratch")]),
    ("Cargo.toml", file "[package]")]

def staleSent (lock : ArchiveEntry) : BuildContext where
  dockerfile := ".shipwright/publish.lock"
  entries := [fileEntry "Cargo.toml" "[package]", lock]

theorem firstRequest_stale :
    firstRequest "Cargo.toml" ".shipwright/publish.lock" (workspace stale Sample.halfPast)
        .release =
      some (DaemonClient.buildRequest (baseStep ".shipwright/publish.lock")
        (staleSent (lockEntry ".shipwright/publish.lock" Sample.halfPast))) := by
  refine firstRequest_eq (by decide +kernel) .release ?_
  rw [ofStep_eq_of_tour (root / .ofString ".shipwright/publish.lock")
    (.ofString ".shipwright/publish.lock") (LockRecord.fileText ⟨Sample.owner, Sample.halfPast⟩)
    (by decide +kernel) (by decide +kernel) rfl (by decide +kernel) (by decide +kernel)
    (by decide +kernel)]
  decide +kernel

end Sample

/-- A Dockerfile that is reached through a link to the directory of the configuration file is sent a
second time, and has the directive there as well. And the lock is sent if its directory is a link to
another one in the project, or if it is the Dockerfile. -/
theorem base_contexts_differ_behind_links :
    let project := Sample.project "conf/Dockerfile"
    let fs := Sample.workspace Sample.linked .epoch
    let saved := Bytes.ofString "FROM scratch"
    let sent := Sample.linkedSent saved
    let sent' := Sample.linkedSent (saved ++ DebugProfile.directive)
    let config := [Bytes.ofString "work", Bytes.ofString "conf", Bytes.ofString "Dockerfile"]
    fs.place .follow project.configPath = .ok (.taken config) ∧
      (∀ x ∈ fs.trail .follow project.configPath, x = config ∨ fs.turns x = some .enter) ∧
      fs.place .keep (Sample.root / .ofString "link/Dockerfile") = .ok (.taken config) ∧
      fs.face? config = some (.file 0 ⟨0o644, .epoch⟩ saved) ∧
      fs.root.Throughout (fun node => ignoreFile.text ∉ node.entries.map Prod.fst) ∧
      Sample.firstRequest "conf/Dockerfile" "link/Dockerfile" fs .release =
        some (DaemonClient.buildRequest (Sample.baseStep "link/Dockerfile") sent) ∧
      Sample.firstRequest "conf/Dockerfile" "link/Dockerfile" fs .debug =
        some (DaemonClient.buildRequest (Sample.baseStep "link/Dockerfile") sent') ∧
      ¬ List.Forall₂ (SameButFor (Bytes.ofString "conf/Dockerfile") saved) sent.entries
        sent'.entries ∧
      Sample.lockEntry "locks/publish.lock" .epoch ∈ sent.entries ∧
      Sample.lockEntry "locks/publish.lock" .epoch ∈ sent'.entries ∧
      Sample.firstRequest "Cargo.toml" ".shipwright/publish.lock"
          (Sample.workspace Sample.stale Sample.halfPast) .release =
        some (DaemonClient.buildRequest (Sample.baseStep ".shipwright/publish.lock")
          (Sample.staleSent (Sample.lockEntry ".shipwright/publish.lock" Sample.halfPast))) := by
  intro project fs saved sent sent' config
  refine ⟨by decide +kernel, by decide +kernel, by decide +kernel, by decide +kernel,
    Node.throughout_of_all (by decide +kernel), Sample.firstRequest_linked_release,
    Sample.firstRequest_linked_debug, ?_, by decide +kernel, by decide +kernel,
    Sample.firstRequest_stale⟩
  intro halike
  have hlast := (List.forall₂_iff_zip.mp halike).2
    (show (BuildContext.Sample.entry "link/Dockerfile" 0o644 (.file saved),
      BuildContext.Sample.entry "link/Dockerfile" 0o644 (.file (saved ++ DebugProfile.directive))) ∈
        sent.entries.zip sent'.entries by decide +kernel)
  exact absurd hlast (by decide +kernel)

end Publication

end ReleasePublisher
