import Mathlib.Data.List.Find
import ReleasePublisher.CommandLine.Survey
import ReleasePublisher.Proofs.CommandLine.Course
import ReleasePublisher.Proofs.FileSystem.Sightings
import ReleasePublisher.Proofs.Lock.Separation

/-!
What is checked before a publication. Whatever is missing, the program fails with the status 1, has
changed nothing and has sent at most its first request. What it says is seen at the end of some
paths, so that the lock of another run makes no difference unless one of them leads to it.
-/
namespace ReleasePublisher

namespace BuildSource

/-- A build without its sources is found before all builds. -/
theorem preflight_error {fs : FileSystem} {root : Path} {plan : Plan} {step : BuildStep}
    {error : BuildError} (hmem : step ∈ plan.builds) (h : resolve fs root step = .error error) :
    ∃ error, preflight fs root plan = .error error := by
  rw [preflight]
  generalize plan.builds = steps at hmem
  induction steps with
  | nil => simp at hmem
  | cons first rest ih =>
    rw [List.mapM_cons]
    cases hfirst : resolve fs root first with
    | error fault => exact ⟨fault, rfl⟩
    | ok source =>
      rcases List.mem_cons.mp hmem with rfl | hrest
      · rw [h] at hfirst
        cases hfirst
      · obtain ⟨fault, hfault⟩ := ih hrest
        exact ⟨fault, by rw [hfault]; rfl⟩

/-- The check sees no more of a file system than the sources of the builds. -/
theorem preflight_congr {fs fs' : FileSystem} {root : Path} {plan : Plan}
    (h : ∀ step ∈ plan.builds, resolve fs' root step = resolve fs root step) :
    preflight fs' root plan = preflight fs root plan := by
  rw [preflight, preflight]
  generalize plan.builds = steps at h
  induction steps with
  | nil => rfl
  | cons first rest ih =>
    rw [List.mapM_cons, List.mapM_cons, h first List.mem_cons_self,
      ih fun step hstep => h step (List.mem_cons_of_mem _ hstep)]

end BuildSource

theorem DaemonClient.state_ping {δ : Type} (client : DaemonClient δ) (s : DaemonState δ) :
    (client.ping s).2 = (client.send .ping s).2 := by
  rw [ping]
  split <;> rename_i h <;> rw [h]

namespace CommandLine

section

variable {δ : Type} {world : World δ} {arguments : List Bytes}

/-- Something is missing that a publication needs. More than one thing may be. -/
inductive Unready (world : World δ) (given : Arguments) (plan : Plan) : Prop
  | rootless {error : RootError}
      (failure : ProjectRoot.find world.disk world.environment given.projectRoot = .error error) :
      Unready world given plan
  | sourceless {root : Path} {step : BuildStep} {error : BuildError}
      (found : ProjectRoot.find world.disk world.environment given.projectRoot = .ok root)
      (mem : step ∈ plan.builds)
      (failure : BuildSource.resolve world.disk root step = .error error) :
      Unready world given plan
  | unconfigured {root : Path}
      (found : ProjectRoot.find world.disk world.environment given.projectRoot = .ok root)
      (debug : plan.mode = .debug) (failure : world.disk.isFile (root / given.configFile) = false) :
      Unready world given plan
  | unconnected (failure : world.connect (DaemonSocket.path world.environment) = none) :
      Unready world given plan
  | unanswered {transport : Transport δ} {status : Nat} {body : Bytes} {daemon : δ}
      {fault : DaemonFault}
      (connected : world.connect (DaemonSocket.path world.environment) = some transport)
      (answer : transport .ping world.daemon.daemon = (.reply status body, daemon))
      (refusal : DaemonAnswer.refusal? status body = some fault) : Unready world given plan
  | disconnected {transport : Transport δ} {part : Option (Nat × Bytes)} {reason : String}
      {daemon : δ} (connected : world.connect (DaemonSocket.path world.environment) = some transport)
      (answer : transport .ping world.daemon.daemon = (.broken part reason, daemon)) :
      Unready world given plan

theorem obstacle?_of_sourceless {fs : FileSystem} {project : Project} {plan : Plan}
    {step : BuildStep} {error : BuildError} (hmem : step ∈ plan.builds)
    (h : BuildSource.resolve fs project.root step = .error error) :
    obstacle? fs project plan ≠ none := by
  obtain ⟨fault, hfault⟩ := BuildSource.preflight_error hmem h
  simp [obstacle?, hfault]

theorem obstacle?_of_unconfigured {fs : FileSystem} {project : Project} {plan : Plan}
    (hdebug : plan.mode = .debug) (h : fs.isFile project.configPath = false) :
    obstacle? fs project plan ≠ none := by
  rw [obstacle?]
  split
  · simp
  · simp [hdebug, h, BuildMode.isDebug]

/-- When all files are there, it is the daemon that is missing. -/
theorem Unready.daemon {root : Path} {given : Arguments} {plan : Plan}
    (h : Unready world given plan)
    (hroot : ProjectRoot.find world.disk world.environment given.projectRoot = .ok root)
    (hclear : obstacle? world.disk ⟨root, given.configFile⟩ plan = none) :
    world.connect (DaemonSocket.path world.environment) = none ∨
      ∃ transport fault, world.connect (DaemonSocket.path world.environment) = some transport ∧
        ((world.client transport root).ping world.daemon).1 = some (.fault fault) := by
  cases h with
  | rootless failure =>
    rw [hroot] at failure
    cases failure
  | sourceless found mem failure =>
    rw [hroot] at found
    cases found
    exact absurd hclear (obstacle?_of_sourceless mem failure)
  | unconfigured found debug failure =>
    rw [hroot] at found
    cases found
    exact absurd hclear (obstacle?_of_unconfigured debug failure)
  | unconnected failure => exact Or.inl failure
  | @unanswered transport status body daemon fault connected answer refusal =>
    refine Or.inr ⟨transport, fault, connected, ?_⟩
    simp [DaemonClient.ping, DaemonClient.send, World.client, answer, refusal]
  | @disconnected transport part reason daemon connected answer =>
    refine Or.inr ⟨transport, .broken reason, connected, ?_⟩
    simp [DaemonClient.ping, DaemonClient.send, World.client, answer]

structure LeavesNothing (world : World δ) (outcome : Outcome δ) : Prop where
  exitCode_eq : outcome.exitCode = 1
  disk_eq : outcome.disk = world.disk
  requests_eq : outcome.daemon.requests = world.daemon.requests ∨
    outcome.daemon.requests = world.daemon.requests ++ [.ping]
  helperRuns_eq : outcome.daemon.helperRuns = world.daemon.helperRuns

/-- Whatever is missing, the program fails before its publication. -/
theorem Unready.leavesNothing (u : Understood world arguments) (hreal : u.given.dryRun = false)
    (h : Unready world u.given u.plan) : LeavesNothing world (run world arguments) := by
  -- with all files in their places, only the daemon can be missing
  have hdaemon : ∀ c : Checked world arguments,
      world.connect (DaemonSocket.path world.environment) = none ∨
        ∃ transport fault, world.connect (DaemonSocket.path world.environment) = some transport ∧
          ((world.client transport c.root).ping world.daemon).1 = some (.fault fault) := by
    intro c
    obtain rfl : c.toUnderstood = u := u.eq c.toUnderstood
    exact h.daemon c.root_eq c.clear
  have hcourse := course world arguments
  generalize run world arguments = outcome at hcourse
  cases hcourse with
  | asked stopped => cases u.parse_eq.symm.trans stopped
  | refused stopped => cases u.parse_eq.symm.trans stopped
  | untagged parsed untagged =>
    cases u.parse_eq.symm.trans parsed
    cases u.tag_eq.symm.trans untagged
  | listed u' dry =>
    obtain rfl := u.eq u'
    simp [hreal] at dry
  | @unanswered transport fault daemon c connected answer =>
    have hstate := DaemonClient.state_ping (world.client transport c.root) world.daemon
    rw [answer] at hstate
    obtain rfl : daemon = _ := hstate
    exact ⟨rfl, rfl, Or.inr rfl, rfl⟩
  | @silent transport daemon c connected answer =>
    obtain hconnect | ⟨transport', fault, hconnect, hping⟩ := hdaemon c
    · cases connected.symm.trans hconnect
    · cases connected.symm.trans hconnect
      simp [answer] at hping
  | carried p =>
    obtain hconnect | ⟨transport, fault, hconnect, hping⟩ := hdaemon p.toChecked
    · cases p.connect_eq.symm.trans hconnect
    · cases p.connect_eq.symm.trans hconnect
      cases p.pong.symm.trans hping
  | _ => exact ⟨rfl, rfl, Or.inl rfl, rfl⟩

def candidates (world : World δ) (given : Arguments) : List Path :=
  Survey.candidates world.environment (world.disk.currentDirectory.toOption.getD ⟨[]⟩) given

/-- The project is one of the directories that may be. -/
theorem mem_candidates_of_find {given : Arguments} {root : Path}
    (h : ProjectRoot.find world.disk world.environment given.projectRoot = .ok root) :
    root ∈ candidates world given := by
  have hexisting : ∀ {path : Path}, ProjectRoot.existing world.disk path = .ok root →
      root = path := by
    intro path hpath
    rw [ProjectRoot.existing] at hpath
    split at hpath
    · exact (Except.ok.inj hpath).symm
    · cases hpath
  simp only [ProjectRoot.find] at h
  rw [candidates, Survey.candidates]
  cases hgiven : given.projectRoot with
  | some path =>
    rw [hgiven] at h
    exact List.mem_singleton.mpr (hexisting h)
  | none =>
    cases htext : world.environment.text? ProjectRoot.rootVariable with
    | some text =>
      simp only [hgiven, htext] at h
      exact List.mem_singleton.mpr (hexisting h)
    | none =>
      cases hhere : world.disk.currentDirectory with
      | error fault => simp [hgiven, htext, hhere] at h
      | ok here =>
        simp only [hgiven, htext, hhere, ProjectRoot.findFrom] at h
        split at h
        · next hfound =>
          cases h
          exact List.mem_of_find?_eq_some hfound
        · cases h

def namesLookedAt (given : Arguments) (plan : Plan) : List Path :=
  ProjectRoot.markers ++ plan.builds.map (fun step => .ofString step.dockerfile) ++
    if plan.mode.isDebug then [given.configFile] else []

def lookedAt (world : World δ) (given : Arguments) (plan : Plan) : List Path :=
  DaemonSocket.path world.environment :: (candidates world given).flatMap fun root =>
    root :: (namesLookedAt given plan).map (root / ·)

structure Indistinct (world : World δ) (given : Arguments) (plan : Plan) (disk : FileSystem) :
    Prop where
  here_eq : disk.workingDirectory = world.disk.workingDirectory
  alike : ∀ path ∈ lookedAt world given plan, FileSystem.SeenAlike world.disk disk path

namespace Indistinct

variable {given : Arguments} {plan : Plan} {disk : FileSystem} {root : Path}

theorem root_alike (h : Indistinct world given plan disk) (hroot : root ∈ candidates world given) :
    FileSystem.SeenAlike world.disk disk root :=
  h.alike root (List.mem_cons_of_mem _ (List.mem_flatMap.mpr ⟨root, hroot, List.mem_cons_self⟩))

theorem name_alike (h : Indistinct world given plan disk) (hroot : root ∈ candidates world given)
    {name : Path} (hname : name ∈ namesLookedAt given plan) :
    FileSystem.SeenAlike world.disk disk (root / name) :=
  h.alike _ (List.mem_cons_of_mem _ (List.mem_flatMap.mpr
    ⟨root, hroot, List.mem_cons_of_mem _ (List.mem_map.mpr ⟨name, hname, rfl⟩)⟩))

theorem currentDirectory_eq (h : Indistinct world given plan disk) :
    disk.currentDirectory = world.disk.currentDirectory := by
  rw [FileSystem.currentDirectory, FileSystem.currentDirectory, h.here_eq]

theorem isRoot_eq (h : Indistinct world given plan disk) (hroot : root ∈ candidates world given) :
    ProjectRoot.isRoot disk root = ProjectRoot.isRoot world.disk root := by
  have hmarker : ∀ marker ∈ ProjectRoot.markers,
      disk.isFile (root / marker) = world.disk.isFile (root / marker) := fun marker hmarker =>
    (h.name_alike hroot (List.mem_append_left _ (List.mem_append_left _ hmarker))).isFile_eq
  rw [ProjectRoot.isRoot, ProjectRoot.isRoot, Bool.eq_iff_iff, List.all_eq_true, List.all_eq_true]
  exact forall₂_congr fun marker hmem => by rw [hmarker marker hmem]

/-- The same project is found where the paths that are looked at show the same. -/
theorem find_eq (h : Indistinct world given plan disk) :
    ProjectRoot.find disk world.environment given.projectRoot =
      ProjectRoot.find world.disk world.environment given.projectRoot := by
  have hroot : ∀ root ∈ candidates world given, FileSystem.SeenAlike world.disk disk root :=
    fun root => h.root_alike
  have hisRoot : ∀ root ∈ candidates world given,
      ProjectRoot.isRoot disk root = ProjectRoot.isRoot world.disk root := fun root => h.isRoot_eq
  simp only [candidates, Survey.candidates] at hroot hisRoot
  simp only [ProjectRoot.find, h.currentDirectory_eq]
  cases hgiven : given.projectRoot with
  | some path =>
    simp only [hgiven, List.mem_singleton] at hroot
    simp only [ProjectRoot.existing, (hroot path rfl).isDirectory_eq]
  | none =>
    cases htext : world.environment.text? ProjectRoot.rootVariable with
    | some text =>
      simp only [hgiven, htext, List.mem_singleton] at hroot
      simp only [ProjectRoot.existing, (hroot _ rfl).isDirectory_eq]
    | none =>
      cases hhere : world.disk.currentDirectory with
      | error fault => rfl
      | ok here =>
        simp only [hgiven, htext, hhere, Except.toOption, Option.getD_some] at hisRoot
        simp only [ProjectRoot.findFrom, List.find?_congr hisRoot]

theorem resolve_eq (h : Indistinct world given plan disk) (hroot : root ∈ candidates world given)
    {step : BuildStep} (hstep : step ∈ plan.builds) :
    BuildSource.resolve disk root step = BuildSource.resolve world.disk root step := by
  have hname : Path.ofString step.dockerfile ∈ namesLookedAt given plan :=
    List.mem_append_left _ (List.mem_append_right _ (List.mem_map.mpr ⟨step, hstep, rfl⟩))
  have hfile := (h.name_alike hroot hname).isFile_eq
  have hleads := (h.root_alike hroot).leads_eq
  have hdirectory := (h.root_alike hroot).isDirectory_eq
  have hcontext : BuildSource.findContext disk root = BuildSource.findContext world.disk root := by
    simp only [FileSystem.leads, FileSystem.isDirectory] at hleads hdirectory
    rw [BuildSource.findContext, BuildSource.findContext]
    cases hnode : world.disk.find? root <;> cases hnode' : disk.find? root <;> simp_all
  simp only [BuildSource.resolve, BuildSource.findDockerfile, hfile, hcontext]

theorem obstacle?_eq (h : Indistinct world given plan disk)
    (hroot : root ∈ candidates world given) :
    obstacle? disk ⟨root, given.configFile⟩ plan =
      obstacle? world.disk ⟨root, given.configFile⟩ plan := by
  have hpreflight : BuildSource.preflight disk root plan =
      BuildSource.preflight world.disk root plan :=
    BuildSource.preflight_congr fun step hstep => h.resolve_eq hroot hstep
  rw [obstacle?, obstacle?, hpreflight]
  cases hmode : plan.mode with
  | release => rfl
  | debug =>
    have hname : given.configFile ∈ namesLookedAt given plan := by
      rw [namesLookedAt, hmode]
      exact List.mem_append_right _ List.mem_cons_self
    have hfile : disk.isFile (Project.configPath ⟨root, given.configFile⟩) =
        world.disk.isFile (Project.configPath ⟨root, given.configFile⟩) :=
      (h.name_alike hroot hname).isFile_eq
    rw [hfile]

end Indistinct

/-- What is missing is reported alike in another file system that shows the same. -/
theorem Unready.run_eq (u : Understood world arguments) (hreal : u.given.dryRun = false)
    {disk : FileSystem} (halike : Indistinct world u.given u.plan disk)
    (h : Unready world u.given u.plan) :
    run { world with disk } arguments = { run world arguments with disk } := by
  let u' : Understood { world with disk } arguments := ⟨u.given, u.tag, u.parse_eq, u.tag_eq⟩
  have hrun : run { world with disk } arguments = publish { world with disk } u.given u.plan := by
    rw [u'.run_eq]
    exact if_neg (by simp [u', hreal])
  have hfind := halike.find_eq
  have hleads := (halike.alike _ List.mem_cons_self).leads_eq
  rw [hrun, u.run_eq, hreal, if_neg (by simp), publish, publish, hfind]
  cases hroot : ProjectRoot.find world.disk world.environment u.given.projectRoot with
  | error error => rfl
  | ok root =>
    have hobstacle := halike.obstacle?_eq (mem_candidates_of_find hroot)
    dsimp only
    rw [hobstacle]
    cases hclear : obstacle? world.disk ⟨root, u.given.configFile⟩ u.plan with
    | some text => rfl
    | none =>
      rcases h.daemon hroot hclear with hconnect | ⟨transport, fault, hconnect, hping⟩
      · dsimp only
        rw [connectAndRun, connectAndRun, hconnect, hleads]
        rfl
      · dsimp only
        rw [connectAndRun, connectAndRun, hconnect]
        have hclient : ({ world with disk } : World δ).client transport root =
          world.client transport root := rfl
        dsimp only
        rw [hclient]
        generalize (world.client transport root).ping world.daemon = answer at hping ⊢
        obtain ⟨problem, daemon⟩ := answer
        obtain rfl : problem = some (.fault fault) := hping
        rfl

namespace Indistinct

variable {given : Arguments} {plan : Plan} {disk : FileSystem}

/-- What is missing in a file system that shows the same is missing here. -/
theorem unready (h : Indistinct world given plan disk)
    (hunready : Unready { world with disk } given plan) : Unready world given plan := by
  have hfind := h.find_eq
  cases hunready with
  | rootless failure => exact .rootless (hfind.symm.trans failure)
  | sourceless found mem failure =>
    have hroot := hfind.symm.trans found
    have hsame := h.resolve_eq (mem_candidates_of_find hroot) mem
    exact .sourceless hroot mem (hsame.symm.trans failure)
  | @unconfigured root found debug failure =>
    have hroot := hfind.symm.trans found
    have hname : given.configFile ∈ namesLookedAt given plan := by
      rw [namesLookedAt, debug]
      exact List.mem_append_right _ List.mem_cons_self
    exact .unconfigured hroot debug
      ((h.name_alike (mem_candidates_of_find hroot) hname).isFile_eq.symm.trans failure)
  | unconnected failure => exact .unconnected failure
  | unanswered connected answer refusal => exact .unanswered connected answer refusal
  | disconnected connected answer => exact .disconnected connected answer

/-- The lock of another run is not seen from paths on whose way it changes nothing. -/
theorem of_acquire {other : LockOwner} {place : Path} {lock : RunLock} {locked : Site}
    (hacquire : RunLock.acquire other place { disk := world.disk } = (.ok lock, locked))
    (hhere : world.disk.turns world.disk.workingDirectory.location = some .enter)
    (hoff : ∀ path ∈ lookedAt world given plan, ∀ x ∈ world.disk.trail .follow path,
      locked.disk.face? x = world.disk.face? x) :
    Indistinct world given plan locked.disk := by
  obtain ⟨-, -, ⟨l, hlock, hchanges, -⟩, -⟩ := RunLock.acquire_ok hacquire
  -- the directory of the lock may be new, but what was there before stays, the place of the process
  -- among it
  have hgrows := RunLock.grows_entered place world.disk
  have hshown : world.disk.face? world.disk.workingDirectory.location ≠ none := by
    intro hnone
    rw [FileSystem.turns_eq_none_iff.mpr hnone] at hhere
    cases hhere
  have hentered : (RunLock.entered place world.disk).turns
      (RunLock.entered place world.disk).workingDirectory.location = some .enter := by
    rw [hgrows.here_eq, FileSystem.turns_eq_of_face?_eq (hgrows.face?_eq _ hshown), hhere]
  have hkept : locked.disk.workingDirectory =
      (RunLock.entered place world.disk).workingDirectory := by
    refine hchanges.here_eq (fun heq => hlock.turns_ne (heq ▸ hentered)) fun hnone => ?_
    rw [FileSystem.turns_eq_none_iff.mpr hnone] at hentered
    cases hentered
  have heq : locked.disk.workingDirectory = world.disk.workingDirectory :=
    hkept.trans hgrows.here_eq
  exact ⟨heq, fun path hpath => FileSystem.seenAlike_of_trail (hoff path hpath) heq⟩

end Indistinct

/-- Whatever is missing for a publication, the program fails before it, with the status 1 and
nothing changed; and it reports the same when another run has taken the lock, if nothing has changed
by that on the way of the paths that are looked at. -/
theorem unready_reported (world : World δ) (arguments : List Bytes)
    (u : Understood world arguments) (hreal : u.given.dryRun = false) :
    (Unready world u.given u.plan → LeavesNothing world (run world arguments)) ∧
    ∀ other place lock locked,
      RunLock.acquire other place { disk := world.disk } = (.ok lock, locked) →
      world.disk.turns world.disk.workingDirectory.location = some .enter →
      (∀ path ∈ lookedAt world u.given u.plan, ∀ x ∈ world.disk.trail .follow path,
        locked.disk.face? x = world.disk.face? x) →
      Unready world u.given u.plan ∨ Unready { world with disk := locked.disk } u.given u.plan →
      run { world with disk := locked.disk } arguments =
        { run world arguments with disk := locked.disk } := by
  refine ⟨fun h => h.leavesNothing u hreal, ?_⟩
  intro other place lock locked hacquire hhere hoff hunready
  have halike : Indistinct world u.given u.plan locked.disk := .of_acquire hacquire hhere hoff
  have h : Unready world u.given u.plan := hunready.elim id halike.unready
  exact h.run_eq u hreal halike

end

namespace Sample

def other : LockOwner := ⟨"elsewhere", 7, pid_lt⟩

def locked (project : Node) : FileSystem :=
  (RunLock.acquire other (.ofString "/work") { disk := disk project }).2.disk

def incomplete : Node := directory [("Cargo.toml", file 0), ("Dockerfile.useCurrentArch", file 1)]

def deserted (disk : FileSystem) : World Unit :=
  { world project (daemon 200 "") with disk, connect := fun _ => none }

theorem acquire_of_isOk (project : Node)
    (h : (RunLock.acquire other (.ofString "/work") { disk := disk project }).1.toOption.isSome) :
    ∃ lock site, RunLock.acquire other (.ofString "/work") { disk := disk project } =
      (.ok lock, site) ∧ site.disk = locked project := by
  rcases hacquire : RunLock.acquire other (.ofString "/work") { disk := disk project } with
    ⟨error | lock, site⟩
  · simp [hacquire, Except.toOption] at h
  · exact ⟨lock, site, rfl, by rw [locked, hacquire]⟩

def understood (disk : FileSystem) : Understood (deserted disk) (words ["1.0"]) :=
  ⟨given none false, tag, parse_release, ofArgument?_tag⟩

end Sample

theorem unready_reported_without_daemon_and_sources :
    Unready (Sample.deserted (Sample.disk Sample.incomplete)) (Sample.given none false)
        (planOf (Sample.given none false) Sample.tag) ∧
      (run (Sample.deserted (Sample.disk Sample.incomplete)) (Sample.words ["1.0"])).exitCode = 1 ∧
      run (Sample.deserted (Sample.locked Sample.incomplete)) (Sample.words ["1.0"]) =
        { run (Sample.deserted (Sample.disk Sample.incomplete)) (Sample.words ["1.0"]) with
          disk := Sample.locked Sample.incomplete } := by
  obtain ⟨lock, site, hacquire, hsite⟩ :=
    Sample.acquire_of_isOk Sample.incomplete (by decide +kernel)
  have hunready : Unready (Sample.deserted (Sample.disk Sample.incomplete))
      (Sample.given none false) (planOf (Sample.given none false) Sample.tag) := .unconnected rfl
  obtain ⟨hfails, halike⟩ := unready_reported (Sample.deserted (Sample.disk Sample.incomplete))
    (Sample.words ["1.0"]) (Sample.understood _) rfl
  have hoff : ∀ path ∈ lookedAt (Sample.deserted (Sample.disk Sample.incomplete))
      (Sample.given none false) (planOf (Sample.given none false) Sample.tag),
      ∀ x ∈ (Sample.disk Sample.incomplete).trail .follow path,
        (Sample.locked Sample.incomplete).face? x = (Sample.disk Sample.incomplete).face? x := by
    decide +kernel
  refine ⟨hunready, (hfails hunready).exitCode_eq, ?_⟩
  rw [← hsite] at hoff ⊢
  exact halike Sample.other (.ofString "/work") lock site hacquire (by decide +kernel) hoff
    (Or.inl hunready)

/-- The lock is given as the configuration file. That file is missing as long as nobody has the
lock, and there when another run has it, so that something else is reported as missing. -/
theorem not_reported_alike_of_lock_as_configuration :
    let arguments := Sample.words ["1.0", "true", "--config-file", ".shipwright/publish.lock"]
    let free := Sample.deserted (Sample.disk Sample.project)
    let locked := Sample.deserted (Sample.locked Sample.project)
    (RunLock.acquire Sample.other (.ofString "/work") { disk := Sample.disk Sample.project }).1 =
        .ok ⟨.ofString "/work"⟩ ∧
      (run free arguments).exitCode = 1 ∧ (run locked arguments).exitCode = 1 ∧
      (run locked arguments).errorOutput ≠ (run free arguments).errorOutput := by
  refine ⟨eq_ok_of_toOption (by decide +kernel), by decide +kernel, by decide +kernel, ?_⟩
  decide +kernel

end CommandLine

end ReleasePublisher
