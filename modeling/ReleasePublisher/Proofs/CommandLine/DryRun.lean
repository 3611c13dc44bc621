import ReleasePublisher.Proofs.CommandLine.ExitStatus
import ReleasePublisher.Proofs.Context.Dockerfile

/-!
What a dry run tells of a real one. Its numbered lines are a trace of the steps that are to come: a
run in which everything succeeds does just what the lines say to the files and the daemon, one after
the other, between the taking and the giving back of the lock. The lines come from the plan alone.
-/
namespace ReleasePublisher

/-- Where all calls have succeeded, all images have been published. -/
theorem Plan.Answers.exists_report {plan : Plan} {answers : List (EngineCall × CallEnding)}
    {result : RunResult} (h : plan.Answers answers result)
    (hall : ∀ a ∈ answers, a.2 = .succeeded) : ∃ report, result = .published report := by
  have hlast : ∀ {done : List (EngineCall × CallEnding)} {call : EngineCall} {ending : CallEnding},
      (∀ a ∈ done ++ [(call, ending)], a.2 = .succeeded) → ending = .succeeded := fun hall =>
    hall _ (List.mem_append_right _ List.mem_cons_self)
  cases h with
  | published => exact ⟨_, rfl⟩
  | buildFailed split => cases hlast hall
  | pushFailed split => cases hlast hall
  | interrupted split => cases hlast hall
  | panicked split => cases hlast hall
  | abandoned split => cases hlast hall

theorem Publication.eq_ok_of_resultOf {result : Except Stop Report} {report : Report}
    (h : resultOf result = .published report) : result = .ok report := by
  cases result with
  | ok report' =>
    cases h
    rfl
  | error stop => cases stop <;> cases h

namespace CommandLine

variable {δ : Type}

def numbered (n : Nat) (text : String) : String := stepNumber n ++ ". " ++ text ++ "\n"

/-- A text tells what is done to some files, and what is sent by it: the configuration file is
toggled, or a call is made and succeeds. What is sent for a build are the files as they are then. -/
inductive Performs (client : DaemonClient δ) (path : Path) (saved : Bytes) :
    String → FileSystem → Moment → List DaemonRequest → Prop
  | profileOn {before on : FileSystem} (enabled : Publication.Enabled path saved before on) :
      Performs client path saved "enable debug profile" before (.changed on) []
  | build {files : FileSystem} {context : BuildContext} (step : BuildStep)
      (context_eq : BuildContext.ofStep files client.root step = .ok context) :
      Performs client path saved ("build " ++ step.name ++ " -> " ++ step.image.text) files
        (.called ⟨.build step, files, .succeeded, files⟩) [DaemonClient.buildRequest step context]
  | profileOff {before off : FileSystem} (restored : before.write path saved = .ok off) :
      Performs client path saved "restore build config" before (.changed off) []
  | push {files : FileSystem} (image : ImageRef) (credentials : Option Credentials) :
      Performs client path saved ("push " ++ image.text) files
        (.called ⟨.push image, files, .succeeded, files⟩)
        [.inspect image.text, .push image.repository image.tag credentials]

/-- Lines, numbered from `n` on, tell all that is done one after the other from some files to
others, and all requests that are sent by it. -/
inductive Foretells (client : DaemonClient δ) (path : Path) (saved : Bytes) :
    Nat → FileSystem → List String → List Moment → List DaemonRequest → FileSystem → Prop
  | nothing {n : Nat} {fs : FileSystem} : Foretells client path saved n fs [] [] [] fs
  | next {n : Nat} {text : String} {before stop : FileSystem} {moment : Moment}
      {lines : List String} {moments : List Moment} {sent requests : List DaemonRequest}
      (does : Performs client path saved text before moment sent)
      (rest : Foretells client path saved (n + 1) moment.disk lines moments requests stop) :
      Foretells client path saved n before (numbered n text :: lines) (moment :: moments)
        (sent ++ requests) stop

def linesFrom (n : Nat) (steps : List Step) : List String :=
  (steps.zipIdx n).map fun (step, n) => numbered n step.describe

theorem linesFrom_cons (n : Nat) (step : Step) (rest : List Step) :
    linesFrom n (step :: rest) = numbered n step.describe :: linesFrom (n + 1) rest := rfl

theorem linesFrom_append (n : Nat) (first rest : List Step) :
    linesFrom n (first ++ rest) = linesFrom n first ++ linesFrom (n + first.length) rest := by
  rw [linesFrom, List.zipIdx_append, List.map_append]
  rfl

section

variable {client : DaemonClient δ} {path : Path} {saved : Bytes} {n : Nat}
  {start middle stop : FileSystem} {s s' : DaemonState δ}

/-- Two tellings make one, if the lines of the second are numbered on from those of the first. -/
theorem Foretells.append {lines lines' : List String} {moments moments' : List Moment}
    {requests requests' : List DaemonRequest}
    (h : Foretells client path saved n start lines moments requests middle)
    (h' : Foretells client path saved (n + lines.length) middle lines' moments' requests' stop) :
    Foretells client path saved n start (lines ++ lines') (moments ++ moments')
      (requests ++ requests') stop := by
  induction h with
  | nothing => exact h'
  | @next n text before stop moment lines moments sent requests does rest ih =>
    have hlength : n + (numbered n text :: lines).length = n + 1 + lines.length := by
      rw [List.length_cons]
      omega
    rw [List.append_assoc]
    exact .next does (ih (hlength ▸ h'))

def Tells (client : DaemonClient δ) (path : Path) (saved : Bytes) (text : String)
    (call : EngineCall) : Prop :=
  ∀ s files, (client.engine call s files).ending = .succeeded → ∃ sent,
    Performs client path saved text files (.called (Publication.exchangeOf client.engine call s files))
        sent ∧
      (client.engine call s files).state.requests = s.requests ++ sent

/-- The client changes no files. -/
theorem exchangeOf_of_succeeded {call : EngineCall} {files : FileSystem}
    (h : (client.engine call s files).ending = .succeeded) :
    Publication.exchangeOf client.engine call s files = ⟨call, files, .succeeded, files⟩ := by
  rw [Publication.exchangeOf, h]
  cases call <;> rfl

theorem ending_eq_succeeded {ending : ActionEnding} (h : ending.toCallEnding = .succeeded) :
    ending = .succeeded := by
  cases ending with
  | succeeded => rfl
  | failed error => cases h
  | interrupted => cases h

/-- A build that succeeds has sent the files as they were when it began. -/
theorem tells_build (step : BuildStep) :
    Tells client path saved (Step.build step).describe (.build step) := by
  intro s files hending
  have hsucceeded : (client.build step files s).ending = .succeeded := ending_eq_succeeded hending
  rw [exchangeOf_of_succeeded hending]
  rcases client.build_cases step files s with
    ⟨context, hcontext, hrequests⟩ | ⟨error, -, hfailed, -⟩
  · exact ⟨_, .build step hcontext, hrequests⟩
  · rw [hfailed] at hsucceeded
    cases hsucceeded

theorem tells_push (step : PushStep) :
    Tells client path saved (Step.push step).describe (.push step.image) := by
  intro s files hending
  have hsucceeded : (client.push step.image files s).ending = .succeeded :=
    ending_eq_succeeded hending
  rw [exchangeOf_of_succeeded hending]
  rcases client.push_cases step.image files s with
    ⟨credentials, -, -, hrequests, -⟩ | ⟨-, -, hfailed⟩
  · exact ⟨_, .push step.image credentials, hrequests⟩
  · exact absurd hsucceeded hfailed

/-- Calls that all succeed are what the lines of their steps tell. -/
theorem foretells_calls {α : Type} {call : α → EngineCall} {step : α → Step}
    (tells : ∀ a, Tells client path saved (step a).describe (call a))
    {items : List α} {calls : List Exchange} (hlinked : Linked start calls stop)
    (hanswered : Publication.Answered client.engine s calls s')
    (hanswers : calls.map Exchange.answer = items.map fun a => (call a, CallEnding.succeeded)) :
    ∃ requests, Foretells client path saved n start (linesFrom n (items.map step))
        (calls.map .called) requests stop ∧
      s'.requests = s.requests ++ requests := by
  induction items generalizing calls n start s with
  | nil =>
    obtain rfl := List.map_eq_nil_iff.mp hanswers
    obtain rfl : stop = start := hlinked
    obtain rfl : s' = s := hanswered
    exact ⟨[], .nothing, (List.append_nil _).symm⟩
  | cons first rest ih =>
    obtain ⟨e, others, rfl, hfirst, hothers⟩ := List.map_eq_cons_iff.mp hanswers
    obtain ⟨hcall, hending⟩ := Prod.mk.inj hfirst
    obtain ⟨rfl, hnext⟩ := hlinked
    obtain ⟨hexchange, hlater⟩ := hanswered
    rw [hcall] at hexchange hlater
    have hsucceeded : (client.engine (call first) s e.before).ending = .succeeded :=
      (congrArg Exchange.ending hexchange).symm.trans hending
    obtain ⟨sent, hperforms, hsent⟩ := tells first s e.before hsucceeded
    rw [← hexchange] at hperforms
    obtain ⟨requests, hrest, hrequests⟩ := ih hnext hlater hothers
    refine ⟨sent ++ requests, .next hperforms hrest, ?_⟩
    rw [hrequests, hsent, List.append_assoc]

theorem length_linesFrom (n : Nat) (steps : List Step) :
    (linesFrom n steps).length = steps.length := by
  simp [linesFrom]

def buildSteps (plan : Plan) : List Step :=
  (if plan.mode.isDebug then [.profileOn] else []) ++ plan.builds.map .build ++
    if plan.mode.isDebug then [.profileOff] else []

theorem buildSteps_of_release {plan : Plan} (h : plan.mode = .release) :
    buildSteps plan = plan.builds.map .build := by
  simp [buildSteps, h, BuildMode.isDebug]

theorem buildSteps_of_debug {plan : Plan} (h : plan.mode = .debug) :
    buildSteps plan = .profileOn :: (plan.builds.map .build ++ [.profileOff]) := by
  simp [buildSteps, h, BuildMode.isDebug]

/-- Builds that have been made, with the toggles around them, are what the lines tell. -/
theorem foretells_built {plan : Plan} {moments : List Moment} {images : List ImageRef}
    (h : Publication.Built path plan start moments (.ok images) stop)
    (hanswered : Publication.Answered client.engine s (exchangesIn moments) s') :
    ∃ saved requests, Foretells client path saved 1 start (linesFrom 1 (buildSteps plan)) moments
        requests stop ∧
      s'.requests = s.requests ++ requests := by
  have hsucceeded : ∀ {calls : List Exchange},
      Publication.BuildPhase [] plan.builds (calls.map Exchange.answer) (.ok images) →
      calls.map Exchange.answer = plan.builds.map fun step => (.build step, .succeeded) := by
    intro calls phase
    rw [Publication.eq_succeed_of_buildPhase phase, succeed, List.map_map]
    rfl
  cases h with
  | release mode linked phase =>
    rw [exchangesIn_called] at hanswered
    rw [buildSteps_of_release mode]
    exact ⟨[], foretells_calls tells_build linked hanswered (hsucceeded phase)⟩
  | @restored saved on off middle calls images mode enabled linked phase restored =>
    simp only [List.cons_append, exchangesIn_changed, exchangesIn_append, exchangesIn_called,
      exchangesIn_nil, List.append_nil] at hanswered
    rw [buildSteps_of_debug mode, linesFrom_cons, linesFrom_append]
    obtain ⟨requests, hbuilds, hrequests⟩ :
        ∃ requests, Foretells client path saved 2 on (linesFrom 2 (plan.builds.map .build))
            (calls.map .called) requests middle ∧
          s'.requests = s.requests ++ requests :=
      foretells_calls tells_build linked hanswered (hsucceeded phase)
    have hoff : Foretells client path saved
        (2 + (linesFrom 2 (plan.builds.map .build)).length) middle
        (linesFrom (2 + (plan.builds.map Step.build).length) [.profileOff]) [.changed stop] []
        stop := by
      rw [length_linesFrom]
      exact .next (.profileOff restored) .nothing
    refine ⟨saved, requests, ?_, hrequests⟩
    rw [← List.append_nil requests, ← List.nil_append (requests ++ [])]
    exact .next (.profileOn enabled) (hbuilds.append hoff)

/-- An execution that succeeds is what the lines of its plan tell. -/
theorem foretells_executed {plan : Plan} {moments : List Moment} {report : Report}
    (h : Publication.Executed path plan start moments (.ok report) stop)
    (hanswered : Publication.Answered client.engine s (exchangesIn moments) s') :
    ∃ saved requests, Foretells client path saved 1 start (linesFrom 1 plan.steps) moments requests
        stop ∧
      s'.requests = s.requests ++ requests := by
  generalize hresult : (Except.ok report : Except Publication.Stop Report) = result at h
  cases h with
  | stopped built => cases hresult
  | @pushed moments images middle stop calls result built linked phase =>
    obtain ⟨pushed, rfl⟩ : ∃ pushed, result = .ok pushed := by
      cases result with
      | ok pushed => exact ⟨pushed, rfl⟩
      | error reason => cases hresult
    rw [exchangesIn_append, exchangesIn_called] at hanswered
    obtain ⟨between, hfirst, hlater⟩ := hanswered.exists_middle
    obtain ⟨saved, built, hbuilt, hsent⟩ := foretells_built built hfirst
    have hanswers : calls.map Exchange.answer =
        plan.pushes.map fun step => (.push step.image, .succeeded) := by
      generalize calls.map Exchange.answer = answers at phase ⊢
      generalize plan.pushes = steps at phase ⊢
      cases phase
      rfl
    obtain ⟨pushes, hpushes, hsent'⟩ :
        ∃ requests, Foretells client path saved (1 + (linesFrom 1 (buildSteps plan)).length) middle
            (linesFrom (1 + (buildSteps plan).length) (plan.pushes.map .push)) (calls.map .called)
            requests stop ∧
          s'.requests = between.requests ++ requests := by
      rw [length_linesFrom]
      exact foretells_calls tells_push linked hlater hanswers
    have hsteps : plan.steps = buildSteps plan ++ plan.pushes.map .push := rfl
    -- the pushes are numbered on from the last of the builds
    rw [hsteps, linesFrom_append]
    refine ⟨saved, built ++ pushes, hbuilt.append hpushes, ?_⟩
    rw [hsent', hsent, List.append_assoc]

end

section

variable {world : World δ} {arguments : List Bytes}

/-- Two command lines ask for the same publication, of whatever project. -/
structure AsksSame (given given' : Arguments) : Prop where
  tag_eq : given'.tag = given.tag
  debugBuild_eq : given'.debugBuild = given.debugBuild
  registry_eq : given'.registry = given.registry
  noCache_eq : given'.noCache = given.noCache
  pull_eq : given'.pull = given.pull

/-- What two such command lines ask for is the same plan, wherever they are given. -/
theorem AsksSame.plan_eq {δ' : Type} {world' : World δ'} {arguments' : List Bytes}
    {u : Understood world arguments} {u' : Understood world' arguments'}
    (h : AsksSame u.given u'.given) : u'.plan = u.plan := by
  have htag : u'.tag = u.tag := by
    have hboth := u'.tag_eq
    rw [h.tag_eq, u.tag_eq] at hboth
    exact (Option.some.inj hboth).symm
  rw [Understood.plan, Understood.plan, planOf, planOf, htag, h.debugBuild_eq, h.registry_eq,
    h.noCache_eq, h.pull_eq]

def planHeading (palette : Palette) (plan : Plan) : String :=
  palette.paint { bold := true, hue := some .green } "公開プラン (dry-run)" ++ "\n" ++
    planHeader palette plan ++ "\n"

/-- The output of a dry run is made of the plan alone. -/
theorem Understood.run_of_dry (u : Understood world arguments) (hdry : u.given.dryRun = true) :
    run world arguments =
      ⟨0, planHeading world.palette u.plan ++ String.join (linesFrom 1 u.plan.steps), "",
        world.disk, world.daemon⟩ := by
  rw [u.run_eq, if_pos hdry]
  rfl

namespace Prepared

variable (p : Prepared world arguments)

/-- A run of the program that comes to its publication does what some lines tell: all that happens
to the files between taking the lock and giving it back, and all that is sent after the first
request. -/
structure Fulfils (locked : Site) (lines : List String) : Prop where
  exitCode_eq : (run world arguments).exitCode = 0
  disk_eq : (run world arguments).disk = p.publication.site.disk
  course : ∃ saved moments requests stop released,
    Foretells p.client p.project.configPath saved 1 locked.disk lines moments requests stop ∧
    RunLock.Released p.root stop released (run world arguments).disk ∧
    p.publication.site.history = locked.history ++ moments ++ released ∧
    (run world arguments).daemon.requests = world.daemon.requests ++ .ping :: requests

theorem requests_daemon : p.daemon.requests = world.daemon.requests ++ [.ping] := by
  rw [daemon]
  unfold DaemonClient.ping
  split <;> next h => exact congrArg (fun sent => sent.2.requests) h.symm

/-- A publication in which the lock is taken, the configuration file is toggled and all calls
succeed does what the lines of its plan tell, and nothing else between taking the lock and giving it
back. -/
theorem fulfils {lock : RunLock} {locked : Site}
    (hlock : RunLock.acquire world.owner p.root { disk := world.disk } = (.ok lock, locked))
    (htoggles : Publication.Toggles p.project.configPath p.plan locked.disk
      p.publication.site.exchanges)
    (hcalls : ∀ a ∈ p.answers, a.2 = .succeeded) :
    p.Fulfils locked (linesFrom 1 p.plan.steps) := by
  obtain ⟨hroot, -, -, disks, hdisks, -⟩ := RunLock.acquire_ok hlock
  obtain ⟨steps, moments, hexecuted, hreleased, hpublished, hhistory⟩ :=
    Publication.exists_run world.palette p.client.engine p.project p.plan world.owner hlock
      (by rw [hroot]; rfl)
  have hexchanges : p.publication.site.exchanges = exchangesIn steps :=
    Publication.exchanges_run ⟨disks, hdisks⟩ hreleased hhistory
  have hresult : p.publication.result = _ := hpublished
  have hanswered : Publication.Answered p.client.engine p.daemon p.publication.site.exchanges
      p.publication.state :=
    (Publication.through_run world.palette p.client.engine world.owner p.project p.plan p.daemon
      world.disk).answered
  rw [hexchanges] at htoggles hanswered
  have hanswers := hexecuted.answers htoggles
  rw [← hexchanges, ← hresult] at hanswers
  obtain ⟨report, hreport⟩ := hanswers.exists_report hcalls
  have hok := Publication.eq_ok_of_resultOf (hresult.symm.trans hreport)
  rw [hok] at hexecuted
  obtain ⟨saved, requests, hforetells, hrequests⟩ := foretells_executed hexecuted hanswered
  obtain ⟨hdisk, hdaemon⟩ := p.leaves
  have hcode : (run world arguments).exitCode = 0 := by rw [p.exitCode_eq, hreport, RunResult.status]
  refine ⟨hcode, hdisk, saved, steps, requests, _, moments, hforetells, hdisk ▸ hreleased,
    hhistory, ?_⟩
  rw [hdaemon, hrequests, p.requests_daemon, List.append_assoc]
  rfl

end Prepared

/-- A dry run prints the same lines wherever it takes place, changes nothing and sends nothing; and
any run for the same release in which everything succeeds does just what those lines tell. -/
theorem dry_run_foretells (world : World δ) (arguments : List Bytes)
    (u : Understood world arguments) (hdry : u.given.dryRun = true) :
    run world arguments =
        ⟨0, planHeading world.palette u.plan ++ String.join (linesFrom 1 u.plan.steps), "",
          world.disk, world.daemon⟩ ∧
    (∀ {δ' : Type} (world' : World δ') (arguments' : List Bytes)
        (u' : Understood world' arguments'), u'.given.dryRun = true →
      world'.palette = world.palette → AsksSame u.given u'.given →
      run world' arguments' = ⟨0, (run world arguments).output, "", world'.disk, world'.daemon⟩) ∧
    ∀ {δ' : Type} (world' : World δ') (arguments' : List Bytes) (p : Prepared world' arguments')
        (lock : RunLock) (locked : Site), AsksSame u.given p.given →
      RunLock.acquire world'.owner p.root { disk := world'.disk } = (.ok lock, locked) →
      Publication.Toggles p.project.configPath p.plan locked.disk p.publication.site.exchanges →
      (∀ a ∈ p.answers, a.2 = .succeeded) →
      p.Fulfils locked (linesFrom 1 u.plan.steps) := by
  refine ⟨u.run_of_dry hdry, fun world' arguments' u' hdry' hpalette hsame => ?_,
    fun world' arguments' p lock locked hsame hlock htoggles hcalls => ?_⟩
  · rw [u.run_of_dry hdry, u'.run_of_dry hdry', hpalette, hsame.plan_eq]
  · have hplan : p.plan = u.plan := AsksSame.plan_eq hsame
    rw [← hplan]
    exact p.fulfils hlock htoggles hcalls

end

namespace Sample

def debugPrepared : Prepared (world project (daemon 200 "")) (words ["1.0", "true"]) where
  given := given (some "true") false
  tag := tag
  parse_eq := eq_ok_of_toOption (by decide +kernel)
  tag_eq := ofArgument?_tag
  root := .ofString "/work"
  real := rfl
  root_eq := find_work
  clear := by decide +kernel
  transport := daemon 200 ""
  connect_eq := rfl
  pong := rfl

def debugListed :
    Understood (world (directory []) (daemon 500 "")) (words ["--dry-run", "1.0", "true"]) :=
  ⟨given (some "true") true, tag, eq_ok_of_toOption (by decide +kernel), ofArgument?_tag⟩

def enabled : FileSystem :=
  let locked :=
    (RunLock.acquire (world project (daemon 200 "")).owner (.ofString "/work")
      { disk := disk project }).2.disk
  (locked.append debugPrepared.project.configPath DebugProfile.directive).toOption.getD locked

def enabledProject : Node := (enabled.root.at? [Bytes.ofString "work"]).getD default

def base : BuildStep := Plan.baseBuild Catalog.builtin.base {}

def dockerfile : Path := .ofString "/work" / .ofString base.dockerfile

def sent : BuildContext where
  dockerfile := base.dockerfile
  entries :=
    ((BuildContext.entriesOf (BuildContext.tourEntries enabled
      [.of (.ofString "/work") (BuildContext.rulesIn enabled (.ofString "/work")
        enabledProject.entries)] (.ofString "/work") []
      (BuildContext.visibleEntries enabledProject.entries))).toOption).getD []

theorem create_enabled :
    BuildContext.create enabled (some (.ofString "/work")) dockerfile = .ok sent := by
  have hplace : enabled.place .follow (.ofString "/work") = .ok (.taken [Bytes.ofString "work"]) :=
    eq_ok_of_toOption (by decide +kernel)
  have hsome : (enabled.root.at? [Bytes.ofString "work"]).isSome := by decide +kernel
  have hat : enabled.root.at? [Bytes.ofString "work"] = some enabledProject := by
    rw [enabledProject]
    cases h : enabled.root.at? [Bytes.ofString "work"] with
    | none => simp [h] at hsome
    | some node => rfl
  have hfind : enabled.find? (.ofString "/work") = some enabledProject := by
    rw [FileSystem.find?, FileSystem.find,
      FileSystem.resolve_eq_present_iff.mpr ⟨hplace, hat⟩]
    rfl
  have hdirectory : enabledProject.isDirectory := by decide +kernel
  have horder : enabledProject.all (BuildContext.InOrder ·.entries) = true := by decide +kernel
  have hread : enabled.read dockerfile = .ok (Bytes.ofString "FROM scratch\n") :=
    eq_ok_of_toOption (by decide +kernel)
  have hbelow : dockerfile.below? (.ofString "/work") = some (.ofString base.dockerfile) := by
    decide +kernel
  obtain ⟨attributes, hnode⟩ := Node.exists_eq_directory hdirectory
  rw [hnode] at hfind horder
  rw [BuildContext.create_eq_of_tour horder hread hfind hbelow]
  exact eq_ok_of_toOption (by decide +kernel)

/-- The engine of the publication, with what is sent for the base image at hand. -/
def engine : Engine (DaemonState Unit)
  | .build step, s, fs =>
    match step.context with
    | .projectRoot =>
      let action := debugPrepared.client.buildContext step sent s
      ⟨action.ending.toCallEnding, action.state, fs,
        DaemonClient.announce ⟨dockerfile, some (.ofString "/work")⟩ ++ action.shown⟩
    | .definitionOnly => debugPrepared.client.engine (.build step) s fs
  | .push image, s, fs => debugPrepared.client.engine (.push image) s fs

theorem engine_base (s : DaemonState Unit) :
    debugPrepared.client.engine (.build base) s enabled = engine (.build base) s enabled := by
  have hresolve : BuildSource.resolve enabled (.ofString "/work") base =
      .ok ⟨dockerfile, some (.ofString "/work")⟩ :=
    eq_ok_of_toOption (by decide +kernel)
  have hroot : debugPrepared.client.root = .ofString "/work" := rfl
  have hcontext : base.context = .projectRoot := rfl
  simp only [DaemonClient.engine, DaemonClient.build, hroot, hresolve, create_enabled, engine,
    hcontext]

def published : Publication.Run (DaemonState Unit) :=
  Publication.run .plain engine (world project (daemon 200 "")).owner debugPrepared.project
    debugPrepared.plan debugPrepared.daemon { disk := disk project }

theorem exists_locked : ∃ locked,
    RunLock.acquire (world project (daemon 200 "")).owner debugPrepared.root
      { disk := disk project } = (.ok ⟨.ofString "/work"⟩, locked) ∧
    Publication.Enabled debugPrepared.project.configPath (Bytes.ofString "FROM scratch\n")
      locked.disk enabled := by
  let locked := (RunLock.acquire (world project (daemon 200 "")).owner (.ofString "/work")
    { disk := disk project }).2
  have hlock : (RunLock.acquire (world project (daemon 200 "")).owner (.ofString "/work")
      { disk := disk project }).1 = .ok ⟨.ofString "/work"⟩ :=
    eq_ok_of_toOption (by decide +kernel)
  have hread : locked.disk.read debugPrepared.project.configPath =
      .ok (Bytes.ofString "FROM scratch\n") :=
    eq_ok_of_toOption (by decide +kernel)
  have happend : (locked.disk.append debugPrepared.project.configPath
      DebugProfile.directive).toOption.isSome := by
    decide +kernel
  obtain ⟨on, hon⟩ := Option.isSome_iff_exists.mp happend
  have henabled : enabled = on := by
    change (locked.disk.append _ _).toOption.getD locked.disk = on
    rw [hon]
    rfl
  exact ⟨locked, Prod.ext hlock rfl, hread, henabled ▸ eq_ok_of_toOption hon⟩

def sendsProject : EngineCall → Bool
  | .build step => step.context == .projectRoot
  | .push _ => false

/-- The project is sent for the base image alone, and that is built first. -/
theorem eq_of_mem_exchanges {e : Exchange} {step : BuildStep} (he : e ∈ published.site.exchanges)
    (hcall : e.call = .build step) (hcontext : step.context = .projectRoot) :
    step = base ∧ e.before = enabled := by
  have hlater : ∀ e ∈ published.site.exchanges.tail, sendsProject e.call = false := by
    decide +kernel
  obtain ⟨locked, hacquire, henabled⟩ := exists_locked
  have hbegins : Publication.Begins _ _ base _ published.site.exchanges :=
    Publication.begins_run .plain engine debugPrepared.daemon rfl hacquire
  generalize published.site.exchanges = exchanges at he hlater hbegins
  cases hbegins with
  | notEnabled mode failure => cases he
  | first call_eq before alone =>
    rcases List.mem_cons.mp he with rfl | hrest
    · exact ⟨EngineCall.build.inj (hcall.symm.trans call_eq), before.unique (.debug henabled)⟩
    · simpa [hcall, sendsProject, hcontext] using hlater e hrest

/-- On this project the client goes as the engine that has the archive at hand. -/
theorem publication_eq : debugPrepared.publication = published := by
  -- the client walks the project by a recursion that does not compute, `engine` does not walk it
  have hthrough := Publication.through_run .plain engine (world project (daemon 200 "")).owner
    debugPrepared.project debugPrepared.plan debugPrepared.daemon (disk project)
  refine hthrough.congr debugPrepared.client.engine fun o ho => ?_
  have hmem := hthrough.answered.exchange_mem ho
  obtain ⟨call, s, fs⟩ := o
  cases call with
  | push image => rfl
  | build step =>
    rw [Occasion.reply, Occasion.reply]
    cases hcontext : step.context with
    | definitionOnly => simp only [engine, hcontext]
    | projectRoot =>
      obtain ⟨rfl, hbefore⟩ := eq_of_mem_exchanges hmem rfl hcontext
      obtain rfl : fs = enabled := hbefore
      exact engine_base s

theorem published_answers : ∀ a ∈ debugPrepared.answers, a.2 = .succeeded := by
  rw [Prepared.answers, publication_eq]
  decide +kernel

theorem published_toggles {locked : Site}
    (henabled : Publication.Enabled debugPrepared.project.configPath
      (Bytes.ofString "FROM scratch\n") locked.disk enabled) :
    Publication.Toggles debugPrepared.project.configPath debugPrepared.plan locked.disk
      debugPrepared.publication.site.exchanges := by
  have hwrite : ∀ e ∈ published.site.exchanges,
      (e.after.write debugPrepared.project.configPath
        (Bytes.ofString "FROM scratch\n")).toOption.isSome := by
    decide +kernel
  rw [publication_eq]
  refine .of_forall (List.cons_ne_nil _ _) henabled fun e he => ?_
  obtain ⟨off, hoff⟩ := Option.isSome_iff_exists.mp (hwrite e he)
  exact ⟨off, eq_ok_of_toOption hoff⟩

end Sample

/-- What is listed where there is no project is what the publication of a project then does, and is
listed where there is no daemon as well. -/
theorem dry_run_foretells_debug_release :
    Sample.debugListed.given.dryRun = true ∧
    run (Sample.world Sample.project (Sample.daemon 200 ""))
        (Sample.words ["1.0", "true", "--dry-run"]) =
      ⟨0, (run (Sample.world (Sample.directory []) (Sample.daemon 500 ""))
          (Sample.words ["--dry-run", "1.0", "true"])).output, "",
        Sample.disk Sample.project, { daemon := () }⟩ ∧
    ∃ locked, Sample.debugPrepared.Fulfils locked
      (linesFrom 1 Sample.debugListed.plan.steps) := by
  let listedThere : Understood (Sample.world Sample.project (Sample.daemon 200 ""))
      (Sample.words ["1.0", "true", "--dry-run"]) :=
    ⟨Sample.given (some "true") true, Sample.tag, eq_ok_of_toOption (by decide +kernel),
      Sample.ofArgument?_tag⟩
  obtain ⟨-, hsame, hforetells⟩ := dry_run_foretells
    (Sample.world (Sample.directory []) (Sample.daemon 500 ""))
    (Sample.words ["--dry-run", "1.0", "true"]) Sample.debugListed rfl
  obtain ⟨locked, hlock, henabled⟩ := Sample.exists_locked
  have hfulfils := hforetells _ _ Sample.debugPrepared _ locked ⟨rfl, rfl, rfl, rfl, rfl⟩ hlock
    (Sample.published_toggles henabled) Sample.published_answers
  exact ⟨rfl, hsame _ _ listedThere rfl rfl ⟨rfl, rfl, rfl, rfl, rfl⟩, locked, hfulfils⟩

end CommandLine

end ReleasePublisher
