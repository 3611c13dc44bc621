import ReleasePublisher.Proofs.Daemon.PushOutcome
import ReleasePublisher.Proofs.Publication.Answers

/-!
The first request of a run to the container daemon. A run that gets the lock begins with the build
of the base image, on the files as the lock and the toggle of the configuration file have left them,
and goes on only if that build has sent its context.
-/
namespace ReleasePublisher

namespace BuildContext

def ofStep (fs : FileSystem) (root : Path) (step : BuildStep) : Except BuildError BuildContext :=
  (BuildSource.resolve fs root step).bind fun source =>
    create fs source.context source.dockerfile

end BuildContext

namespace DaemonClient

variable {δ : Type} (client : DaemonClient δ)

theorem requests_buildContext (step : BuildStep) (context : BuildContext) (s : DaemonState δ) :
    (client.buildContext step context s).state.requests =
      s.requests ++ [buildRequest step context] := by
  simp only [buildContext, send]
  split
  · rfl
  · split <;> rfl

/-- The request for a build tells its context. -/
theorem buildRequest_injective {step : BuildStep} {context context' : BuildContext}
    (h : buildRequest step context = buildRequest step context') : context = context' := by
  obtain ⟨name, entries⟩ := context
  obtain ⟨name', entries'⟩ := context'
  obtain ⟨rfl, -, -, -, rfl⟩ := DaemonRequest.build.inj h
  rfl

/-- A build whose files are there sends its context, and another one fails. -/
theorem build_cases (step : BuildStep) (fs : FileSystem) (s : DaemonState δ) :
    (∃ context, BuildContext.ofStep fs client.root step = .ok context ∧
      (client.build step fs s).state.requests = s.requests ++ [buildRequest step context]) ∨
    ∃ error, BuildContext.ofStep fs client.root step = .error error ∧
      (client.build step fs s).ending = .failed error ∧ (client.build step fs s).state = s := by
  rw [BuildContext.ofStep, build]
  cases BuildSource.resolve fs client.root step with
  | error error => exact Or.inr ⟨error, rfl, rfl, rfl⟩
  | ok source =>
    simp only [Except.bind]
    cases BuildContext.create fs source.context source.dockerfile with
    | error error => exact Or.inr ⟨error, rfl, rfl, rfl⟩
    | ok context => exact Or.inl ⟨context, rfl, requests_buildContext client step context s⟩

theorem prefix_requests_push (image : ImageRef) (fs : FileSystem) (s : DaemonState δ) :
    s.requests <+: (client.push image fs s).state.requests := by
  rcases client.push_cases image fs s with ⟨credentials, -, -, hrequests, -⟩ | ⟨-, hrequests, -⟩
  · exact ⟨_, hrequests.symm⟩
  · exact ⟨_, hrequests.symm⟩

/-- No request is taken back. -/
theorem prefix_requests_engine (call : EngineCall) (s : DaemonState δ) (fs : FileSystem) :
    s.requests <+: (client.engine call s fs).state.requests := by
  cases call with
  | build step =>
    rcases client.build_cases step fs s with ⟨context, -, hrequests⟩ | ⟨error, -, -, hstate⟩
    · exact ⟨_, hrequests.symm⟩
    · have hrequests : (client.build step fs s).state.requests = s.requests :=
        congrArg DaemonState.requests hstate
      exact ⟨[], (List.append_nil _).trans hrequests.symm⟩
  | push image => exact client.prefix_requests_push image fs s

end DaemonClient

namespace Publication

/-- An engine forgets no request. -/
theorem prefix_requests_of_answered {δ : Type} {client : DaemonClient δ}
    {start stop : DaemonState δ} {calls : List Exchange} (h : Answered client.engine start calls stop) :
    start.requests <+: stop.requests := by
  induction calls generalizing start with
  | nil =>
    cases h
    exact List.prefix_refl _
  | cons e calls ih => exact (client.prefix_requests_engine e.call start e.before).trans (ih h.2)

/-- A phase with a first step makes its call, and goes on only if that succeeds. -/
theorem Phase.exists_first {α : Type} {call : α → EngineCall}
    {failure : List α → α → String → PublishError} {image : α → ImageRef} {past rest : List α}
    {step : α} {answers : List (EngineCall × CallEnding)} {result : Except Stop (List ImageRef)}
    (h : Phase call failure image past (step :: rest) answers result) :
    ∃ ending more, answers = (call step, ending) :: more ∧
      (ending ≠ .succeeded → more = [] ∧ ∃ stop, result = .error stop) := by
  generalize hsteps : step :: rest = steps at h
  cases h with
  | finished =>
    subst hsteps
    exact ⟨.succeeded, _, rfl, fun hne => absurd rfl hne⟩
  | @stopped done rest' last ending stop unsuccessful =>
    cases done with
    | nil =>
      obtain ⟨rfl, -⟩ := List.cons.inj hsteps
      exact ⟨ending, [], rfl, fun _ => ⟨rfl, stop, rfl⟩⟩
    | cons first done =>
      obtain ⟨rfl, -⟩ := List.cons.inj hsteps
      exact ⟨.succeeded, _, rfl, fun hne => absurd rfl hne⟩

inductive FirstBuild (path : Path) (start : FileSystem) : BuildMode → FileSystem → Prop
  | release : FirstBuild path start .release start
  | debug {saved : Bytes} {on : FileSystem} (enabled : Enabled path saved start on) :
      FirstBuild path start .debug on

/-- There is one state of the files at the first build. -/
theorem FirstBuild.unique {path : Path} {start disk disk' : FileSystem} {mode : BuildMode}
    (h : FirstBuild path start mode disk) (h' : FirstBuild path start mode disk') :
    disk = disk' := by
  cases h with
  | release =>
    cases h'
    rfl
  | debug enabled =>
    cases h' with
    | debug enabled' => exact Except.ok.inj (enabled.append_eq.symm.trans enabled'.append_eq)

theorem FirstBuild.not_failure {path : Path} {start disk : FileSystem} {mode : BuildMode}
    {fault : FileFault} (h : FirstBuild path start mode disk) (hmode : mode = .debug) :
    ¬ (start.read path = .error fault ∨
      start.append path DebugProfile.directive = .error fault) := by
  cases h with
  | release => simp at hmode
  | debug enabled => simp [enabled.read_eq, enabled.append_eq]

/-- The calls of a plan begin with its first build and end with it unless it succeeds; there are
none when the configuration file cannot be toggled. -/
inductive Begins (path : Path) (plan : Plan) (base : BuildStep) (start : FileSystem) :
    List Exchange → Prop
  | notEnabled {fault : FileFault} (mode : plan.mode = .debug)
      (failure : start.read path = .error fault ∨
        start.append path DebugProfile.directive = .error fault) :
      Begins path plan base start []
  | first {e : Exchange} {rest : List Exchange} (call_eq : e.call = .build base)
      (before : FirstBuild path start plan.mode e.before)
      (alone : e.ending ≠ .succeeded → rest = []) : Begins path plan base start (e :: rest)

section

variable {path : Path} {plan : Plan} {base : BuildStep} {others : List BuildStep}
  {start stop : FileSystem} {moments : List Moment}

theorem exists_first_of_phase {calls : List Exchange} {result : Except Stop (List ImageRef)}
    (hlinked : Linked start calls stop)
    (h : BuildPhase [] (base :: others) (calls.map Exchange.answer) result) :
    ∃ e rest, calls = e :: rest ∧ e.call = .build base ∧ e.before = start ∧
      (e.ending ≠ .succeeded → rest = [] ∧ ∃ stop, result = .error stop) := by
  obtain ⟨ending, more, hanswers, halone⟩ := h.exists_first
  obtain ⟨e, rest, rfl, hanswer, hrest⟩ := List.map_eq_cons_iff.mp hanswers
  obtain ⟨hcall, hending⟩ := Prod.mk.inj hanswer
  refine ⟨e, rest, rfl, hcall, hlinked.1, fun hne => ?_⟩
  obtain ⟨hmore, hstop⟩ := halone (hending ▸ hne)
  exact ⟨List.map_eq_nil_iff.mp (hrest.trans hmore), hstop⟩

/-- How the builds begin, whatever comes after them. -/
theorem Built.begins {result : Except Stop (List ImageRef)}
    (h : Built path plan start moments result stop) (hbuilds : plan.builds = base :: others)
    {more : List Exchange} (hmore : ∀ reason, result = .error reason → more = []) :
    Begins path plan base start (exchangesIn moments ++ more) := by
  have hfirst : ∀ {calls on middle built}, FirstBuild path start plan.mode on →
      Linked on calls middle → BuildPhase [] plan.builds (calls.map Exchange.answer) built →
      (∀ reason, built = .error reason → more = []) →
      Begins path plan base start (calls ++ more) := by
    intro calls on middle built hon hlinked hphase hmore
    rw [hbuilds] at hphase
    obtain ⟨e, rest, rfl, hcall, hbefore, halone⟩ := exists_first_of_phase hlinked hphase
    refine .first hcall (hbefore ▸ hon) fun hne => ?_
    obtain ⟨rfl, reason, hreason⟩ := halone hne
    exact hmore reason hreason
  cases h with
  | release mode linked phase =>
    rw [exchangesIn_called]
    exact hfirst (mode ▸ .release) linked phase hmore
  | notEnabled mode failure =>
    obtain rfl := hmore _ rfl
    exact .notEnabled mode failure
  | restored mode enabled linked phase restored =>
    simpa using hfirst (mode ▸ .debug enabled) linked phase hmore
  | discarded mode enabled linked phase discarded =>
    simpa [discarded.exchangesIn_eq] using hfirst (mode ▸ .debug enabled) linked phase hmore
  | notRestored mode enabled linked phase failure =>
    obtain rfl := hmore _ rfl
    simpa using hfirst (mode ▸ .debug enabled) linked phase nofun

theorem Executed.begins {result : Except Stop Report}
    (h : Executed path plan start moments result stop) (hbuilds : plan.builds = base :: others) :
    Begins path plan base start (exchangesIn moments) := by
  cases h with
  | stopped built => simpa using built.begins hbuilds fun _ _ => rfl
  | pushed built linked phase =>
    rw [exchangesIn_append]
    exact built.begins hbuilds nofun

/-- How the calls of a run that gets the lock begin. -/
theorem begins_run {σ : Type} (palette : Palette) (engine : Engine σ) {owner : LockOwner}
    {project : Project} (state : σ) {fs : FileSystem} {lock : RunLock} {locked : Site}
    (hbuilds : plan.builds = base :: others)
    (hacquire : RunLock.acquire owner project.root { disk := fs } = (.ok lock, locked)) :
    Begins project.configPath plan base locked.disk
      (run palette engine owner project plan state { disk := fs }).site.exchanges := by
  obtain ⟨hroot, -, -, disks, hdisks, -⟩ := RunLock.acquire_ok hacquire
  obtain ⟨steps, moments, hexecuted, hreleased, -, hhistory⟩ :=
    exists_run palette engine project plan owner hacquire (by rw [hroot])
  rw [exchanges_run ⟨disks, hdisks⟩ hreleased hhistory]
  exact hexecuted.begins hbuilds

end

section

variable {δ : Type} {client : DaemonClient δ} {base : BuildStep} {start stop : DaemonState δ}

/-- What is sent first is the context of the first build. -/
theorem head?_requests_of_answered {e : Exchange} {rest : List Exchange}
    (h : Answered client.engine start (e :: rest) stop) (hstart : start.requests = [])
    (hcall : e.call = .build base) (halone : e.ending ≠ .succeeded → rest = []) :
    stop.requests.head? =
      (BuildContext.ofStep e.before client.root base).toOption.map
        (DaemonClient.buildRequest base) := by
  obtain ⟨hexchange, hrest⟩ := h
  rw [hcall] at hexchange hrest
  rcases client.build_cases base e.before start with
    ⟨context, hcontext, hrequests⟩ | ⟨error, hcontext, hending, hstate⟩
  · obtain ⟨more, hmore⟩ := prefix_requests_of_answered hrest
    have hsent : (client.engine (.build base) start e.before).state.requests =
        start.requests ++ [DaemonClient.buildRequest base context] := hrequests
    rw [hsent, hstart] at hmore
    rw [← hmore, hcontext]
    rfl
  · have hfailed : e.ending ≠ .succeeded := by
      have hreply : e.ending = (client.build base e.before start).ending.toCallEnding :=
        congrArg Exchange.ending hexchange
      rw [hreply, hending]
      simp [ActionEnding.toCallEnding]
    obtain rfl := halone hfailed
    have hstop : stop = (client.build base e.before start).state := hrest
    rw [hstop, hstate, hstart, hcontext]
    rfl

variable {owner : LockOwner} {project : Project} {plan : Plan} {others : List BuildStep}
  {fs : FileSystem}

/-- The first request of a run that gets the lock and gets as far as its first build. -/
theorem head?_requests_run (palette : Palette) (client : DaemonClient δ) (daemon : δ)
    {lock : RunLock} {locked : Site} {disk : FileSystem} (hbuilds : plan.builds = base :: others)
    (hacquire : RunLock.acquire owner project.root { disk := fs } = (.ok lock, locked))
    (hfirst : FirstBuild project.configPath locked.disk plan.mode disk) :
    (run palette client.engine owner project plan { daemon } { disk := fs }).state.requests.head? =
      (BuildContext.ofStep disk client.root base).toOption.map
        (DaemonClient.buildRequest base) := by
  have hthrough := (through_run palette client.engine owner project plan { daemon } fs).answered
  have hbegins := begins_run palette client.engine { daemon } hbuilds hacquire
  generalize (run palette client.engine owner project plan { daemon } { disk := fs }).site.exchanges =
    calls at hthrough hbegins
  cases hbegins with
  | notEnabled mode failure => exact absurd failure (hfirst.not_failure mode)
  | first call_eq before alone =>
    rw [hfirst.unique before]
    exact head?_requests_of_answered hthrough rfl call_eq alone

/-- A run that does not get the lock sends nothing. -/
theorem requests_run_of_refused (palette : Palette) (client : DaemonClient δ) (daemon : δ)
    {error : PublishError} {refused : Site}
    (hacquire : RunLock.acquire owner project.root { disk := fs } = (.error error, refused)) :
    (run palette client.engine owner project plan { daemon } { disk := fs }).state.requests =
      [] := by
  rw [run_of_refused palette client.engine project plan owner { daemon } hacquire]

end

end Publication

end ReleasePublisher
