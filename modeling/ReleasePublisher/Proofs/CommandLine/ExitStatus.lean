import ReleasePublisher.Proofs.CommandLine.Course
import ReleasePublisher.Proofs.Publication.ExitStatus
import ReleasePublisher.Proofs.Publication.Requests

/-!
What the exit status of the program tells. The answers to the calls of a publication are all
successes up to the last one, and that one is to blame for the status. The statuses of the argument
parser, of the checks before a publication and of publications fit together, except where the parser
refuses an argument.
-/
namespace ReleasePublisher

open CommandLine

def RunResult.status : RunResult → Nat
  | .published _ => 0
  | .failed error => error.exitCode
  | .panicked => faultStatus
  | .abandoned => stoppedStatus

/-- The status that a call is to blame for, or 0. -/
def blame : EngineCall × CallEnding → Nat
  | (_, .succeeded) => 0
  | (.build _, .failed _) => 2
  | (.push _, .failed _) => 3
  | (_, .panicked) => faultStatus
  | (_, .interrupted) => stoppedStatus
  | (_, .abandoned) => stoppedStatus

theorem blame_succeed {calls : List EngineCall} {a : EngineCall × CallEnding}
    (h : a ∈ succeed calls) : blame a = 0 := by
  obtain ⟨call, -, rfl⟩ := List.mem_map.mp h
  rw [blame]

theorem exists_blame_iff {calls : List EngineCall} {last : EngineCall × CallEnding} {n : Nat}
    (hn : n ≠ 0) : (∃ a ∈ succeed calls ++ [last], blame a = n) ↔ blame last = n := by
  constructor
  · rintro ⟨a, ha, rfl⟩
    rcases List.mem_append.mp ha with hdone | hlast
    · exact absurd (blame_succeed hdone) hn
    · rw [List.mem_singleton.mp hlast]
  · exact fun h => ⟨last, by simp, h⟩

theorem blame_eq_two_iff {a : EngineCall × CallEnding} :
    blame a = 2 ↔ ∃ step cause, a = (.build step, .failed cause) := by
  obtain ⟨call | call, ending⟩ := a <;> cases ending <;> simp [blame, faultStatus, stoppedStatus]

theorem blame_eq_three_iff {a : EngineCall × CallEnding} :
    blame a = 3 ↔ ∃ image cause, a = (.push image, .failed cause) := by
  obtain ⟨call | call, ending⟩ := a <;> cases ending <;> simp [blame, faultStatus, stoppedStatus]

/-- The status of a result is the one that a call is to blame for. -/
theorem Plan.Answers.exists_blame_iff {plan : Plan} {answers : List (EngineCall × CallEnding)}
    {result : RunResult} (h : plan.Answers answers result) {n : Nat} (hn : n ≠ 0) :
    (∃ a ∈ answers, blame a = n) ↔ result.status = n := by
  cases h with
  | published =>
    constructor
    · rintro ⟨a, ha, rfl⟩
      exact absurd (blame_succeed ha) hn
    · exact fun hzero => absurd hzero.symm hn
  | buildFailed split => exact ReleasePublisher.exists_blame_iff hn
  | pushFailed split => exact ReleasePublisher.exists_blame_iff hn
  | interrupted split => exact ReleasePublisher.exists_blame_iff hn
  | panicked split => exact ReleasePublisher.exists_blame_iff hn
  | abandoned split => exact ReleasePublisher.exists_blame_iff hn

namespace Publication

/-- The calls of a run account for its result, unless no call is to blame for it. -/
theorem Executed.accounts {path : Path} {plan : Plan} {start stop : FileSystem}
    {moments : List Moment} {result : Except Stop Report}
    (h : Executed path plan start moments result stop) :
    plan.Answers ((exchangesIn moments).map Exchange.answer) (resultOf result) ∨
      (resultOf result).status = 1 ∧
        ∃ calls, (exchangesIn moments).map Exchange.answer = succeed calls := by
  cases h with
  | stopped built =>
    rcases built.phase with hphase | ⟨fault, hfault⟩
    · exact Or.inl (answers_of_buildPhase hphase)
    · cases hfault
      refine Or.inr ⟨rfl, ?_⟩
      rcases built.of_configFile with hnone | hall
      · exact ⟨[], by rw [hnone]; rfl⟩
      · exact ⟨_, hall⟩
  | pushed built linked phase =>
    rcases built.phase with hphase | ⟨fault, hfault⟩
    · rw [exchangesIn_append, exchangesIn_called, List.map_append]
      exact Or.inl (answers_of_pushPhase hphase phase)
    · simp at hfault

variable {σ : Type} (palette : Palette) (engine : Engine σ) (owner : LockOwner)
  (project : Project) (plan : Plan) (state : σ) (fs : FileSystem)

/-- A run either ends as its calls did, or for another reason with the status 1 and no call to
blame. -/
theorem run_accounts :
    let outcome := run palette engine owner project plan state { disk := fs }
    plan.Answers (outcome.site.exchanges.map Exchange.answer) outcome.result ∨
      outcome.result.status = 1 ∧
        ∃ calls, outcome.site.exchanges.map Exchange.answer = succeed calls := by
  intro outcome
  rcases hacquire : RunLock.acquire owner project.root { disk := fs } with ⟨error | lock, locked⟩
  · refine Or.inr ⟨?_, [], ?_⟩
    · have hcode : error.exitCode = 1 :=
        RunLock.exitCode_of_acquireFrom (congrArg Prod.fst hacquire)
      rw [← hcode]
      exact congrArg (RunResult.status ·.result)
        (run_of_refused palette engine project plan owner state hacquire)
    · exact congrArg (List.map Exchange.answer)
        (exchanges_of_refused palette engine project plan owner state hacquire)
  · obtain ⟨hroot, -, -, disks, hdisks, -⟩ := RunLock.acquire_ok hacquire
    obtain ⟨steps, moments, hexecuted, hreleased, hresult, hhistory⟩ :=
      exists_run palette engine project plan owner hacquire (by rw [hroot])
    rw [exchanges_run ⟨disks, hdisks⟩ hreleased hhistory]
    exact hresult ▸ hexecuted.accounts

end Publication

namespace DaemonClient

/-- The daemon can fail or be silent, and nothing else. -/
theorem blame_answered {δ : Type} {client : DaemonClient δ} {start stop : DaemonState δ}
    {calls : List Exchange} (h : Publication.Answered client.engine start calls stop)
    {a : EngineCall × CallEnding} (ha : a ∈ calls.map Exchange.answer) :
    blame a ≠ faultStatus ∧ (blame a = stoppedStatus → a.2 = .interrupted) := by
  obtain ⟨e, he, rfl⟩ := List.mem_map.mp ha
  obtain ⟨o, -, heq⟩ := h.exists_occasion he
  obtain ⟨action, hending⟩ : ∃ action : ActionEnding, e.ending = action.toCallEnding :=
    ⟨_, congrArg Exchange.ending heq⟩
  rw [Exchange.answer, hending]
  cases action <;> cases e.call <;>
    simp [ActionEnding.toCallEnding, blame, faultStatus, stoppedStatus]

end DaemonClient

namespace CommandLine

section

variable {δ : Type} {world : World δ} {arguments : List Bytes}

theorem exitCode_carryOut (world : World δ) (client : DaemonClient δ) (project : Project)
    (plan : Plan) (output : String) :
    (carryOut world client project plan output).exitCode =
      (Publication.run world.palette client.engine world.owner project plan world.daemon
        { disk := world.disk }).result.status := by
  rw [carryOut]
  split <;> rename_i h <;> simp only [h, RunResult.status]

namespace Prepared

variable (p : Prepared world arguments)

def Completed : Prop :=
  p.publication.result =
      .published ⟨p.plan.builds.map BuildStep.image, p.plan.pushes.map PushStep.image⟩ ∧
    p.answers = succeed p.plan.calls

theorem exitCode_eq : (run world arguments).exitCode = p.publication.result.status := by
  rw [p.run_eq]
  exact exitCode_carryOut _ _ _ _ _

theorem accounts :
    p.plan.Answers p.answers p.publication.result ∨
      p.publication.result.status = 1 ∧ ∃ calls, p.answers = succeed calls :=
  Publication.run_accounts world.palette p.client.engine world.owner p.project p.plan p.daemon
    world.disk

/-- A status other than 0 and 1 has a call to blame, and a call that is to blame shows in the
status. -/
theorem exists_blame_iff {n : Nat} (hzero : n ≠ 0) (hone : n ≠ 1) :
    (∃ a ∈ p.answers, blame a = n) ↔ p.publication.result.status = n := by
  rcases p.accounts with hanswers | ⟨hstatus, calls, hcalls⟩
  · exact hanswers.exists_blame_iff hzero
  · constructor
    · rintro ⟨a, ha, rfl⟩
      exact absurd (blame_succeed (hcalls ▸ ha)) hzero
    · exact fun hn => absurd (hn.symm.trans hstatus) hone

/-- Only a publication of everything ends with the status 0. -/
theorem completed_iff : p.Completed ↔ p.publication.result.status = 0 := by
  constructor
  · rintro ⟨hresult, -⟩
    rw [hresult]
    rfl
  · intro hstatus
    rcases p.accounts with hanswers | ⟨hone, -⟩
    · rw [Completed]
      generalize p.publication.result = result at hanswers hstatus ⊢
      generalize p.answers = answers at hanswers ⊢
      cases hanswers with
      | published => exact ⟨rfl, rfl⟩
      | _ => simp [RunResult.status, PublishError.exitCode, faultStatus, stoppedStatus] at hstatus
    · exact absurd (hstatus.symm.trans hone) (by decide)

theorem blame_of_mem {a : EngineCall × CallEnding} (ha : a ∈ p.answers) :
    blame a ≠ faultStatus ∧ (blame a = stoppedStatus → a.2 = .interrupted) :=
  DaemonClient.blame_answered (Publication.through_run world.palette p.client.engine world.owner
    p.project p.plan p.daemon world.disk).answered ha

theorem status_mem : p.publication.result.status ∈ [0, 1, 2, 3, stoppedStatus] := by
  have hfault : p.publication.result.status ≠ faultStatus := by
    intro hstatus
    obtain ⟨a, ha, hblame⟩ := (p.exists_blame_iff (by decide) (by decide)).mpr hstatus
    exact (p.blame_of_mem ha).1 hblame
  generalize p.publication.result = result at hfault
  cases result with
  | panicked => exact absurd rfl hfault
  | failed error => cases error <;> simp [RunResult.status, PublishError.exitCode, stoppedStatus]
  | _ => simp [RunResult.status, stoppedStatus]

end Prepared

inductive Done (world : World δ) (arguments : List Bytes) : Prop
  | asked {request : RequestOption}
      (stopped : Arguments.parse world.environment arguments = .error (.asked request)) :
      Done world arguments
  | listed (u : Understood world arguments) (dry : u.given.dryRun = true) : Done world arguments
  | published (p : Prepared world arguments) (completed : p.Completed) : Done world arguments

/-- The daemon leaves a request without an answer, the first one or one of a call, and the program
is asked to stop meanwhile. -/
inductive Interrupted (world : World δ) (arguments : List Bytes) : Prop
  | silent {transport : Transport δ} (c : Checked world arguments)
      (connected : world.connect (DaemonSocket.path world.environment) = some transport)
      (answer : ((world.client transport c.root).ping world.daemon).1 = some .silence) :
      Interrupted world arguments
  | call (p : Prepared world arguments) {call : EngineCall}
      (answer : (call, .interrupted) ∈ p.answers) : Interrupted world arguments

structure Separates (world : World δ) (arguments : List Bytes) (status : Nat) : Prop where
  done : status = 0 ↔ Done world arguments
  build_failed : status = 2 ↔ ∃ p : Prepared world arguments, ∃ step cause,
    (EngineCall.build step, CallEnding.failed cause) ∈ p.answers
  push_failed : status = 3 ↔ ∃ p : Prepared world arguments, ∃ image cause,
    (EngineCall.push image, CallEnding.failed cause) ∈ p.answers
  interrupted : status = stoppedStatus ↔ Interrupted world arguments
  other : status ≠ 0 → status ≠ 2 → status ≠ 3 → status ≠ stoppedStatus → status = 1

/-- A publication of a release that gets the lock begins with a build, which the daemon answers. -/
theorem Prepared.exists_first_call (p : Prepared world arguments) {lock : RunLock}
    (hmode : p.plan.mode = .release)
    (hlock : (RunLock.acquire world.owner p.root { disk := world.disk }).1 = .ok lock) :
    ∃ step e rest, p.publication.site.exchanges = e :: rest ∧ e.call = .build step ∧
      e.ending = (p.client.engine (.build step) p.daemon e.before).ending := by
  obtain ⟨locked, hacquire⟩ : ∃ locked,
      RunLock.acquire world.owner p.project.root { disk := world.disk } = (.ok lock, locked) :=
    ⟨_, Prod.ext hlock rfl⟩
  have hanswered := (Publication.through_run world.palette p.client.engine world.owner p.project
    p.plan p.daemon world.disk).answered
  have hbegins : Publication.Begins _ _ (Plan.baseBuild Catalog.builtin.base _) _
      p.publication.site.exchanges :=
    Publication.begins_run world.palette p.client.engine p.daemon rfl hacquire
  change Publication.Answered _ _ p.publication.site.exchanges _ at hanswered
  generalize p.publication.site.exchanges = exchanges at hanswered hbegins
  cases hbegins with
  | notEnabled mode failure => simp [hmode] at mode
  | @first e rest call_eq before alone =>
    refine ⟨_, e, rest, rfl, call_eq, ?_⟩
    rw [← call_eq]
    exact congrArg Exchange.ending hanswered.1

/-- Unless an argument is refused, a program that does not come to a publication has done what it
was asked for, has failed before it, or has been asked to stop. -/
theorem exitCode_cases
    (hparse : ∀ error, Arguments.parse world.environment arguments ≠ .error (.refused error)) :
    ((run world arguments).exitCode = 0 ∧ Done world arguments) ∨
      (run world arguments).exitCode = 1 ∨
      ((run world arguments).exitCode = stoppedStatus ∧ Interrupted world arguments) ∨
      ∃ p : Prepared world arguments,
        (run world arguments).exitCode = p.publication.result.status := by
  have hcourse := course world arguments
  generalize run world arguments = outcome at hcourse
  cases hcourse with
  | asked stopped => exact Or.inl ⟨rfl, .asked stopped⟩
  | refused stopped => exact absurd stopped (hparse _)
  | listed u dry => exact Or.inl ⟨rfl, .listed u dry⟩
  | silent c connected answer =>
    exact Or.inr (Or.inr (Or.inl ⟨rfl, .silent c connected (congrArg Prod.fst answer)⟩))
  | carried p => exact Or.inr (Or.inr (Or.inr ⟨p, exitCode_carryOut _ _ _ _ _⟩))
  | _ => exact Or.inr (Or.inl rfl)

theorem exitCode_of_done (h : Done world arguments) : (run world arguments).exitCode = 0 := by
  cases h with
  | @asked request stopped =>
    rw [run, stopped]
    cases request <;> rfl
  | listed u dry =>
    rw [u.run_eq, if_pos dry]
    rfl
  | published p completed => rw [p.exitCode_eq, p.completed_iff.mp completed]

theorem exitCode_of_interrupted (h : Interrupted world arguments) :
    (run world arguments).exitCode = stoppedStatus := by
  cases h with
  | @silent transport c connected answer =>
    obtain ⟨daemon, hping⟩ : ∃ daemon,
        (world.client transport c.project.root).ping world.daemon = (some .silence, daemon) :=
      ⟨_, Prod.ext answer rfl⟩
    rw [c.run_eq, connectAndRun, connected]
    simp only [hping]
    rfl
  | call p answer =>
    rw [p.exitCode_eq]
    refine (p.exists_blame_iff (by decide) (by decide)).mp ⟨_, answer, ?_⟩
    rw [blame]

/-- From a prepared run on, a status other than 0 and 1 is the one of some call. -/
theorem Prepared.exitCode_eq_iff (p : Prepared world arguments) {n : Nat} (hzero : n ≠ 0)
    (hone : n ≠ 1) : (run world arguments).exitCode = n ↔ ∃ a ∈ p.answers, blame a = n := by
  rw [p.exitCode_eq, p.exists_blame_iff hzero hone]

/-- A call is to blame for a status other than 0 and 1, unless the daemon is silent. -/
theorem exists_blame_of_exitCode
    (hparse : ∀ error, Arguments.parse world.environment arguments ≠ .error (.refused error))
    (hzero : (run world arguments).exitCode ≠ 0) (hone : (run world arguments).exitCode ≠ 1) :
    ((run world arguments).exitCode = stoppedStatus ∧ Interrupted world arguments) ∨
      ∃ p : Prepared world arguments, ∃ a ∈ p.answers,
        blame a = (run world arguments).exitCode := by
  rcases exitCode_cases hparse with ⟨hdone, -⟩ | hfailed | hstopped | ⟨p, -⟩
  · exact absurd hdone hzero
  · exact absurd hfailed hone
  · exact Or.inl hstopped
  · exact Or.inr ⟨p, (p.exitCode_eq_iff hzero hone).mp rfl⟩

/-- The exit status separates what becomes of a command line, if the parser accepts its arguments:
whether all is done, a build has failed, a push has failed, or the program has been interrupted; and
any other failure has the status 1. -/
theorem exitCode_separates (world : World δ) (arguments : List Bytes)
    (hparse : ∀ error, Arguments.parse world.environment arguments ≠ .error (.refused error)) :
    Separates world arguments (run world arguments).exitCode := by
  have hblame := exists_blame_of_exitCode hparse
  refine ⟨⟨fun hzero => ?_, exitCode_of_done⟩, ⟨fun htwo => ?_, ?_⟩, ⟨fun hthree => ?_, ?_⟩,
    ⟨fun hstopped => ?_, exitCode_of_interrupted⟩, fun hzero htwo hthree hstopped => ?_⟩
  · rcases exitCode_cases hparse with ⟨-, hdone⟩ | hone | ⟨hstopped, -⟩ | ⟨p, hp⟩
    · exact hdone
    · simp [hone] at hzero
    · simp [hstopped, stoppedStatus] at hzero
    · exact .published p (p.completed_iff.mpr (hp ▸ hzero))
  · rw [htwo] at hblame
    obtain ⟨hne, -⟩ | ⟨p, a, ha, hblame⟩ := hblame (by decide) (by decide)
    · simp [stoppedStatus] at hne
    · obtain ⟨step, cause, rfl⟩ := blame_eq_two_iff.mp hblame
      exact ⟨p, step, cause, ha⟩
  · rintro ⟨p, step, cause, ha⟩
    exact (p.exitCode_eq_iff (by decide) (by decide)).mpr ⟨_, ha, blame_eq_two_iff.mpr ⟨_, _, rfl⟩⟩
  · rw [hthree] at hblame
    obtain ⟨hne, -⟩ | ⟨p, a, ha, hblame⟩ := hblame (by decide) (by decide)
    · simp [stoppedStatus] at hne
    · obtain ⟨image, cause, rfl⟩ := blame_eq_three_iff.mp hblame
      exact ⟨p, image, cause, ha⟩
  · rintro ⟨p, image, cause, ha⟩
    exact (p.exitCode_eq_iff (by decide) (by decide)).mpr
      ⟨_, ha, blame_eq_three_iff.mpr ⟨_, _, rfl⟩⟩
  · rw [hstopped] at hblame
    obtain ⟨-, hinterrupted⟩ | ⟨p, ⟨call, ending⟩, ha, hblame⟩ := hblame (by decide) (by decide)
    · exact hinterrupted
    · have hending : ending = .interrupted := (p.blame_of_mem ha).2 hblame
      exact .call p (hending ▸ ha)
  · -- no other call can be to blame, since the daemon does not panic
    by_contra hone
    obtain ⟨hsilent, -⟩ | ⟨p, -⟩ := hblame hzero hone
    · exact hstopped hsilent
    · have hmem := p.status_mem
      rw [← p.exitCode_eq] at hmem
      simp [hzero, hone, htwo, hthree, hstopped] at hmem

end

namespace Sample

theorem build_refused (step : BuildStep) (s : DaemonState Unit) (fs : FileSystem) :
    ∃ cause, ((prepared 500 "").client.engine (.build step) s fs).ending =
      .failed cause := by
  simp only [DaemonClient.engine, DaemonClient.build]
  split
  · exact ⟨_, rfl⟩
  split
  · exact ⟨_, rfl⟩
  · exact ⟨_, rfl⟩

theorem acquire_work :
    (RunLock.acquire (world project (daemon 500 "")).owner (.ofString "/work")
      { disk := disk project }).1 = .ok ⟨.ofString "/work"⟩ :=
  eq_ok_of_toOption (by decide +kernel)

end Sample

/-- The first build that the daemon refuses ends the program with the status for builds. -/
theorem exitCode_separates_first_build_refused :
    (∀ error, Arguments.parse (Sample.world Sample.project (Sample.daemon 500 "")).environment
        (Sample.words ["1.0"]) ≠ .error (.refused error)) ∧
      (run (Sample.world Sample.project (Sample.daemon 500 "")) (Sample.words ["1.0"])).exitCode =
        2 := by
  have hparse : ∀ error,
      Arguments.parse (Sample.world Sample.project (Sample.daemon 500 "")).environment
        (Sample.words ["1.0"]) ≠ .error (.refused error) := by
    intro error herror
    cases Sample.parse_release.symm.trans herror
  refine ⟨hparse, (exitCode_separates _ _ hparse).build_failed.mpr
    ⟨Sample.prepared 500 "", ?_⟩⟩
  obtain ⟨step, e, rest, hexchanges, hcall, hending⟩ :=
    (Sample.prepared 500 "").exists_first_call rfl Sample.acquire_work
  obtain ⟨cause, hcause⟩ := Sample.build_refused step (Sample.prepared 500 "").daemon e.before
  refine ⟨step, cause, ?_⟩
  rw [Prepared.answers, hexchanges, List.map_cons, Exchange.answer, hcall, hending, hcause]
  exact List.mem_cons_self

/-- An argument that the parser refuses ends the program with the status for builds, although
nothing is built. -/
theorem not_separates_of_unknown_option :
    ¬ Separates (Sample.world Sample.project (Sample.daemon 500 "")) (Sample.words ["--bogus"])
      (run (Sample.world Sample.project (Sample.daemon 500 ""))
        (Sample.words ["--bogus"])).exitCode := by
  intro h
  have htwo : (run (Sample.world Sample.project (Sample.daemon 500 ""))
      (Sample.words ["--bogus"])).exitCode = 2 := by
    decide +kernel
  obtain ⟨p, -⟩ := h.build_failed.mp htwo
  have hparse : (Arguments.parse ⟨[]⟩ (Sample.words ["--bogus"])).toOption = none := by
    decide +kernel
  have hok : Arguments.parse ⟨[]⟩ (Sample.words ["--bogus"]) = .ok p.given := p.parse_eq
  rw [hok] at hparse
  cases hparse

end CommandLine

end ReleasePublisher
