import ReleasePublisher.Proofs.Publication.Course

/-!
The calls of a run and its result. A run makes the calls of its plan in their order and stops right
after the first one that does not succeed; that call decides what the run comes to.
-/
namespace ReleasePublisher

def Plan.calls (plan : Plan) : List EngineCall :=
  plan.builds.map .build ++ plan.pushes.map fun step => .push step.image

def succeed (calls : List EngineCall) : List (EngineCall × CallEnding) :=
  calls.map fun call => (call, .succeeded)

/-- What a run of a plan comes to when its calls have ended in some way. -/
inductive Plan.Answers (plan : Plan) : List (EngineCall × CallEnding) → RunResult → Prop
  | published :
      Answers plan (succeed plan.calls)
        (.published ⟨plan.builds.map BuildStep.image, plan.pushes.map PushStep.image⟩)
  | buildFailed {done rest : List BuildStep} {step : BuildStep} {cause : String}
      (split : plan.builds = done ++ step :: rest) :
      Answers plan (succeed (done.map .build) ++ [(.build step, .failed cause)])
        (.failed (.buildFailed step.name step.image.text cause))
  | pushFailed {done rest : List PushStep} {step : PushStep} {cause : String}
      (split : plan.pushes = done ++ step :: rest) :
      Answers plan
        (succeed (plan.builds.map .build ++ done.map fun step => .push step.image) ++
          [(.push step.image, .failed cause)])
        (.failed (.pushFailed step.image.text (done.map fun step => step.image.text) cause))
  | interrupted {done rest : List EngineCall} {call : EngineCall}
      (split : plan.calls = done ++ call :: rest) :
      Answers plan (succeed done ++ [(call, .interrupted)]) (.failed .interrupted)
  | panicked {done rest : List EngineCall} {call : EngineCall}
      (split : plan.calls = done ++ call :: rest) :
      Answers plan (succeed done ++ [(call, .panicked)]) .panicked
  | abandoned {done rest : List EngineCall} {call : EngineCall}
      (split : plan.calls = done ++ call :: rest) :
      Answers plan (succeed done ++ [(call, .abandoned)]) .abandoned

namespace Publication

theorem eq_succeed_of_buildPhase {steps : List BuildStep} {images : List ImageRef}
    {answers : List (EngineCall × CallEnding)}
    (h : BuildPhase [] steps answers (.ok images)) : answers = succeed (steps.map .build) := by
  cases h
  simp [succeed]

/-- The toggles of the configuration file succeed as far as a run with the calls `exchanges` comes to
them: under the lock the file is read and the directive added to it, and what it held is written
back when all builds have been made. A release has no toggles. -/
inductive Toggles (path : Path) (plan : Plan) (locked : FileSystem) (exchanges : List Exchange) :
    Prop
  | release (mode : plan.mode = .release)
  | debug {saved : Bytes} {on : FileSystem} (enabled : Enabled path saved locked on)
      (restorable : ∀ made rest middle, exchanges = made ++ rest → Linked on made middle →
        made.map Exchange.answer = succeed (plan.builds.map .build) →
        ∃ off, middle.write path saved = .ok off)

/-- It is enough that the file can be written back after every call. -/
theorem Toggles.of_forall {path : Path} {plan : Plan} {locked on : FileSystem} {saved : Bytes}
    {exchanges : List Exchange} (hbuilds : plan.builds ≠ [])
    (henabled : Enabled path saved locked on)
    (h : ∀ e ∈ exchanges, ∃ off, e.after.write path saved = .ok off) :
    Toggles path plan locked exchanges := by
  refine .debug henabled ?_
  rintro made rest middle rfl hlinked hmade
  rcases List.eq_nil_or_concat made with rfl | ⟨past, last, rfl⟩
  · exact absurd (by simpa [succeed] using hmade.symm) hbuilds
  · rw [List.concat_eq_append] at hlinked h
    rw [hlinked.stop_eq]
    exact h last (by simp)

/-- The builds of a plan go as a phase, unless the configuration file cannot be toggled. -/
theorem Built.phase {path : Path} {plan : Plan} {start stop : FileSystem} {moments : List Moment}
    {result : Except Stop (List ImageRef)} (h : Built path plan start moments result stop) :
    BuildPhase [] plan.builds ((exchangesIn moments).map Exchange.answer) result ∨
      ∃ fault, result = .error (.failed (.configFile path fault)) := by
  cases h with
  | release mode linked phase => exact Or.inl (by simpa using phase)
  | notEnabled mode failure => exact Or.inr ⟨_, rfl⟩
  | restored mode enabled linked phase restored => exact Or.inl (by simpa using phase)
  | discarded mode enabled linked phase discarded =>
    exact Or.inl (by simpa [Attempt.exchangesIn_eq discarded] using phase)
  | notRestored mode enabled linked phase failure => exact Or.inr ⟨_, rfl⟩

/-- With toggles that succeed, the builds of a plan go as a phase in either mode. -/
theorem Built.phase_of_toggles {path : Path} {plan : Plan} {start stop : FileSystem}
    {moments : List Moment} {result : Except Stop (List ImageRef)} {more : List Exchange}
    (h : Built path plan start moments result stop)
    (htoggles : Toggles path plan start (exchangesIn moments ++ more)) :
    BuildPhase [] plan.builds ((exchangesIn moments).map Exchange.answer) result := by
  cases h with
  | release mode linked phase => simpa using phase
  | notEnabled mode failure =>
    cases htoggles with
    | release released => simp [mode] at released
    | debug enabled => simp [enabled.read_eq, enabled.append_eq] at failure
  | restored mode enabled linked phase restored => simpa using phase
  | discarded mode enabled linked phase discarded =>
    simpa [Attempt.exchangesIn_eq discarded] using phase
  | @notRestored saved on _ calls images fault mode enabled linked phase failure =>
    cases htoggles with
    | release released => simp [mode] at released
    | @debug saved' on' enabled' restorable =>
      obtain rfl := Except.ok.inj (enabled.read_eq.symm.trans enabled'.read_eq)
      obtain rfl := Except.ok.inj (enabled.append_eq.symm.trans enabled'.append_eq)
      rw [exchangesIn_changed, exchangesIn_called] at restorable
      obtain ⟨off, hoff⟩ := restorable calls more stop rfl linked (eq_succeed_of_buildPhase phase)
      cases failure.symm.trans hoff

/-- The first build that does not succeed decides. -/
theorem answers_of_buildPhase {plan : Plan} {answers : List (EngineCall × CallEnding)}
    {reason : Stop} (h : BuildPhase [] plan.builds answers (.error reason)) :
    plan.Answers answers (resultOf (.error reason)) := by
  generalize hsteps : plan.builds = steps at h
  cases h with
  | @stopped done rest step ending stop unsuccessful =>
    have hcalls : plan.calls = done.map .build ++ .build step ::
        (rest.map .build ++ plan.pushes.map fun step => .push step.image) := by
      simp [Plan.calls, hsteps]
    have hdone : (done.map fun step => (EngineCall.build step, CallEnding.succeeded)) =
        succeed (done.map .build) := by
      simp [succeed]
    rw [hdone]
    cases ending with
    | succeeded => simp [stopOf] at unsuccessful
    | failed cause =>
      cases unsuccessful
      exact .buildFailed hsteps
    | panicked =>
      cases unsuccessful
      exact .panicked hcalls
    | interrupted =>
      cases unsuccessful
      exact .interrupted hcalls
    | abandoned =>
      cases unsuccessful
      exact .abandoned hcalls

/-- When all images have been built, the first push that does not succeed decides. -/
theorem answers_of_pushPhase {plan : Plan} {builds pushes : List (EngineCall × CallEnding)}
    {images : List ImageRef} {result : Except Stop (List ImageRef)}
    (hbuilds : BuildPhase [] plan.builds builds (.ok images))
    (h : PushPhase [] plan.pushes pushes result) :
    plan.Answers (builds ++ pushes)
      (resultOf (result.map fun pushed => (⟨images, pushed⟩ : Report))) := by
  generalize hsteps : plan.builds = steps at hbuilds
  cases hbuilds
  subst hsteps
  have hbuilt : (plan.builds.map fun step => (EngineCall.build step, CallEnding.succeeded)) =
      succeed (plan.builds.map .build) := by
    simp [succeed]
  rw [hbuilt]
  generalize hsteps : plan.pushes = steps at h
  cases h with
  | finished =>
    subst hsteps
    have hpublished : plan.Answers _ _ := .published
    simpa [succeed, Plan.calls, resultOf, Except.map, Function.comp_def] using hpublished
  | @stopped done rest step ending stop unsuccessful =>
    have hcalls : plan.calls = (plan.builds.map .build ++ done.map fun step => .push step.image) ++
        .push step.image :: rest.map fun step => .push step.image := by
      simp [Plan.calls, hsteps]
    have hdone : succeed (plan.builds.map .build) ++
        ((done.map fun step => (EngineCall.push step.image, CallEnding.succeeded)) ++
          [(EngineCall.push step.image, ending)]) =
        succeed (plan.builds.map .build ++ done.map fun step => .push step.image) ++
          [(EngineCall.push step.image, ending)] := by
      simp [succeed]
    rw [hdone]
    cases ending with
    | succeeded => simp [stopOf] at unsuccessful
    | failed cause =>
      cases unsuccessful
      have hfailed : plan.Answers _ (.failed (.pushFailed step.image.text _ cause)) :=
        .pushFailed hsteps
      simpa [resultOf, Except.map, pushFailure, Function.comp_def] using hfailed
    | panicked =>
      cases unsuccessful
      exact .panicked hcalls
    | interrupted =>
      cases unsuccessful
      exact .interrupted hcalls
    | abandoned =>
      cases unsuccessful
      exact .abandoned hcalls

/-- With toggles that succeed, the steps of a plan are answered as a whole. -/
theorem Executed.answers {path : Path} {plan : Plan} {start stop : FileSystem}
    {moments : List Moment} {result : Except Stop Report}
    (h : Executed path plan start moments result stop)
    (htoggles : Toggles path plan start (exchangesIn moments)) :
    plan.Answers ((exchangesIn moments).map Exchange.answer) (resultOf result) := by
  cases h with
  | stopped built =>
    rw [← List.append_nil (exchangesIn moments)] at htoggles
    exact answers_of_buildPhase (built.phase_of_toggles htoggles)
  | pushed built linked phase =>
    rw [exchangesIn_append, exchangesIn_called] at htoggles ⊢
    rw [List.map_append]
    exact answers_of_pushPhase (built.phase_of_toggles htoggles) phase

/-- A run of a catalog that gets the lock and can toggle the configuration file makes the calls of
its plan in order, the base image first, up to the first one that does not succeed, and its result
is what that call makes it. A run in release mode has nothing to toggle. -/
theorem run_answers_plan {σ : Type} (palette : Palette) (engine : Engine σ) (owner : LockOwner)
    (project : Project) (catalog : Catalog) (tag : ReleaseTag) (mode : BuildMode)
    (options : PlanOptions) (state : σ) (fs : FileSystem) {lock : RunLock} {locked : Site}
    (hlock : RunLock.acquire owner project.root { disk := fs } = (.ok lock, locked))
    (htoggles : Toggles project.configPath (.ofCatalog catalog tag mode options) locked.disk
      (run palette engine owner project (.ofCatalog catalog tag mode options) state
        { disk := fs }).site.exchanges) :
    (Plan.ofCatalog catalog tag mode options).calls =
        .build (Plan.baseBuild catalog.base options) ::
          catalog.services.map (fun spec => .build (Plan.serviceBuild tag options spec)) ++
            catalog.services.map (fun spec => .push (Plan.serviceImage tag options spec)) ∧
      (Plan.ofCatalog catalog tag mode options).Answers
        ((run palette engine owner project (.ofCatalog catalog tag mode options) state
          { disk := fs }).site.exchanges.map Exchange.answer)
        (run palette engine owner project (.ofCatalog catalog tag mode options) state
          { disk := fs }).result := by
  refine ⟨?_, ?_⟩
  · simp [Plan.calls, Plan.ofCatalog, Plan.servicePush, Function.comp_def]
  · generalize Plan.ofCatalog catalog tag mode options = plan at htoggles ⊢
    obtain ⟨hroot, -, -, disks, hdisks, -⟩ := RunLock.acquire_ok hlock
    obtain ⟨steps, moments, hexecuted, hreleased, hresult, hhistory⟩ :=
      exists_run palette engine project plan owner hlock (by rw [hroot])
    have hexchanges := exchanges_run ⟨disks, hdisks⟩ hreleased hhistory
    rw [hexchanges] at htoggles ⊢
    rw [hresult]
    exact hexecuted.answers htoggles

end Publication

namespace Sample

def owner : LockOwner := { host := "host", pid := 7 }

def project (configFile : String) : Project := ⟨.ofString "/work", .ofString configFile⟩

def content : Bytes := Bytes.ofString "[package]"

def disk (others : List (Bytes × Node)) : FileSystem where
  root := .directory ⟨0o755, .epoch⟩
    [(Bytes.ofString "work", .directory ⟨0o755, .epoch⟩
      ((Bytes.ofString "Cargo.toml", .file 0 ⟨0o644, .epoch⟩ content) :: others))]
  workingDirectory := { location := [] }
  clock := { Timestamp.epoch with hour := 2, hour_lt := by decide }
  nextSerial := 1

def halfPast : Timestamp :=
  { Timestamp.epoch with hour := 2, hour_lt := by decide, minute := 30, minute_lt := by decide }

def catalog : Catalog where
  base := Catalog.service "base" "Dockerfile"
  services :=
    [Catalog.service "server" "server/Dockerfile", Catalog.service "worker" "worker/Dockerfile"]

def tag : ReleaseTag := ⟨"1.0", by decide⟩

abbrev Script := List ((FileSystem → FileSystem) × CallEnding)

def engine : Engine Script
  | _, [], disk => ⟨.succeeded, [], disk, {}⟩
  | _, (act, ending) :: rest, disk => ⟨ending, rest, act disk, {}⟩

def plan (mode : BuildMode) : Plan := .ofCatalog catalog tag mode {}

def run (project : Project) (mode : BuildMode) (others : List (Bytes × Node)) (script : Script) :
    Publication.Run Script :=
  Publication.run .plain engine owner project (plan mode) script { disk := disk others }

theorem acquire_eq : RunLock.acquire owner (project "Cargo.toml").root { disk := disk [] } =
    (.ok ⟨(project "Cargo.toml").root⟩,
      (RunLock.acquire owner (project "Cargo.toml").root { disk := disk [] }).2) := by
  have hok : (RunLock.acquire owner (project "Cargo.toml").root { disk := disk [] }).1 =
      .ok ⟨(project "Cargo.toml").root⟩ := eq_ok_of_toOption (by decide +kernel)
  exact Prod.ext hok rfl

theorem read_eq : (disk []).read (project "Cargo.toml").configPath = .ok content :=
  eq_ok_of_toOption (by decide +kernel)

theorem apart : RunLock.Apart (project "Cargo.toml").root (project "Cargo.toml").configPath
    (RunLock.entered (project "Cargo.toml").root (disk [])) := by
  decide +kernel

def secondPushFails : Script :=
  List.replicate 4 (id, .succeeded) ++ [(id, .failed "denied")]

end Sample

namespace Publication

/-- Three builds and a push succeed, and the next push does not, with the toggles and without. -/
theorem run_answers_plan_second_push_fails :
    let project := Sample.project "Cargo.toml"
    let debug := Sample.run project .debug [] Sample.secondPushFails
    let release := Sample.run project .release [] Sample.secondPushFails
    ∃ locked, RunLock.acquire Sample.owner project.root { disk := Sample.disk [] } =
        (.ok ⟨project.root⟩, locked) ∧
      Toggles project.configPath (Sample.plan .debug) locked.disk debug.site.exchanges ∧
      (Sample.plan .debug).Answers (debug.site.exchanges.map Exchange.answer) debug.result ∧
      Toggles project.configPath (Sample.plan .release) locked.disk release.site.exchanges ∧
      (Sample.plan .release).Answers (release.site.exchanges.map Exchange.answer) release.result ∧
      debug.result = .failed (.pushFailed "ghcr.io/revoltchat/worker:1.0"
        ["ghcr.io/revoltchat/server:1.0"] "denied") ∧
      release.result = debug.result := by
  intro project debug release
  let locked := (RunLock.acquire Sample.owner project.root { disk := Sample.disk [] }).2
  have hlock : RunLock.acquire Sample.owner project.root { disk := Sample.disk [] } =
      (.ok ⟨project.root⟩, locked) := Sample.acquire_eq
  have hread : locked.disk.read project.configPath = .ok Sample.content :=
    eq_ok_of_toOption (by decide +kernel)
  have happend : (locked.disk.append project.configPath
      DebugProfile.directive).toOption.isSome := by
    decide +kernel
  obtain ⟨on, hon⟩ := Option.isSome_iff_exists.mp happend
  have hwrite : ∀ e ∈ debug.site.exchanges,
      (e.after.write project.configPath Sample.content).toOption.isSome := by
    decide +kernel
  have hdebug : Toggles project.configPath (Sample.plan .debug) locked.disk
      debug.site.exchanges := by
    refine .of_forall (by simp [Sample.plan, Plan.ofCatalog]) ⟨hread, eq_ok_of_toOption hon⟩ ?_
    intro e he
    obtain ⟨off, hoff⟩ := Option.isSome_iff_exists.mp (hwrite e he)
    exact ⟨off, eq_ok_of_toOption hoff⟩
  have hrelease : Toggles project.configPath (Sample.plan .release) locked.disk
      release.site.exchanges := .release rfl
  exact ⟨locked, hlock, hdebug,
    (run_answers_plan .plain Sample.engine Sample.owner project Sample.catalog Sample.tag .debug {}
      _ (Sample.disk []) hlock hdebug).2,
    hrelease,
    (run_answers_plan .plain Sample.engine Sample.owner project Sample.catalog Sample.tag .release {}
      _ (Sample.disk []) hlock hrelease).2,
    by decide +kernel, by decide +kernel⟩

end Publication

end ReleasePublisher
