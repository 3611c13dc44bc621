import ReleasePublisher.Proofs.Publication.Configuration

/-!
What the exit status of a failed run tells about the registry. A status of 1 or 2 means that nothing
was pushed, since a run comes to its pushes only when all builds are done and the configuration file
has been given back; a status of 3 means that a push failed, and the error names the images that were
pushed before it.
-/
namespace ReleasePublisher

def EngineCall.isBuild : EngineCall → Bool
  | .build _ => true
  | .push _ => false

def pushedImage? : EngineCall × CallEnding → Option ImageRef
  | (.push image, .succeeded) => some image
  | _ => none

/-- All builds of a plan have been made, and no other one, and they have succeeded. -/
def Plan.IsBuilt (plan : Plan) (answers : List (EngineCall × CallEnding)) : Prop :=
  answers.filter (·.1.isBuild) = succeed (plan.builds.map .build)

/-- What the exit status of an error tells about the calls that were made. -/
structure Plan.Tells (plan : Plan) (answers : List (EngineCall × CallEnding))
    (error : PublishError) : Prop where
  not_pushed : error.exitCode = 1 ∨ error.exitCode = 2 → ∀ a ∈ answers, a.1.isBuild
  all_or_nothing : error.exitCode = 1 → answers = [] ∨ plan.IsBuilt answers
  pushed : error.exitCode = 3 → plan.IsBuilt answers ∧ ∃ image cause,
    error = .pushFailed image ((answers.filterMap pushedImage?).map ImageRef.text) cause

theorem succeed_append (first second : List EngineCall) :
    succeed (first ++ second) = succeed first ++ succeed second :=
  List.map_append

theorem isBuild_of_mem_succeed {steps : List BuildStep} {a : EngineCall × CallEnding}
    (h : a ∈ succeed (steps.map .build)) : a.1.isBuild := by
  simp only [succeed, List.map_map, List.mem_map] at h
  obtain ⟨step, -, rfl⟩ := h
  rfl

theorem filter_isBuild_succeed_builds (steps : List BuildStep) :
    (succeed (steps.map .build)).filter (·.1.isBuild) = succeed (steps.map .build) :=
  List.filter_eq_self.mpr fun _ ha => isBuild_of_mem_succeed ha

theorem filterMap_pushedImage?_builds (steps : List BuildStep) :
    (succeed (steps.map .build)).filterMap pushedImage? = [] := by
  simp [succeed, pushedImage?]

theorem filter_isBuild_succeed_pushes (steps : List PushStep) :
    (succeed (steps.map fun step => .push step.image)).filter (·.1.isBuild) = [] := by
  simp [succeed, EngineCall.isBuild]

theorem filterMap_pushedImage?_pushes (steps : List PushStep) :
    (succeed (steps.map fun step => .push step.image)).filterMap pushedImage? =
      steps.map PushStep.image := by
  simp [succeed, List.filterMap_map, Function.comp_def, pushedImage?]

namespace Plan

variable {plan : Plan} {answers : List (EngineCall × CallEnding)}

theorem isBuilt_succeed : plan.IsBuilt (succeed (plan.builds.map .build)) :=
  filter_isBuild_succeed_builds plan.builds

/-- Nothing has been called, or just the builds. -/
theorem tells_of_builds {error : PublishError} (hcode : error.exitCode ≠ 3)
    (h : answers = [] ∨ answers = succeed (plan.builds.map .build)) :
    plan.Tells answers error := by
  refine ⟨fun _ a ha => ?_, fun _ => ?_, fun hthree => absurd hthree hcode⟩
  · rcases h with rfl | rfl
    · simp at ha
    · exact isBuild_of_mem_succeed ha
  · rcases h with rfl | rfl
    · exact Or.inl rfl
    · exact Or.inr isBuilt_succeed

/-- A failure that a call is to blame for tells what has been pushed before it. -/
theorem Answers.tells {error : PublishError} (h : plan.Answers answers (.failed error)) :
    plan.Tells answers error := by
  cases h with
  | @buildFailed done rest step cause split =>
    refine ⟨fun _ a ha => ?_, by simp [PublishError.exitCode], by simp [PublishError.exitCode]⟩
    rcases List.mem_append.mp ha with hdone | hlast
    · exact isBuild_of_mem_succeed hdone
    · rw [List.mem_singleton.mp hlast]
      rfl
  | @pushFailed done rest step cause split =>
    refine ⟨by simp [PublishError.exitCode], by simp [PublishError.exitCode], fun _ => ⟨?_, ?_⟩⟩
    · rw [IsBuilt, succeed_append, List.filter_append, List.filter_append,
        filter_isBuild_succeed_builds, filter_isBuild_succeed_pushes]
      simp [EngineCall.isBuild]
    · refine ⟨step.image.text, cause, ?_⟩
      rw [succeed_append, List.filterMap_append, List.filterMap_append,
        filterMap_pushedImage?_builds, filterMap_pushedImage?_pushes,
        List.filterMap_cons_none rfl]
      simp
  | interrupted split =>
    exact ⟨by simp [PublishError.exitCode], by simp [PublishError.exitCode],
      by simp [PublishError.exitCode]⟩

end Plan

namespace RunLock

/-- Whoever does not get the lock fails with the status for failures of any other kind. -/
theorem exitCode_of_perform {owner : LockOwner} {root : Path} {stage : Stage} {fs : FileSystem}
    {error : PublishError} (h : (stage.perform owner root fs).progress = .refused error) :
    error.exitCode = 1 := by
  cases Stage.Outcome.of_perform h with
  | contended => cases Stage.recordAt fs root <;> rfl
  | _ => rfl

/-- A lock that is refused is an error of its own status. -/
theorem exitCode_of_acquireFrom {owner : LockOwner} {root : Path} {stage : Stage} {site : Site}
    {error : PublishError} (h : (acquireFrom owner root stage site).1 = .error error) :
    error.exitCode = 1 := by
  rw [acquireFrom] at h
  split at h
  · next next hnext => exact exitCode_of_acquireFrom h
  · simp at h
  · next error' hrefused =>
    cases h
    exact exitCode_of_perform hrefused
termination_by stage.rank
decreasing_by exact Stage.rank_lt_of_perform ‹_›

end RunLock

namespace Publication

/-- A failing toggle of the configuration file comes before the builds or right after them. -/
theorem Built.of_configFile {path : Path} {plan : Plan} {start stop : FileSystem}
    {moments : List Moment} {fault : FileFault}
    (h : Built path plan start moments (.error (.failed (.configFile path fault))) stop) :
    exchangesIn moments = [] ∨
      (exchangesIn moments).map Exchange.answer = succeed (plan.builds.map .build) := by
  -- no call stops the builds for the configuration file
  have hphase : ∀ {answers}, ¬ BuildPhase [] plan.builds answers
      (.error (.failed (.configFile path fault))) := by
    intro answers hphase
    generalize plan.builds = steps at hphase
    cases hphase with
    | @stopped done rest step ending stop unsuccessful =>
      cases ending <;> simp [stopOf, buildFailure] at unsuccessful
  cases h with
  | release mode linked phase => exact absurd phase hphase
  | notEnabled mode failure => exact Or.inl rfl
  | discarded mode enabled linked phase discarded => exact absurd phase hphase
  | notRestored mode enabled linked phase failure =>
    right
    rw [exchangesIn_changed, exchangesIn_called]
    exact eq_succeed_of_buildPhase phase

/-- The status of an error tells which calls have been made and how the last one ended. -/
theorem Executed.tells {path : Path} {plan : Plan} {start stop : FileSystem}
    {moments : List Moment} {result : Except Stop Report} {error : PublishError}
    (h : Executed path plan start moments result stop)
    (hfailed : resultOf result = .failed error) :
    plan.Tells ((exchangesIn moments).map Exchange.answer) error := by
  cases h with
  | @stopped _ reason _ built =>
    rcases built.phase with hphase | ⟨fault, hfault⟩
    · have hanswers := answers_of_buildPhase hphase
      rw [hfailed] at hanswers
      exact hanswers.tells
    · cases hfault
      cases hfailed
      refine Plan.tells_of_builds (by simp [PublishError.exitCode]) ?_
      rcases built.of_configFile with hnone | hall
      · exact Or.inl (by rw [hnone, List.map_nil])
      · exact Or.inr hall
  | pushed built linked phase =>
    rcases built.phase with hphase | ⟨fault, hfault⟩
    · have hanswers := answers_of_pushPhase hphase phase
      rw [hfailed] at hanswers
      rw [exchangesIn_append, exchangesIn_called, List.map_append]
      exact hanswers.tells
    · simp at hfault

/-- The exit status of a failed run tells what has been pushed, whatever files and engine do. -/
theorem run_exit_status {σ : Type} (palette : Palette) (engine : Engine σ) (owner : LockOwner)
    (project : Project) (plan : Plan) (state : σ) (fs : FileSystem) {error : PublishError}
    (h : (run palette engine owner project plan state { disk := fs }).result = .failed error) :
    plan.Tells ((run palette engine owner project plan state
      { disk := fs }).site.exchanges.map Exchange.answer) error := by
  rcases hacquire : RunLock.acquire owner project.root { disk := fs } with ⟨refusal | lock, locked⟩
  · rw [exchanges_of_refused palette engine project plan owner state hacquire]
    rw [run_of_refused palette engine project plan owner state hacquire] at h
    cases h
    have hcode : error.exitCode = 1 :=
      RunLock.exitCode_of_acquireFrom (congrArg Prod.fst hacquire)
    exact Plan.tells_of_builds (by simp [hcode]) (Or.inl rfl)
  · obtain ⟨hroot, -, -, disks, hdisks, -⟩ := RunLock.acquire_ok hacquire
    obtain ⟨steps, moments, hexecuted, hreleased, hresult, hhistory⟩ :=
      exists_run palette engine project plan owner hacquire (by rw [hroot])
    rw [exchanges_run ⟨disks, hdisks⟩ hreleased hhistory]
    exact hexecuted.tells (hresult.symm.trans h)

/-- The configuration file cannot be given back after the builds, and in another run the second push
fails. -/
theorem run_exit_status_not_restored_and_second_push_fails :
    let project := Sample.project "Cargo.toml"
    let unrestored := Sample.run project .debug [] Sample.directoryInPlace
    let pushing := Sample.run project .debug [] Sample.secondPushFails
    let fault : PublishError := .configFile project.configPath (.system .isADirectory)
    let failure : PublishError := .pushFailed "ghcr.io/revoltchat/worker:1.0"
      ["ghcr.io/revoltchat/server:1.0"] "denied"
    (unrestored.result = .failed fault ∧ unrestored.site.exchanges.length = 3 ∧
        (Sample.plan .debug).Tells (unrestored.site.exchanges.map Exchange.answer) fault) ∧
      pushing.result = .failed failure ∧
        (Sample.plan .debug).Tells (pushing.site.exchanges.map Exchange.answer) failure := by
  intro project unrestored pushing fault failure
  have hunrestored : unrestored.result = .failed fault := by decide +kernel
  have hpushing : pushing.result = .failed failure := by decide +kernel
  exact ⟨⟨hunrestored, by decide +kernel,
      run_exit_status .plain Sample.engine Sample.owner project (Sample.plan .debug) _
        (Sample.disk []) hunrestored⟩,
    hpushing, run_exit_status .plain Sample.engine Sample.owner project (Sample.plan .debug) _
      (Sample.disk []) hpushing⟩

end Publication

end ReleasePublisher
