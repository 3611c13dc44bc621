import ReleasePublisher.Proofs.History
import ReleasePublisher.Publication

/-!
The builds and the pushes of a run. Each phase makes a call for each of its steps in order and goes on
up to the first call that does not succeed.
-/
namespace ReleasePublisher

namespace Publication

def exchangeOf {σ : Type} (engine : Engine σ) (call : EngineCall) (state : σ)
    (disk : FileSystem) : Exchange :=
  ⟨call, disk, (engine call state disk).ending, (engine call state disk).disk⟩

/-- How a phase of calls goes, one for each step after some that have been done: all succeed, or the
first one that does not stops the phase. -/
inductive Phase {α : Type} (call : α → EngineCall) (failure : List α → α → String → PublishError)
    (image : α → ImageRef) (past : List α) : List α → List (EngineCall × CallEnding) →
    Except Stop (List ImageRef) → Prop
  | finished {steps : List α} :
      Phase call failure image past steps (steps.map fun step => (call step, .succeeded))
        (.ok ((past ++ steps).map image))
  | stopped {done rest : List α} {step : α} {ending : CallEnding} {stop : Stop}
      (unsuccessful : stopOf (failure (past ++ done) step) ending = some stop) :
      Phase call failure image past (done ++ step :: rest)
        ((done.map fun step => (call step, .succeeded)) ++ [(call step, ending)]) (.error stop)

theorem Phase.cons {α : Type} {call : α → EngineCall}
    {failure : List α → α → String → PublishError} {image : α → ImageRef} {past rest : List α}
    {step : α} {answers : List (EngineCall × CallEnding)}
    {result : Except Stop (List ImageRef)}
    (h : Phase call failure image (past ++ [step]) rest answers result) :
    Phase call failure image past (step :: rest) ((call step, .succeeded) :: answers) result := by
  cases h with
  | finished =>
    rw [List.append_assoc, List.singleton_append]
    exact .finished
  | @stopped done rest next ending stop unsuccessful =>
    rw [List.append_assoc, List.singleton_append] at unsuccessful
    have hphase : Phase call failure image past ((step :: done) ++ next :: rest)
        (((step :: done).map fun step => (call step, .succeeded)) ++ [(call next, ending)])
        (.error stop) := .stopped unsuccessful
    exact hphase

abbrev BuildPhase := Phase EngineCall.build (fun _ step => buildFailure step) BuildStep.image

/-- The phase of the pushes: a failure names the images that were pushed before. -/
abbrev PushPhase :=
  Phase (fun step : PushStep => .push step.image)
    (fun done step => pushFailure step.image (done.map PushStep.image)) PushStep.image

theorem eq_succeeded_of_stopOf {failure : String → PublishError} {ending : CallEnding}
    (h : stopOf failure ending = none) : ending = .succeeded := by
  cases ending <;> simp_all [stopOf]

variable {σ : Type} (palette : Palette) (engine : Engine σ)

theorem Phase.stopped_at {α : Type} {call : α → EngineCall}
    {failure : List α → α → String → PublishError} {image : α → ImageRef} {past rest : List α}
    {step : α} {ending : CallEnding} {stop : Stop}
    (h : stopOf (failure past step) ending = some stop) :
    Phase call failure image past (step :: rest) [(call step, ending)] (.error stop) := by
  rw [← List.append_nil past] at h
  have hphase : Phase call failure image past ([] ++ step :: rest) _ _ := .stopped h
  exact hphase

/-- Builds go as a phase, and nothing happens between them. -/
theorem exists_builds (past steps : List BuildStep) (state : σ) (site : Site) :
    ∃ calls,
      (runBuilds palette engine (past.map BuildStep.image) steps state site).site.history =
        site.history ++ calls.map .called ∧
      Linked site.disk calls
        (runBuilds palette engine (past.map BuildStep.image) steps state site).site.disk ∧
      BuildPhase past steps (calls.map Exchange.answer)
        (runBuilds palette engine (past.map BuildStep.image) steps state site).result := by
  induction steps generalizing past state site with
  | nil =>
    refine ⟨[], by simp [runBuilds], rfl, ?_⟩
    have hphase : BuildPhase past [] [] (.ok ((past ++ []).map BuildStep.image)) := .finished
    simpa [runBuilds] using hphase
  | cons step rest ih =>
    simp only [runBuilds, Site.call]
    split
    · next stop hstop =>
      exact ⟨[exchangeOf engine (.build step) state site.disk], rfl, ⟨rfl, rfl⟩,
        Phase.stopped_at hstop⟩
    · next hstop =>
      have hending := eq_succeeded_of_stopOf hstop
      have hpast : past.map BuildStep.image ++ [step.image] =
          (past ++ [step]).map BuildStep.image := by simp
      rw [hpast]
      generalize hnext : Site.printLine _ _ = next
      obtain ⟨calls, hhistory, hlinked, hphase⟩ := ih (past ++ [step])
        (engine (.build step) state site.disk).state next
      refine ⟨exchangeOf engine (.build step) state site.disk :: calls, ?_, ⟨rfl, ?_⟩, ?_⟩
      · refine hhistory.trans ?_
        subst hnext
        simp [Site.printLine, announceBuild, headline, exchangeOf]
      · subst hnext
        exact hlinked
      · have hanswer : (exchangeOf engine (.build step) state site.disk).answer =
            (.build step, .succeeded) := by
          rw [← hending]
          rfl
        rw [List.map_cons, hanswer]
        exact hphase.cons

theorem exists_pushes (past steps : List PushStep) (state : σ) (site : Site) :
    ∃ calls,
      (runPushes palette engine (past.map PushStep.image) steps state site).site.history =
        site.history ++ calls.map .called ∧
      Linked site.disk calls
        (runPushes palette engine (past.map PushStep.image) steps state site).site.disk ∧
      PushPhase past steps (calls.map Exchange.answer)
        (runPushes palette engine (past.map PushStep.image) steps state site).result := by
  induction steps generalizing past state site with
  | nil =>
    refine ⟨[], by simp [runPushes], rfl, ?_⟩
    have hphase : PushPhase past [] [] (.ok ((past ++ []).map PushStep.image)) := .finished
    simpa [runPushes] using hphase
  | cons step rest ih =>
    have hannounced : ∀ announced, announced = (if (past.map PushStep.image).isEmpty then
        announcePushes palette site else site) →
        announced.disk = site.disk ∧ announced.history = site.history := by
      rintro announced rfl
      split <;> exact ⟨rfl, rfl⟩
    simp only [runPushes, Site.call]
    generalize hsite : (if (past.map PushStep.image).isEmpty then
        announcePushes palette site else site) = announced
    obtain ⟨hdisk, hhistory⟩ := hannounced announced hsite.symm
    rw [hdisk, hhistory]
    split
    · next stop hstop =>
      exact ⟨[exchangeOf engine (.push step.image) state site.disk], rfl, ⟨rfl, rfl⟩,
        Phase.stopped_at hstop⟩
    · next hstop =>
      have hending := eq_succeeded_of_stopOf hstop
      have hpast : past.map PushStep.image ++ [step.image] =
          (past ++ [step]).map PushStep.image := by simp
      rw [hpast]
      generalize hnext : Site.mk _ _ _ = next
      obtain ⟨calls, hhistory', hlinked, hphase⟩ := ih (past ++ [step])
        (engine (.push step.image) state site.disk).state next
      refine ⟨exchangeOf engine (.push step.image) state site.disk :: calls, ?_, ⟨rfl, ?_⟩, ?_⟩
      · refine hhistory'.trans ?_
        subst hnext
        simp [exchangeOf]
      · subst hnext
        exact hlinked
      · have hanswer : (exchangeOf engine (.push step.image) state site.disk).answer =
            (.push step.image, .succeeded) := by
          rw [← hending]
          rfl
        rw [List.map_cons, hanswer]
        exact hphase.cons

theorem BuildPhase.isBuild {past steps : List BuildStep}
    {answers : List (EngineCall × CallEnding)} {result : Except Stop (List ImageRef)}
    (h : BuildPhase past steps answers result) : ∀ a ∈ answers, ∃ step, a.1 = .build step := by
  cases h with
  | finished => simp
  | stopped unsuccessful => simp [or_imp, forall_and]

theorem PushPhase.isPush {past steps : List PushStep}
    {answers : List (EngineCall × CallEnding)} {result : Except Stop (List ImageRef)}
    (h : PushPhase past steps answers result) : ∀ a ∈ answers, ∃ image, a.1 = .push image := by
  cases h with
  | finished => simp
  | stopped unsuccessful => simp [or_imp, forall_and]

theorem BuildPhase.call_eq {past steps : List BuildStep} {calls : List Exchange}
    {result : Except Stop (List ImageRef)}
    (h : BuildPhase past steps (calls.map Exchange.answer) result) {e : Exchange}
    (he : e ∈ calls) : ∃ step, e.call = .build step :=
  BuildPhase.isBuild h e.answer (List.mem_map_of_mem he)

theorem PushPhase.call_eq {past steps : List PushStep} {calls : List Exchange}
    {result : Except Stop (List ImageRef)}
    (h : PushPhase past steps (calls.map Exchange.answer) result) {e : Exchange}
    (he : e ∈ calls) : ∃ image, e.call = .push image :=
  PushPhase.isPush h e.answer (List.mem_map_of_mem he)

end Publication

end ReleasePublisher
