import ReleasePublisher.Proofs.Publication.Occasions

/-!
What a run owes to its engine: nothing but the answers to its calls. This is carried up from the two
phases of calls to the whole run, past the toggles of the configuration file and the lock.
-/
namespace ReleasePublisher

namespace Publication

variable {σ α : Type} (palette : Palette) (engine : Engine σ)

/-- An engine matters to what is done with it by its answers to some calls, and in no other way. -/
structure Through {β : Type} (act : Engine σ → β) (engine : Engine σ) (start : σ)
    (calls : List Exchange) (stop : σ) : Prop where
  answered : Answered engine start calls stop
  congr : ∀ engine', (∀ o ∈ occasions engine start calls, o.reply engine' = o.reply engine) →
    act engine' = act engine

namespace Through

variable {β γ : Type} {act : Engine σ → β} {act' : Engine σ → γ} {start middle stop : σ}
  {first rest : List Exchange}

theorem of_const {b : β} (hact : ∀ engine, act engine = b) : Through act engine start [] start :=
  ⟨rfl, fun engine' _ => (hact engine').trans (hact engine).symm⟩

variable {engine}

/-- What is done with the outcome of some calls matters by those calls and by its own. -/
theorem bind (h : Through act engine start first middle) (follow : Engine σ → β → γ)
    (hact : ∀ engine, act' engine = follow engine (act engine))
    (h' : Through (follow · (act engine)) engine middle rest stop) :
    Through act' engine start (first ++ rest) stop := by
  refine ⟨h.answered.append h'.answered, fun engine' hagree => ?_⟩
  rw [h.answered.occasions_append rest, List.forall_mem_append] at hagree
  rw [hact, hact, h.congr engine' hagree.1]
  exact h'.congr engine' hagree.2

/-- What follows need not have an engine. -/
theorem map (h : Through act engine start first middle) (follow : β → γ)
    (hact : ∀ engine, act' engine = follow (act engine)) :
    Through act' engine start first middle := by
  have hfollow : Through (fun _ => follow (act engine)) engine middle [] middle :=
    of_const engine fun _ => rfl
  simpa using h.bind (fun _ => follow) hact hfollow

end Through

theorem exchanges_outcome (doing : Doing σ) (site : Site) :
    (doing.outcome site).site.exchanges = site.exchanges ++ doing.exchanges := by
  show exchangesIn (site.history ++ _) = _
  rw [exchangesIn_append, exchangesIn_called]
  rfl

/-- A phase depends on its engine by the answers to its own calls. -/
theorem exists_through_phase {manner : Manner α} {act : Engine σ → Outcome σ}
    {done : List ImageRef} {steps : List α} {state : σ} {site : Site}
    (hact : ∀ engine, act engine = (manner.perform engine done steps state site.disk).outcome site) :
    ∃ calls, (act engine).site.exchanges = site.exchanges ++ calls ∧
      Through act engine state calls (act engine).state := by
  refine ⟨(manner.perform engine done steps state site.disk).exchanges, ?_, ?_, ?_⟩
  · rw [hact, exchanges_outcome]
  · rw [hact]
    exact manner.answered_perform engine done steps state site.disk
  · intro engine' hagree
    rw [hact, hact, manner.perform_congr engine hagree]

theorem exists_through_builds (built : List ImageRef) (steps : List BuildStep) (state : σ)
    (site : Site) :
    ∃ calls, (runBuilds palette engine built steps state site).site.exchanges =
        site.exchanges ++ calls ∧
      Through (runBuilds palette · built steps state site) engine state calls
        (runBuilds palette engine built steps state site).state :=
  exists_through_phase engine fun engine => runBuilds_eq palette engine built steps state site

theorem exists_through_pushes (pushed : List ImageRef) (steps : List PushStep) (state : σ)
    (site : Site) :
    ∃ calls, (runPushes palette engine pushed steps state site).site.exchanges =
        site.exchanges ++ calls ∧
      Through (runPushes palette · pushed steps state site) engine state calls
        (runPushes palette engine pushed steps state site).state :=
  exists_through_phase engine fun engine => runPushes_eq palette engine pushed steps state site

def giveBack (palette : Palette) (path : Path) (guard : ProfileGuard) :
    Outcome σ → Outcome σ
  | ⟨.error stop, state, site⟩ => ⟨.error stop, state, guard.discard site⟩
  | ⟨.ok built, state, site⟩ =>
    match guard.restore
        ((site.printLine "").printLine (noticeText palette path " を元に戻しました")) with
    | (some error, site) => ⟨.error (.failed error), state, site⟩
    | (none, site) => ⟨.ok built, state, site⟩

theorem exchanges_discard (guard : ProfileGuard) (site : Site) :
    (guard.discard site).exchanges = site.exchanges := by
  obtain ⟨moments, hhistory, hattempt⟩ := guard.exists_discard site
  show exchangesIn _ = exchangesIn _
  rw [hhistory, exchangesIn_append, Attempt.exchangesIn_eq hattempt, List.append_nil]

theorem giveBack_eq (path : Path) (guard : ProfileGuard) (outcome : Outcome σ) :
    (giveBack palette path guard outcome).site.exchanges = outcome.site.exchanges ∧
      (giveBack palette path guard outcome).state = outcome.state := by
  obtain ⟨result, state, site⟩ := outcome
  cases result with
  | error stop => exact ⟨exchanges_discard guard site, rfl⟩
  | ok built =>
    simp only [giveBack]
    generalize hnoticed : (site.printLine "").printLine _ = noticed
    have hexchanges : noticed.exchanges = site.exchanges := hnoticed ▸ rfl
    cases hwrite : noticed.disk.write guard.path guard.saved with
    | ok disk =>
      rw [guard.restore_of_ok hwrite]
      refine ⟨?_, rfl⟩
      show exchangesIn (noticed.history ++ _) = _
      rw [exchangesIn_append, exchangesIn_changed, exchangesIn_nil, List.append_nil]
      exact hexchanges
    | error fault =>
      rw [guard.restore_of_error hwrite]
      exact ⟨(exchanges_discard guard noticed).trans hexchanges, rfl⟩

theorem exists_through_debugBuilds (path : Path) (builds : List BuildStep) (state : σ)
    (site : Site) :
    ∃ calls, (runDebugBuilds palette engine path builds state site).site.exchanges =
        site.exchanges ++ calls ∧
      Through (runDebugBuilds palette · path builds state site) engine state calls
        (runDebugBuilds palette engine path builds state site).state := by
  let noticed := site.printLine (noticeText palette path " にデバッグシンボル設定を追加")
  rcases DebugProfile.activate_cases path noticed with
    ⟨saved, on, enabled, -, hactivate, -, hhistory⟩ | ⟨fault, refused, -, hactivate, -, hhistory⟩
  · have hact : ∀ engine : Engine σ, runDebugBuilds palette engine path builds state site =
        giveBack palette path ⟨path, saved⟩
          (runBuilds palette engine [] builds state enabled) := by
      intro engine
      rw [runDebugBuilds, hactivate]
      rfl
    obtain ⟨calls, hcalls, hthrough⟩ := exists_through_builds palette engine [] builds state enabled
    obtain ⟨hexchanges, hstate⟩ := giveBack_eq palette path ⟨path, saved⟩
      (runBuilds palette engine [] builds state enabled)
    refine ⟨calls, ?_, ?_⟩
    · have henabled : enabled.exchanges = site.exchanges := by
        show exchangesIn _ = _
        rw [hhistory, exchangesIn_append, exchangesIn_changed, exchangesIn_nil, List.append_nil]
        rfl
      rw [hact, hexchanges, hcalls, henabled]
    · rw [hact, hstate]
      exact hthrough.map _ hact
  · have hact : ∀ engine : Engine σ, runDebugBuilds palette engine path builds state site =
        ⟨.error (.failed (.configFile path fault)), state, refused⟩ := by
      intro engine
      rw [runDebugBuilds, hactivate]
    refine ⟨[], ?_, ?_⟩
    · rw [hact, List.append_nil]
      show exchangesIn _ = _
      rw [hhistory]
      rfl
    · rw [hact]
      exact .of_const engine hact

theorem exists_through_allBuilds (project : Project) (plan : Plan) (state : σ) (site : Site) :
    ∃ calls, (runAllBuilds palette engine project plan state site).site.exchanges =
        site.exchanges ++ calls ∧
      Through (runAllBuilds palette · project plan state site) engine state calls
        (runAllBuilds palette engine project plan state site).state := by
  simp only [runAllBuilds]
  cases plan.mode with
  | release => exact exists_through_builds palette engine [] plan.builds state site
  | debug => exact exists_through_debugBuilds palette engine project.configPath plan.builds state site

def close (plan : Plan) (built : List ImageRef) : Outcome σ → Execution σ
  | ⟨.error stop, state, site⟩ => ⟨.error stop, state, site⟩
  | ⟨.ok pushed, state, site⟩ =>
    ⟨.ok ⟨built, pushed⟩, state, site.log .info (closingText plan pushed)⟩

theorem close_eq (plan : Plan) (built : List ImageRef) (outcome : Outcome σ) :
    (close plan built outcome).site.exchanges = outcome.site.exchanges ∧
      (close plan built outcome).state = outcome.state := by
  obtain ⟨_ | _, _, _⟩ := outcome <;> exact ⟨rfl, rfl⟩

def finish (palette : Palette) (engine : Engine σ) (plan : Plan) : Outcome σ → Execution σ
  | ⟨.error stop, state, site⟩ => ⟨.error stop, state, site⟩
  | ⟨.ok built, state, site⟩ =>
    close plan built (runPushes palette engine [] plan.pushes state site)

theorem execute_eq (project : Project) (plan : Plan) (state : σ) (site : Site) :
    execute palette engine project plan state site =
      finish palette engine plan
        (runAllBuilds palette engine project plan state
          (site.log .info (openingText plan))) := rfl

theorem exists_through_finish (plan : Plan) (outcome : Outcome σ) :
    ∃ calls, (finish palette engine plan outcome).site.exchanges =
        outcome.site.exchanges ++ calls ∧
      Through (finish palette · plan outcome) engine outcome.state calls
        (finish palette engine plan outcome).state := by
  obtain ⟨result, state, site⟩ := outcome
  cases result with
  | error stop => exact ⟨[], by simp [finish], .of_const engine fun _ => rfl⟩
  | ok built =>
    obtain ⟨calls, hcalls, hthrough⟩ := exists_through_pushes palette engine [] plan.pushes state site
    have hfinish : ∀ engine, finish palette engine plan ⟨.ok built, state, site⟩ =
        close plan built (runPushes palette engine [] plan.pushes state site) := fun _ => rfl
    obtain ⟨hexchanges, hstate⟩ :=
      close_eq plan built (runPushes palette engine [] plan.pushes state site)
    refine ⟨calls, ?_, ?_⟩
    · rw [hfinish, hexchanges, hcalls]
    · rw [hfinish, hstate]
      exact hthrough.map (close plan built) hfinish

/-- An execution depends on its engine by the answers to its calls. -/
theorem exists_through_execute (project : Project) (plan : Plan) (state : σ) (site : Site) :
    ∃ calls, (execute palette engine project plan state site).site.exchanges =
        site.exchanges ++ calls ∧
      Through (execute palette · project plan state site) engine state calls
        (execute palette engine project plan state site).state := by
  obtain ⟨builds, hbuilds, hbuilt⟩ := exists_through_allBuilds palette engine project plan state
    (site.log .info (openingText plan))
  obtain ⟨pushes, hpushes, hfinished⟩ := exists_through_finish palette engine plan
    (runAllBuilds palette engine project plan state (site.log .info (openingText plan)))
  refine ⟨builds ++ pushes, ?_, ?_⟩
  · rw [execute_eq, hpushes, hbuilds, List.append_assoc]
    rfl
  · exact hbuilt.bind (finish palette · plan) (execute_eq palette · project plan state site)
      hfinished

def settle (lock : RunLock) (execution : Execution σ) : Run σ :=
  ⟨(conclude lock execution.result execution.site).1, execution.state,
    (conclude lock execution.result execution.site).2⟩

theorem exchanges_settle (lock : RunLock) (execution : Execution σ) :
    (settle lock execution).site.exchanges = execution.site.exchanges := by
  obtain ⟨-, moments, hhistory, hreleased⟩ :=
    exists_concluded lock execution.result execution.site
  show exchangesIn (conclude _ _ _).2.history = exchangesIn _
  rw [hhistory, exchangesIn_append, hreleased.exchangesIn_eq, List.append_nil]

theorem run_of_acquired (owner : LockOwner) (project : Project) (plan : Plan) (state : σ)
    {lock : RunLock} {site locked : Site}
    (h : RunLock.acquire owner project.root site = (.ok lock, locked)) :
    run palette engine owner project plan state site =
      settle lock (execute palette engine project plan state locked) := by
  rw [run, h]
  rfl

theorem exchanges_of_acquired {owner : LockOwner} {root : Path} {fs : FileSystem} {lock : RunLock}
    {locked : Site} (h : RunLock.acquire owner root { disk := fs } = (.ok lock, locked)) :
    locked.exchanges = [] := by
  obtain ⟨-, -, -, disks, hdisks, -⟩ := RunLock.acquire_ok h
  show exchangesIn _ = _
  rw [hdisks]
  exact exchangesIn_map_changed disks

/-- A run goes by the answers to its calls. -/
theorem through_run (owner : LockOwner) (project : Project) (plan : Plan) (state : σ)
    (fs : FileSystem) :
    Through (run palette · owner project plan state { disk := fs }) engine state
      (run palette engine owner project plan state { disk := fs }).site.exchanges
      (run palette engine owner project plan state { disk := fs }).state := by
  rcases hacquire : RunLock.acquire owner project.root { disk := fs } with ⟨error | lock, locked⟩
  · have hrun : ∀ engine : Engine σ, run palette engine owner project plan state { disk := fs } =
        ⟨.failed error, state, locked⟩ := fun engine =>
      run_of_refused palette engine project plan owner state hacquire
    rw [exchanges_of_refused palette engine project plan owner state hacquire, hrun]
    exact .of_const engine hrun
  · obtain ⟨calls, hcalls, hthrough⟩ :=
      exists_through_execute palette engine project plan state locked
    have hrun : ∀ engine : Engine σ, run palette engine owner project plan state { disk := fs } =
        settle lock (execute palette engine project plan state locked) := fun engine =>
      run_of_acquired palette engine owner project plan state hacquire
    rw [exchanges_of_acquired hacquire, List.nil_append] at hcalls
    rw [hrun, exchanges_settle, hcalls]
    exact hthrough.map (settle lock) hrun

end Publication

end ReleasePublisher
