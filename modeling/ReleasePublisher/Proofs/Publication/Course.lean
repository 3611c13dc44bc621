import ReleasePublisher.Proofs.Lock.Release
import ReleasePublisher.Proofs.Publication.Phases

/-!
The course of a run: which calls and file operations follow each other, and on which files each of
them works. A phase of calls goes on up to the first one that does not succeed. The courses of an
execution are all the ways in which phases and the toggles of the configuration file combine.
-/
namespace ReleasePublisher

namespace Publication

open FileSystem

structure Enabled (path : Path) (saved : Bytes) (before after : FileSystem) : Prop where
  read_eq : before.read path = .ok saved
  append_eq : before.append path DebugProfile.directive = .ok after

theorem Enabled.written {path : Path} {saved : Bytes} {before after : FileSystem}
    (h : Enabled path saved before after) :
    ∃ l, Written path l (saved ++ DebugProfile.directive) before after := by
  obtain ⟨hread, happend⟩ := h
  obtain ⟨l, serial, attributes, old, hplace, hface⟩ := exists_file_of_append happend
  obtain ⟨fs', happend', hwritten⟩ := append_of_file hplace hface DebugProfile.directive
  rw [happend, Except.ok.injEq] at happend'
  subst happend'
  obtain ⟨l', face, hplace', hface', hcontent⟩ := read_eq_ok_iff.mp hread
  rw [hplace] at hplace'
  simp only [Except.ok.injEq, Place.taken.injEq] at hplace'
  subst hplace'
  rw [hface, Option.some.injEq] at hface'
  subst hface'
  have hold : old = saved := by simpa [Face.content?] using hcontent
  exact ⟨l, hold ▸ hwritten⟩

inductive Built (path : Path) (plan : Plan) (start : FileSystem) :
    List Moment → Except Stop (List ImageRef) → FileSystem → Prop
  | release {calls : List Exchange} {result : Except Stop (List ImageRef)} {stop : FileSystem}
      (mode : plan.mode = .release) (linked : Linked start calls stop)
      (phase : BuildPhase [] plan.builds (calls.map Exchange.answer) result) :
      Built path plan start (calls.map .called) result stop
  | notEnabled {fault : FileFault} (mode : plan.mode = .debug)
      (failure : start.read path = .error fault ∨
        start.append path DebugProfile.directive = .error fault) :
      Built path plan start [] (.error (.failed (.configFile path fault))) start
  | restored {saved : Bytes} {on off middle : FileSystem} {calls : List Exchange}
      {images : List ImageRef} (mode : plan.mode = .debug) (enabled : Enabled path saved start on)
      (linked : Linked on calls middle)
      (phase : BuildPhase [] plan.builds (calls.map Exchange.answer) (.ok images))
      (restored : middle.write path saved = .ok off) :
      Built path plan start (.changed on :: calls.map .called ++ [.changed off]) (.ok images) off
  | discarded {saved : Bytes} {on middle stop : FileSystem} {calls : List Exchange}
      {reason : Stop} {moments : List Moment} (mode : plan.mode = .debug)
      (enabled : Enabled path saved start on) (linked : Linked on calls middle)
      (phase : BuildPhase [] plan.builds (calls.map Exchange.answer) (.error reason))
      (discarded : Attempt (·.write path saved) middle moments stop) :
      Built path plan start (.changed on :: calls.map .called ++ moments) (.error reason) stop
  | notRestored {saved : Bytes} {on stop : FileSystem} {calls : List Exchange}
      {images : List ImageRef} {fault : FileFault} (mode : plan.mode = .debug)
      (enabled : Enabled path saved start on) (linked : Linked on calls stop)
      (phase : BuildPhase [] plan.builds (calls.map Exchange.answer) (.ok images))
      (failure : stop.write path saved = .error fault) :
      Built path plan start (.changed on :: calls.map .called)
        (.error (.failed (.configFile path fault))) stop

inductive Executed (path : Path) (plan : Plan) (start : FileSystem) :
    List Moment → Except Stop Report → FileSystem → Prop
  | stopped {moments : List Moment} {reason : Stop} {stop : FileSystem}
      (built : Built path plan start moments (.error reason) stop) :
      Executed path plan start moments (.error reason) stop
  | pushed {moments : List Moment} {images : List ImageRef} {middle stop : FileSystem}
      {calls : List Exchange} {result : Except Stop (List ImageRef)}
      (built : Built path plan start moments (.ok images) middle)
      (linked : Linked middle calls stop)
      (phase : PushPhase [] plan.pushes (calls.map Exchange.answer) result) :
      Executed path plan start (moments ++ calls.map .called)
        (result.map fun pushed => (⟨images, pushed⟩ : Report)) stop

end Publication

theorem Project.isAbsolute_configPath (project : Project) (h : project.root.isAbsolute = true) :
    project.configPath.isAbsolute = true := by
  rw [configPath, Path.isAbsolute_append, h, Bool.or_true]

namespace ProfileGuard

/-- A guard that goes away early tries to write its file once. -/
theorem exists_discard (guard : ProfileGuard) (site : Site) :
    ∃ moments, (guard.discard site).history = site.history ++ moments ∧
      Attempt (·.write guard.path guard.saved) site.disk moments (guard.discard site).disk := by
  obtain ⟨moments, hhistory, hattempt⟩ := site.exists_attempt (·.write guard.path guard.saved)
  refine ⟨moments, ?_, ?_⟩
  · rw [← hhistory, discard, writeSaved]
    rcases site.attempt (·.write guard.path guard.saved) with ⟨_ | fault, after⟩ <;> rfl
  · rw [discard, writeSaved]
    revert hattempt
    rcases site.attempt (·.write guard.path guard.saved) with ⟨_ | fault, after⟩ <;> exact id

theorem discard_of_error (guard : ProfileGuard) {site : Site} {fault : FileFault}
    (h : site.disk.write guard.path guard.saved = .error fault) :
    (guard.discard site).disk = site.disk ∧ (guard.discard site).history = site.history := by
  rw [discard, writeSaved, Site.attempt_of_error _ h]
  exact ⟨rfl, rfl⟩

theorem restore_of_ok (guard : ProfileGuard) {site : Site} {disk : FileSystem}
    (h : site.disk.write guard.path guard.saved = .ok disk) :
    guard.restore site = (none, (site.change disk).log .info ("Restored " ++ guard.path.display)) := by
  rw [restore, writeSaved, Site.attempt_of_ok _ h]

theorem restore_of_error (guard : ProfileGuard) {site : Site} {fault : FileFault}
    (h : site.disk.write guard.path guard.saved = .error fault) :
    guard.restore site = (some (.configFile guard.path fault), guard.discard site) := by
  rw [restore, writeSaved, Site.attempt_of_error _ h]

end ProfileGuard

namespace FileSystem

/-- A file that is read but cannot be added to cannot be written either. -/
theorem write_error_of_append_error {fs : FileSystem} {path : Path} {saved more : Bytes}
    {fault : FileFault} (hread : fs.read path = .ok saved)
    (happend : fs.append path more = .error fault) :
    ∃ fault, fs.write path saved = .error fault := by
  cases hwrite : fs.write path saved with
  | error fault' => exact ⟨fault', rfl⟩
  | ok fs' =>
    obtain ⟨l, face, hplace, hface, -⟩ := read_eq_ok_iff.mp hread
    obtain ⟨l', hwritten⟩ := written_of_write hwrite
    cases hwritten with
    | refilled hplace' step =>
      obtain ⟨serial, attributes, -, old, hbefore, -⟩ := step.shows
      obtain ⟨fs', happend', -⟩ := append_of_file hplace' hbefore more
      rw [happend] at happend'
      simp at happend'
    | made serial attributes step =>
      rw [step.free] at hplace
      simp at hplace

end FileSystem

namespace DebugProfile

/-- Activation adds the directive, or fails and changes nothing. -/
theorem activate_cases (path : Path) (site : Site) :
    (∃ saved on after, Publication.Enabled path saved site.disk on ∧
      activate path site = (.ok ⟨path, saved⟩, after) ∧ after.disk = on ∧
      after.history = site.history ++ [.changed on]) ∨
    ∃ fault after, (site.disk.read path = .error fault ∨
        site.disk.append path directive = .error fault) ∧
      activate path site = (.error (.configFile path fault), after) ∧
      after.disk = site.disk ∧ after.history = site.history := by
  rw [activate]
  cases hread : site.disk.read path with
  | error fault => exact Or.inr ⟨fault, site, Or.inl rfl, rfl, rfl, rfl⟩
  | ok saved =>
    cases happend : site.disk.append path directive with
    | ok on =>
      rw [Site.attempt_of_ok _ happend]
      exact Or.inl ⟨saved, on, _, ⟨hread, happend⟩, rfl, rfl, rfl⟩
    | error fault =>
      rw [Site.attempt_of_error _ happend]
      obtain ⟨fault', hwrite⟩ := FileSystem.write_error_of_append_error hread happend
      obtain ⟨hdisk, hhistory⟩ :=
        ProfileGuard.discard_of_error ⟨path, saved⟩ hwrite
      exact Or.inr ⟨fault, _, Or.inr rfl, rfl, hdisk, hhistory⟩

end DebugProfile

namespace Publication

variable {σ : Type} (palette : Palette) (engine : Engine σ) (project : Project) (plan : Plan)

/-- The builds of a debug run go between the two toggles. -/
theorem exists_built_debug (path : Path) (hmode : plan.mode = .debug) (state : σ) (site : Site) :
    ∃ moments,
      (runDebugBuilds palette engine path plan.builds state site).site.history =
        site.history ++ moments ∧
      Built path plan site.disk moments
        (runDebugBuilds palette engine path plan.builds state site).result
        (runDebugBuilds palette engine path plan.builds state site).site.disk := by
  rw [runDebugBuilds]
  generalize hnoticed : site.printLine _ = noticed
  have hdisk : noticed.disk = site.disk := hnoticed ▸ rfl
  have hhistory : noticed.history = site.history := hnoticed ▸ rfl
  rcases DebugProfile.activate_cases path noticed with
    ⟨saved, on, enabled, hon, hactivate, hdisk', hhistory'⟩ |
    ⟨fault, refused, hfailure, hactivate, hdisk', hhistory'⟩
  · rw [hdisk] at hon
    rw [hhistory] at hhistory'
    obtain ⟨calls, hcalls, hlinked, hphase⟩ :=
      exists_builds palette engine [] plan.builds state enabled
    rw [hdisk'] at hlinked
    simp only [List.map_nil] at hcalls hlinked hphase
    simp only [hactivate]
    generalize houtcome : runBuilds palette engine [] plan.builds state enabled = outcome
      at hcalls hlinked hphase
    obtain ⟨result, state', built⟩ := outcome
    simp only at hcalls hlinked hphase
    cases result with
    | error reason =>
      obtain ⟨moments, hmoments, hattempt⟩ :=
        ProfileGuard.exists_discard ⟨path, saved⟩ built
      refine ⟨_, ?_, .discarded hmode hon hlinked hphase hattempt⟩
      simp [hmoments, hcalls, hhistory']
    | ok images =>
      simp only
      generalize hnoticed' : (built.printLine "").printLine _ = noticed'
      have hdisk'' : noticed'.disk = built.disk := hnoticed' ▸ rfl
      have hhistory'' : noticed'.history = built.history := hnoticed' ▸ rfl
      rw [← hdisk''] at hlinked
      cases hwrite : noticed'.disk.write path saved with
      | ok off =>
        rw [ProfileGuard.restore_of_ok ⟨path, saved⟩ hwrite]
        refine ⟨_, ?_, .restored hmode hon hlinked hphase hwrite⟩
        simp [Site.log, Site.change, hhistory'', hcalls, hhistory']
      | error fault =>
        rw [ProfileGuard.restore_of_error ⟨path, saved⟩ hwrite]
        -- the guard tries once more when it goes away, and fails for the same reason
        obtain ⟨hsame, hsame'⟩ := ProfileGuard.discard_of_error ⟨path, saved⟩ hwrite
        rw [← hsame] at hlinked hwrite
        refine ⟨_, ?_, .notRestored hmode hon hlinked hphase hwrite⟩
        simp [hsame', hhistory'', hcalls, hhistory']
  · rw [hdisk] at hfailure hdisk'
    rw [hhistory] at hhistory'
    simp only [hactivate]
    refine ⟨[], by simp [hhistory'], ?_⟩
    rw [hdisk']
    exact .notEnabled hmode hfailure

theorem exists_built (state : σ) (site : Site) :
    ∃ moments,
      (runAllBuilds palette engine project plan state site).site.history =
        site.history ++ moments ∧
      Built project.configPath plan site.disk moments
        (runAllBuilds palette engine project plan state site).result
        (runAllBuilds palette engine project plan state site).site.disk := by
  rw [runAllBuilds]
  cases hmode : plan.mode with
  | release =>
    obtain ⟨calls, hhistory, hlinked, hphase⟩ :=
      exists_builds palette engine [] plan.builds state site
    exact ⟨_, hhistory, .release hmode hlinked hphase⟩
  | debug => exact exists_built_debug palette engine plan _ hmode state site

/-- An execution goes as its steps do, and all that it does is in the history. -/
theorem exists_executed (state : σ) (site : Site) :
    ∃ moments,
      (execute palette engine project plan state site).site.history = site.history ++ moments ∧
      Executed project.configPath plan site.disk moments
        (execute palette engine project plan state site).result
        (execute palette engine project plan state site).site.disk := by
  rw [execute]
  obtain ⟨moments, hhistory, hbuilt⟩ :=
    exists_built palette engine project plan state (site.log .info (openingText plan))
  generalize runAllBuilds palette engine project plan state _ = outcome at hhistory hbuilt
  obtain ⟨result, state', built⟩ := outcome
  cases result with
  | error reason => exact ⟨moments, hhistory, .stopped hbuilt⟩
  | ok images =>
    obtain ⟨calls, hcalls, hlinked, hphase⟩ :=
      exists_pushes palette engine [] plan.pushes state' built
    simp only [List.map_nil] at hcalls hlinked hphase
    simp only
    generalize runPushes palette engine [] plan.pushes state' built = outcome
      at hcalls hlinked hphase
    obtain ⟨result, state'', pushed⟩ := outcome
    simp only at hhistory hbuilt hcalls hlinked hphase
    have hexecuted := Executed.pushed hbuilt hlinked hphase
    cases result with
    | error reason => exact ⟨_, by simp [hcalls, hhistory, Site.log], hexecuted⟩
    | ok images' => exact ⟨_, by simp [hcalls, hhistory, Site.log], hexecuted⟩

theorem releaseLock_eq_discard (lock : RunLock) (site : Site) :
    (releaseLock lock site).disk = (lock.discard site).disk ∧
      (releaseLock lock site).history = (lock.discard site).history := by
  rw [← RunLock.release_eq_discard, releaseLock]
  rcases lock.release site with ⟨_ | error, after⟩ <;> exact ⟨rfl, rfl⟩

def resultOf : Except Stop Report → RunResult
  | .ok report => .published report
  | .error (.failed error) => .failed error
  | .error .interrupted => .failed .interrupted
  | .error .panicked => .panicked
  | .error .abandoned => .abandoned

/-- In whatever way the steps have ended, the lock goes. -/
theorem exists_concluded (lock : RunLock) (result : Except Stop Report) (site : Site) :
    (conclude lock result site).1 = resultOf result ∧
      ∃ moments, (conclude lock result site).2.history = site.history ++ moments ∧
        RunLock.Released lock.root site.disk moments (conclude lock result site).2.disk := by
  obtain ⟨moments, hhistory, hreleased⟩ := RunLock.exists_discarded lock site
  have hrelease : ∀ site' : Site, site'.disk = site.disk → site'.history = site.history →
      ∃ moments, (releaseLock lock site').history = site.history ++ moments ∧
        RunLock.Released lock.root site.disk moments (releaseLock lock site').disk := by
    intro site' hdisk hhistory'
    obtain ⟨moments, hhistory, hreleased⟩ := RunLock.exists_discarded lock site'
    obtain ⟨hdisk'', hhistory''⟩ := releaseLock_eq_discard lock site'
    refine ⟨moments, ?_, ?_⟩
    · rw [hhistory'', hhistory, hhistory']
    · rw [hdisk'', ← hdisk]
      exact hreleased
  cases result with
  | ok report => exact ⟨rfl, hrelease site rfl rfl⟩
  | error stop =>
    cases stop with
    | failed error => exact ⟨rfl, hrelease site rfl rfl⟩
    | interrupted => exact ⟨rfl, hrelease (site.log .warning _) rfl rfl⟩
    | panicked => exact ⟨rfl, moments, hhistory, hreleased⟩
    | abandoned => exact ⟨rfl, moments, hhistory, hreleased⟩

variable (owner : LockOwner)

theorem run_of_refused (state : σ) {site refused : Site} {error : PublishError}
    (h : RunLock.acquire owner project.root site = (.error error, refused)) :
    run palette engine owner project plan state site = ⟨.failed error, state, refused⟩ := by
  rw [run, h]

/-- The course of a run that gets the lock. -/
theorem exists_run {state : σ} {site locked : Site} {lock : RunLock}
    (h : RunLock.acquire owner project.root site = (.ok lock, locked))
    (hroot : lock.root = project.root) :
    ∃ steps moments,
      Executed project.configPath plan locked.disk steps
        (execute palette engine project plan state locked).result
        (execute palette engine project plan state locked).site.disk ∧
      RunLock.Released project.root (execute palette engine project plan state locked).site.disk moments
        (run palette engine owner project plan state site).site.disk ∧
      (run palette engine owner project plan state site).result =
        resultOf (execute palette engine project plan state locked).result ∧
      (run palette engine owner project plan state site).site.history =
        locked.history ++ steps ++ moments := by
  obtain ⟨steps, hsteps, hexecuted⟩ := exists_executed palette engine project plan state locked
  obtain ⟨hresult, moments, hmoments, hreleased⟩ := exists_concluded lock
    (execute palette engine project plan state locked).result
    (execute palette engine project plan state locked).site
  rw [run, h]
  refine ⟨steps, moments, hexecuted, hroot ▸ hreleased, hresult, ?_⟩
  rw [← hsteps, ← hmoments]

theorem exchanges_run {σ : Type} {palette : Palette} {engine : Engine σ} {owner : LockOwner}
    {project : Project} {plan : Plan} {state : σ} {fs : FileSystem} {locked : Site}
    {steps moments : List Moment} {stop : FileSystem}
    (hlocked : ∃ disks : List FileSystem, locked.history = disks.map .changed)
    (hreleased : RunLock.Released project.root
      (execute palette engine project plan state locked).site.disk moments stop)
    (hhistory : (run palette engine owner project plan state { disk := fs }).site.history =
      locked.history ++ steps ++ moments) :
    (run palette engine owner project plan state { disk := fs }).site.exchanges =
      exchangesIn steps := by
  obtain ⟨disks, hdisks⟩ := hlocked
  show exchangesIn _ = _
  rw [hhistory, hdisks, exchangesIn_append, exchangesIn_append, exchangesIn_map_changed,
    hreleased.exchangesIn_eq, List.append_nil, List.nil_append]

theorem exchanges_of_refused {σ : Type} (palette : Palette) (engine : Engine σ)
    (project : Project) (plan : Plan) (owner : LockOwner) (state : σ) {fs : FileSystem}
    {error : PublishError} {refused : Site}
    (h : RunLock.acquire owner project.root { disk := fs } = (.error error, refused)) :
    (run palette engine owner project plan state { disk := fs }).site.exchanges = [] := by
  obtain ⟨-, -, disks, hdisks, -⟩ := RunLock.acquire_touched owner project.root { disk := fs }
  rw [h] at hdisks
  rw [run_of_refused palette engine project plan owner state h]
  show exchangesIn refused.history = []
  rw [hdisks]
  exact exchangesIn_map_changed disks

end Publication

end ReleasePublisher
