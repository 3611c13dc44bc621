import ReleasePublisher.Proofs.Publication.Calls

/-!
The configuration file at the calls of a debug run. While nothing but the run has changed it, builds
find it with the directive at its end, once, and pushes find it as it was before the run, whatever
the builds have done to it; where it cannot be given back there are no pushes.
-/
namespace ReleasePublisher

namespace Publication

open FileSystem

/-- The calls of a debug run that has the directive added: the builds, and the pushes if the file
could be given back. -/
inductive DebugCalls (path : Path) (plan : Plan) (saved : Bytes) :
    List Exchange → Except Stop Report → Prop
  | builds {on stop : FileSystem} {calls : List Exchange} {reason : Stop}
      {result : Except Stop (List ImageRef)}
      (read_eq : on.read path = .ok (saved ++ DebugProfile.directive))
      (linked : Linked on calls stop)
      (phase : BuildPhase [] plan.builds (calls.map Exchange.answer) result)
      (cause : result = .error reason ∨ ∃ fault, stop.write path saved = .error fault ∧
        reason = .failed (.configFile path fault)) :
      DebugCalls path plan saved calls (.error reason)
  | pushes {on middle off stop : FileSystem} {builds pushes : List Exchange}
      {images : List ImageRef} {result : Except Stop (List ImageRef)} {report : Except Stop Report}
      (read_eq : on.read path = .ok (saved ++ DebugProfile.directive))
      (linked : Linked on builds middle)
      (phase : BuildPhase [] plan.builds (builds.map Exchange.answer) (.ok images))
      (restored : middle.write path saved = .ok off)
      (pushLinked : Linked off pushes stop)
      (pushPhase : PushPhase [] plan.pushes (pushes.map Exchange.answer) result) :
      DebugCalls path plan saved (builds ++ pushes) report

/-- A debug run makes no call, or makes its calls with the directive added. -/
theorem Executed.debugCalls {path : Path} {plan : Plan} {saved : Bytes}
    {start stop : FileSystem} {moments : List Moment} {result : Except Stop Report}
    (h : Executed path plan start moments result stop) (hmode : plan.mode = .debug)
    (hread : start.read path = .ok saved) :
    exchangesIn moments = [] ∨ DebugCalls path plan saved (exchangesIn moments) result := by
  have hsaved : ∀ {saved' on}, Enabled path saved' start on →
      saved' = saved ∧ on.read path = .ok (saved ++ DebugProfile.directive) := by
    intro saved' on henabled
    have hsame : saved' = saved := by simpa [hread] using henabled.read_eq.symm
    obtain ⟨l, hwritten⟩ := henabled.written
    exact ⟨hsame, hsame ▸ hwritten.read_eq⟩
  cases h with
  | stopped built =>
    cases built with
    | release mode => simp [hmode] at mode
    | notEnabled mode failure => exact Or.inl rfl
    | discarded mode enabled linked phase discarded =>
      obtain ⟨-, hon⟩ := hsaved enabled
      right
      simpa [Attempt.exchangesIn_eq discarded] using .builds hon linked phase (Or.inl rfl)
    | notRestored mode enabled linked phase failure =>
      obtain ⟨rfl, hon⟩ := hsaved enabled
      right
      simpa using .builds hon linked phase (Or.inr ⟨_, failure, rfl⟩)
  | pushed built pushLinked pushPhase =>
    cases built with
    | release mode => simp [hmode] at mode
    | restored mode enabled linked phase restored =>
      obtain ⟨rfl, hon⟩ := hsaved enabled
      right
      simpa using .pushes hon linked phase restored pushLinked pushPhase

namespace DebugCalls

variable {path : Path} {plan : Plan} {saved : Bytes} {calls past rest : List Exchange}
  {exchange : Exchange} {result : Except Stop Report}

/-- A build finds the directive added once, if no build before it has changed the file. -/
theorem read_at_build (h : DebugCalls path plan saved calls result)
    (hsplit : calls = past ++ exchange :: rest) {step : BuildStep}
    (hcall : exchange.call = .build step)
    (hkeep : ∀ e ∈ past, e.after.read path = e.before.read path) :
    exchange.before.read path = .ok (saved ++ DebugProfile.directive) := by
  cases h with
  | builds read_eq linked phase cause =>
    rw [hsplit] at linked
    exact (linked.eq_before (·.read path) hkeep).trans read_eq
  | pushes read_eq linked phase restored pushLinked pushPhase =>
    rcases split_of_append hsplit with ⟨rest', hbuilds, -⟩ | ⟨past', -, hpushes⟩
    · rw [hbuilds] at linked
      exact (linked.eq_before (·.read path) hkeep).trans read_eq
    · have hmem : exchange ∈ _ := hpushes ▸ List.mem_append_right past' List.mem_cons_self
      obtain ⟨image, himage⟩ := pushPhase.call_eq hmem
      simp [hcall] at himage

/-- A push finds the file as it was before the run, whatever the builds have made of it. -/
theorem read_at_push (h : DebugCalls path plan saved calls result)
    (hsplit : calls = past ++ exchange :: rest) {image : ImageRef}
    (hcall : exchange.call = .push image)
    (hkeep : ∀ e ∈ past, ∀ image, e.call = .push image →
      e.after.read path = e.before.read path) :
    exchange.before.read path = .ok saved := by
  have hbuild : ∀ {step}, exchange.call ≠ .build step := by simp [hcall]
  cases h with
  | builds read_eq linked phase cause =>
    have hmem : exchange ∈ calls := by simp [hsplit]
    obtain ⟨step, hstep⟩ := phase.call_eq hmem
    exact absurd hstep hbuild
  | pushes read_eq linked phase restored pushLinked pushPhase =>
    rcases split_of_append hsplit with ⟨rest', hbuilds, -⟩ | ⟨past', hpast, hpushes⟩
    · have hmem : exchange ∈ _ := hbuilds ▸ List.mem_append_right past List.mem_cons_self
      obtain ⟨step, hstep⟩ := phase.call_eq hmem
      exact absurd hstep hbuild
    · obtain ⟨l, hwritten⟩ := written_of_write restored
      have hpushed : ∀ e ∈ past', e.after.read path = e.before.read path := by
        intro e he
        obtain ⟨image', himage⟩ := pushPhase.call_eq (hpushes ▸ List.mem_append_left _ he)
        exact hkeep e (by simp [hpast, he]) image' himage
      rw [hpushes] at pushLinked
      exact (pushLinked.eq_before (·.read path) hpushed).trans hwritten.read_eq

/-- A phase of builds that has as many successes as builds is over. -/
theorem eq_of_succeed {builds : List BuildStep} {calls past rest : List Exchange} {last : Exchange}
    {images : Except Stop (List ImageRef)}
    (hphase : BuildPhase [] builds (calls.map Exchange.answer) images)
    (hsplit : calls = past ++ last :: rest)
    (hall : (past ++ [last]).map Exchange.answer = succeed (builds.map .build)) :
    calls = past ++ [last] ∧ ∃ built, images = .ok built := by
  have hcalls : calls.map Exchange.answer =
      succeed (builds.map .build) ++ rest.map Exchange.answer := by
    rw [← hall, hsplit]
    simp
  generalize hanswers : calls.map Exchange.answer = answers at hphase hcalls
  cases hphase with
  | finished =>
    have hlength := congrArg List.length hcalls
    have hrest : rest = [] := by
      simpa [succeed] using hlength
    exact ⟨by rw [hsplit, hrest], _, rfl⟩
  | @stopped done rest' step ending stop unsuccessful =>
    have hending := congrArg (·[done.length]?) hcalls
    simp only [succeed] at hending
    have hsucceeded : ending = .succeeded := by simpa using hending
    subst hsucceeded
    simp [stopOf] at unsuccessful

/-- A file that cannot be given back ends the run after its last build. -/
theorem result_of_not_restored (h : DebugCalls path plan saved calls result)
    (hsplit : calls = past ++ exchange :: rest)
    (hall : (past ++ [exchange]).map Exchange.answer = succeed (plan.builds.map .build))
    {fault : FileFault} (hfault : exchange.after.write path saved = .error fault) :
    result = .error (.failed (.configFile path fault)) ∧ rest = [] := by
  cases h with
  | builds read_eq linked phase cause =>
    obtain ⟨hcalls, built, hbuilt⟩ := eq_of_succeed phase hsplit hall
    rw [hcalls] at linked
    have hrest : rest = [] := by simpa [hcalls] using hsplit.symm
    rcases cause with hstop | ⟨fault', hwrite, rfl⟩
    · simp [hbuilt] at hstop
    · rw [linked.stop_eq, hfault, Except.error.injEq] at hwrite
      exact ⟨by rw [hwrite], hrest⟩
  | @pushes on middle off stop builds pushes images result report read_eq linked phase restored
      pushLinked pushPhase =>
    rcases split_of_append hsplit with ⟨rest', hbuilds, -⟩ | ⟨past', -, hpushes⟩
    · obtain ⟨hlast, -⟩ := eq_of_succeed phase hbuilds hall
      rw [hlast] at linked
      rw [linked.stop_eq, hfault] at restored
      simp at restored
    · have hmem : exchange ∈ _ := hpushes ▸ List.mem_append_right past' List.mem_cons_self
      obtain ⟨image, himage⟩ := pushPhase.call_eq hmem
      have hmem : exchange.answer ∈ succeed (plan.builds.map .build) := by
        rw [← hall]
        simp
      simp [succeed, Exchange.answer, himage] at hmem

end DebugCalls

/-- What the configuration file holds at the calls of a debug run, where `saved` is what it held
before the run. At a build the directive has been added once, as long as no build before has changed
the file. At a push it is what it was before the run, whatever the builds did, as long as no push
before has changed it. When it cannot be given back after the last build, the run ends with that and
nothing is pushed. -/
structure ReadAtCalls (path : Path) (plan : Plan) (saved : Bytes) (exchanges : List Exchange)
    (result : RunResult) : Prop where
  at_build : ∀ past exchange rest step, exchanges = past ++ exchange :: rest →
    exchange.call = .build step → (∀ e ∈ past, e.after.read path = e.before.read path) →
    exchange.before.read path = .ok (saved ++ DebugProfile.directive)
  at_push : ∀ past exchange rest image, exchanges = past ++ exchange :: rest →
    exchange.call = .push image →
    (∀ e ∈ past, ∀ image, e.call = .push image → e.after.read path = e.before.read path) →
    exchange.before.read path = .ok saved
  not_restored : ∀ past last rest fault, exchanges = past ++ last :: rest →
    (past ++ [last]).map Exchange.answer = succeed (plan.builds.map .build) →
    last.after.write path saved = .error fault →
    result = .failed (.configFile path fault) ∧ rest = []

/-- The configuration file of a debug run, when the lock is not on the way to it. -/
theorem read_at_calls {σ : Type} (palette : Palette) (engine : Engine σ) (owner : LockOwner)
    (project : Project) (plan : Plan) (state : σ) (fs : FileSystem) {saved : Bytes}
    (hmode : plan.mode = .debug) (hread : fs.read project.configPath = .ok saved)
    (hapart : RunLock.Apart project.root project.configPath (RunLock.entered project.root fs)) :
    ReadAtCalls project.configPath plan saved
      (run palette engine owner project plan state { disk := fs }).site.exchanges
      (run palette engine owner project plan state { disk := fs }).result := by
  generalize houtcome : run palette engine owner project plan state { disk := fs } = outcome
  have hcourse : outcome.site.exchanges = [] ∨ ∃ result, outcome.result = resultOf result ∧
      DebugCalls project.configPath plan saved outcome.site.exchanges result := by
    subst houtcome
    rcases hacquire : RunLock.acquire owner project.root { disk := fs } with ⟨error | lock, locked⟩
    · left
      exact exchanges_of_refused palette engine project plan owner state hacquire
    · obtain ⟨hroot, htouched, -, disks, hdisks, -⟩ := RunLock.acquire_ok hacquire
      obtain ⟨steps, moments, hexecuted, hreleased, hresult, hhistory⟩ :=
        exists_run palette engine project plan owner hacquire (by rw [hroot])
      have hexchanges := exchanges_run ⟨disks, hdisks⟩ hreleased hhistory
      rcases hexecuted.debugCalls hmode (htouched.read_eq hapart hread) with hnone | hcalls
      · exact Or.inl (hexchanges.trans hnone)
      · exact Or.inr ⟨_, hresult, hexchanges ▸ hcalls⟩
  rcases hcourse with hnone | ⟨result, hresult, hcalls⟩
  · rw [hnone]
    exact ⟨by simp, by simp, by simp⟩
  · refine ⟨?_, ?_, ?_⟩
    · intro past exchange rest step hsplit hcall hkeep
      exact hcalls.read_at_build hsplit hcall hkeep
    · intro past exchange rest image hsplit hcall hkeep
      exact hcalls.read_at_push hsplit hcall hkeep
    · intro past last rest fault hsplit hall hfault
      obtain ⟨rfl, hrest⟩ := hcalls.result_of_not_restored hsplit hall hfault
      exact ⟨hresult, hrest⟩

end Publication

namespace Sample

def act (operation : FileSystem → Except FileFault FileSystem) (disk : FileSystem) : FileSystem :=
  (operation disk).toOption.getD disk

def configPath : Path := (project "Cargo.toml").configPath

/-- The first build empties the configuration file, the second takes it away, and the third puts a
directory in its place. -/
def directoryInPlace : Script :=
  [(act (·.write configPath []), .succeeded), (act (·.removeFile configPath), .succeeded),
    (act (·.makeDirectory configPath), .succeeded)]

def unreadableLock : Bytes × Node :=
  (Bytes.ofString ".shipwright", .directory ⟨0o755, .epoch⟩
    [(Bytes.ofString "publish.lock", .file 1 ⟨0o644, .epoch⟩ (Bytes.ofString "secret"))])

def record : LockRecord := ⟨owner, (disk []).clock⟩

end Sample

namespace Publication

/-- The builds leave a directory where the configuration file was: nothing is pushed. -/
theorem read_at_calls_directory_in_place :
    let project := Sample.project "Cargo.toml"
    let outcome := Sample.run project .debug [] Sample.directoryInPlace
    (Sample.plan .debug).mode = .debug ∧
      (Sample.disk []).read project.configPath = .ok Sample.content ∧
      RunLock.Apart project.root project.configPath
        (RunLock.entered project.root (Sample.disk [])) ∧
      ReadAtCalls project.configPath (Sample.plan .debug) Sample.content outcome.site.exchanges
        outcome.result ∧
      outcome.result = .failed (.configFile project.configPath (.system .isADirectory)) ∧
      outcome.site.exchanges.length = 3 := by
  intro project outcome
  exact ⟨rfl, Sample.read_eq, Sample.apart,
    read_at_calls .plain Sample.engine Sample.owner project (Sample.plan .debug) _
      (Sample.disk []) rfl Sample.read_eq Sample.apart,
    by decide +kernel, by decide +kernel⟩

/-- A configuration file that is the stale lock of an earlier run does not hold what it held when
the base image is built. -/
theorem not_read_at_calls_of_lock :
    let project := Sample.project ".shipwright/publish.lock"
    let outcome := Sample.run project .debug [Sample.unreadableLock] []
    (Sample.disk [Sample.unreadableLock]).read project.configPath =
        .ok (Bytes.ofString "secret") ∧
      ¬ ReadAtCalls project.configPath (Sample.plan .debug) (Bytes.ofString "secret")
        outcome.site.exchanges outcome.result := by
  intro project outcome
  refine ⟨eq_ok_of_toOption (by decide +kernel), fun h => ?_⟩
  have hfirst : (outcome.site.exchanges.head?.map fun e =>
      (e.call, (e.before.read project.configPath).toOption)) =
        some (.build (Plan.baseBuild Sample.catalog.base {}),
          some (Sample.record.fileText ++ DebugProfile.directive)) := by
    decide +kernel
  obtain ⟨e, hhead, heq⟩ := Option.map_eq_some_iff.mp hfirst
  obtain ⟨rest, hsplit⟩ : ∃ rest, outcome.site.exchanges = e :: rest :=
    List.head?_eq_some_iff.mp hhead
  simp only [Prod.mk.injEq] at heq
  obtain ⟨hcall, hread⟩ := heq
  rw [h.at_build [] e rest _ hsplit hcall (by simp)] at hread
  exact absurd hread (by decide +kernel)

end Publication

end ReleasePublisher
