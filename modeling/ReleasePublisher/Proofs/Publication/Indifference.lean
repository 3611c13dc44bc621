import ReleasePublisher.Proofs.Lock.Agreement
import ReleasePublisher.Proofs.Publication.Answers
import ReleasePublisher.Proofs.Publication.Calls
import ReleasePublisher.Proofs.Publication.Steps

/-!
A release run does not care for the configuration file. Whatever is in its place, the run goes the
same way, and leaves it there.
-/
namespace ReleasePublisher

namespace FileSystem

def LeadsTo (fs : FileSystem) (path : Path) (l : Location) : Prop :=
  fs.place .keep path = .ok (.taken l) ∨ fs.place .keep path = .ok (.free l)

/-- Two file systems differ only in what is at the end of a path, which may be nothing in one of
them. -/
structure DifferAt (path : Path) (c : Location) (fs fs' : FileSystem) : Prop extends
    DifferOnlyAt c fs fs' where
  leads : fs.LeadsTo path c ∨ fs'.LeadsTo path c

end FileSystem

namespace Publication

open FileSystem

variable {σ α : Type} {c : Location}

theorem zip_subset_zip_append {β γ : Type} (first more : List β) (first' more' : List γ) :
    first.zip first' ⊆ (first ++ more).zip (first' ++ more') := by
  induction first generalizing first' with
  | nil => simp
  | cons b first ih =>
    cases first' with
    | nil => simp
    | cons b' first' => exact List.cons_subset_cons _ (ih first')

/-- Calls at which an engine answers alike, in so far as it finds alike files. -/
def AnswersAlike (c : Location) (engine : Engine σ) (start : σ) (calls calls' : List Exchange) :
    Prop :=
  ∀ o o', (o, o') ∈ (occasions engine start calls).zip (occasions engine start calls') →
    o.Alike (SameOff c) o' → (o.reply engine).Alike (SameOff c) (o'.reply engine)

namespace AnswersAlike

variable {engine : Engine σ} {start middle middle' stop : σ} {first first' rest rest' : List Exchange}

theorem front (h : AnswersAlike c engine start (first ++ rest) (first' ++ rest'))
    (hfirst : Answered engine start first middle) (hfirst' : Answered engine start first' middle') :
    AnswersAlike c engine start first first' := by
  intro o o' ho
  apply h
  rw [hfirst.occasions_append, hfirst'.occasions_append]
  exact zip_subset_zip_append _ _ _ _ ho

theorem back (h : AnswersAlike c engine start (first ++ rest) (first' ++ rest'))
    (hfirst : Answered engine start first middle) (hfirst' : Answered engine start first' middle)
    (hlength : first.length = first'.length) : AnswersAlike c engine middle rest rest' := by
  intro o o' ho
  apply h
  rw [hfirst.occasions_append, hfirst'.occasions_append, List.zip_append]
  · exact List.mem_append_right _ ho
  · rw [length_occasions, length_occasions, hlength]

end AnswersAlike

structure Outcome.Alike (c : Location) (first second : Outcome σ) : Prop where
  result_eq : second.result = first.result
  state_eq : second.state = first.state
  site : Site.Alike c first.site second.site

structure Execution.Alike (c : Location) (first second : Execution σ) : Prop where
  result_eq : second.result = first.result
  state_eq : second.state = first.state
  site : Site.Alike c first.site second.site

structure Run.Alike (c : Location) (first second : Run σ) : Prop where
  result_eq : second.result = first.result
  state_eq : second.state = first.state
  site : Site.Alike c first.site second.site

/-- Phases that are done alike leave sites that are alike. -/
theorem Doing.Alike.outcome {doing doing' : Doing σ} (h : doing.Alike (SameOff c) doing')
    {site site' : Site} (hsite : Site.Alike c site site') :
    (doing.outcome site).Alike c (doing'.outcome site') := by
  refine ⟨h.result_eq, h.state_eq, h.disk, ?_, ?_⟩
  · simp only [Doing.outcome, hsite.shown_eq, h.shown_eq]
  · show List.Forall₂ _ (exchangesIn (site.history ++ _)) (exchangesIn (site'.history ++ _))
    rw [exchangesIn_append, exchangesIn_append, exchangesIn_called, exchangesIn_called]
    exact List.rel_append hsite.exchanges h.exchanges

variable (palette : Palette) {engine : Engine σ}

theorem finish_alike (plan : Plan) {outcome outcome' : Outcome σ} (h : outcome.Alike c outcome')
    {calls calls' : List Exchange}
    (hcalls : (finish palette engine plan outcome).site.exchanges =
      outcome.site.exchanges ++ calls)
    (hcalls' : (finish palette engine plan outcome').site.exchanges =
      outcome'.site.exchanges ++ calls')
    (hengine : AnswersAlike c engine outcome.state calls calls') :
    (finish palette engine plan outcome).Alike c (finish palette engine plan outcome') := by
  obtain ⟨result, state, site⟩ := outcome
  obtain ⟨result', state', site'⟩ := outcome'
  obtain ⟨rfl, rfl, hsite⟩ := h
  cases result' with
  | error stop => exact ⟨rfl, rfl, hsite⟩
  | ok built =>
    simp only [finish, runPushes_eq] at hcalls hcalls' ⊢
    rw [(close_eq ..).1, exchanges_outcome, List.append_cancel_left_eq] at hcalls hcalls'
    subst hcalls hcalls'
    have hpushed := ((pushManner palette).perform_alike engine engine [] plan.pushes state'
      hsite.disk hengine).outcome hsite
    generalize (Manner.perform _ _ _ _ _ site.disk).outcome site = pushes at hpushed ⊢
    generalize (Manner.perform _ _ _ _ _ site'.disk).outcome site' = pushes' at hpushed ⊢
    obtain ⟨result, state, pushed⟩ := pushes
    obtain ⟨result', state', pushed'⟩ := pushes'
    obtain ⟨rfl, rfl, hpushed⟩ := hpushed
    cases result' with
    | error stop => exact ⟨rfl, rfl, hpushed⟩
    | ok images => exact ⟨rfl, rfl, hpushed.log ..⟩

/-- The builds go alike, and what follows them. -/
theorem steps_alike (plan : Plan) {state : σ} {site site' : Site} (h : Site.Alike c site site')
    (hnone : site.exchanges = []) (hnone' : site'.exchanges = [])
    (hengine : AnswersAlike c engine state
      (finish palette engine plan (((buildManner palette).perform engine [] plan.builds state
        site.disk).outcome site)).site.exchanges
      (finish palette engine plan (((buildManner palette).perform engine [] plan.builds state
        site'.disk).outcome site')).site.exchanges) :
    (finish palette engine plan (((buildManner palette).perform engine [] plan.builds state
        site.disk).outcome site)).Alike c
      (finish palette engine plan (((buildManner palette).perform engine [] plan.builds state
        site'.disk).outcome site')) := by
  have hanswered := (buildManner palette).answered_perform engine [] plan.builds state site.disk
  have hanswered' := (buildManner palette).answered_perform engine [] plan.builds state site'.disk
  obtain ⟨pushes, hpushes, -⟩ := exists_through_finish palette engine plan
    (((buildManner palette).perform engine [] plan.builds state site.disk).outcome site)
  obtain ⟨pushes', hpushes', -⟩ := exists_through_finish palette engine plan
    (((buildManner palette).perform engine [] plan.builds state site'.disk).outcome site')
  have hengine' := hengine
  rw [hpushes, hpushes', exchanges_outcome, exchanges_outcome, hnone, hnone', List.nil_append,
    List.nil_append] at hengine'
  have hbuilt := (buildManner palette).perform_alike engine engine [] plan.builds state h.disk
    (hengine'.front hanswered hanswered')
  rw [hbuilt.state_eq] at hanswered'
  exact finish_alike palette plan (hbuilt.outcome h) hpushes hpushes'
    (hengine'.back hanswered hanswered' hbuilt.exchanges.length_eq)

/-- In release mode nothing but the calls matters to the steps. -/
theorem execute_alike {plan : Plan} (hmode : plan.mode = .release) (project : Project) {state : σ}
    {site site' : Site} (h : Site.Alike c site site') (hnone : site.exchanges = [])
    (hnone' : site'.exchanges = [])
    (hengine : AnswersAlike c engine state
      (execute palette engine project plan state site).site.exchanges
      (execute palette engine project plan state site').site.exchanges) :
    (execute palette engine project plan state site).Alike c
      (execute palette engine project plan state site') := by
  have hbuilds : ∀ site : Site, runAllBuilds palette engine project plan state site =
      ((buildManner palette).perform engine [] plan.builds state site.disk).outcome site := by
    intro site
    simp only [runAllBuilds, hmode]
    exact runBuilds_eq ..
  rw [execute_eq, execute_eq, hbuilds, hbuilds] at hengine ⊢
  exact steps_alike palette plan (h.log .info (openingText plan)) hnone hnone' hengine

theorem releaseLock_alike (lock : RunLock) {site site' : Site} (h : Site.Alike c site site')
    (hbeside : RunLock.Beside c lock.root site.disk) :
    Site.Alike c (releaseLock lock site) (releaseLock lock site') := by
  have hreleased := RunLock.release_alike lock h hbeside
  rw [releaseLock, releaseLock]
  generalize lock.release site = released at hreleased ⊢
  generalize lock.release site' = released' at hreleased ⊢
  obtain ⟨fault, after⟩ := released
  obtain ⟨fault', after'⟩ := released'
  obtain ⟨rfl, hafter⟩ := hreleased
  cases fault' with
  | none => exact hafter
  | some error => exact hafter.log ..

theorem settle_alike (lock : RunLock) {execution execution' : Execution σ}
    (h : execution.Alike c execution')
    (hbeside : RunLock.Beside c lock.root execution.site.disk) :
    (settle lock execution).Alike c (settle lock execution') := by
  obtain ⟨result, state, site⟩ := execution
  obtain ⟨result', state', site'⟩ := execution'
  obtain ⟨rfl, rfl, hsite⟩ := h
  cases result' with
  | ok report => exact ⟨rfl, rfl, releaseLock_alike lock hsite hbeside⟩
  | error stop =>
    cases stop with
    | failed error => exact ⟨rfl, rfl, releaseLock_alike lock hsite hbeside⟩
    | interrupted => exact ⟨rfl, rfl, releaseLock_alike lock (hsite.log ..) hbeside⟩
    | panicked => exact ⟨rfl, rfl, RunLock.discard_alike lock hsite hbeside⟩
    | abandoned => exact ⟨rfl, rfl, RunLock.discard_alike lock hsite hbeside⟩

/-- What a run does itself: nothing between its calls, and around them it makes the lock, with the
directories that are missing for it, and takes the lock away. What is at a location aside stays. -/
structure LocksOnly (c : Location) (root : Path) (fs : FileSystem) (run : Run σ)
    (start stop : FileSystem) : Prop where
  linked : Linked start run.site.exchanges stop
  before : ∀ x, start.face? x ≠ fs.face? x →
    NewFor (RunLock.directoryIn root).ancestors fs (RunLock.entered root fs) x ∨
      RunLock.LockPlace root (RunLock.entered root fs) x
  after : ∀ x, run.site.disk.face? x ≠ stop.face? x →
    stop.place .keep (RunLock.pathIn root) = .ok (.taken x) ∨
      stop.place .keep (RunLock.directoryIn root) = .ok (.taken x)
  aside : ∀ x, c <+: x → start.face? x = fs.face? x ∧ run.site.disk.face? x = stop.face? x

variable (owner : LockOwner) (project : Project) {plan : Plan} (state : σ) {fs fs' : FileSystem}

/-- A release run does nothing to files but lock and unlock. -/
theorem locksOnly_run (hmode : plan.mode = .release)
    (hbeside : RunLock.Beside c project.root (RunLock.entered project.root fs))
    (hover : ∀ lock locked,
      RunLock.acquire owner project.root { disk := fs } = (.ok lock, locked) →
        RunLock.Beside c project.root
          (execute palette engine project plan state locked).site.disk) :
    ∃ start stop, LocksOnly c project.root fs
      (run palette engine owner project plan state { disk := fs }) start stop := by
  have hbefore : ∀ x,
      (RunLock.acquire owner project.root { disk := fs }).2.disk.face? x ≠ fs.face? x →
        NewFor (RunLock.directoryIn project.root).ancestors fs
            (RunLock.entered project.root fs) x ∨
          RunLock.LockPlace project.root (RunLock.entered project.root fs) x :=
    fun _ hx => RunLock.changed_by_acquire hx
  rcases hacquire : RunLock.acquire owner project.root { disk := fs } with ⟨error | lock, locked⟩
  · have hrun := run_of_refused palette engine project plan owner state hacquire
    have hnone := exchanges_of_refused palette engine project plan owner state hacquire
    rw [hacquire] at hbefore
    refine ⟨locked.disk, locked.disk, ?_, hbefore, ?_, ?_⟩
    · rw [hnone]
      rfl
    · rw [hrun]
      exact fun x hx => absurd rfl hx
    · intro x hx
      have hsame := hbeside.acquired owner hx
      rw [hacquire] at hsame
      exact ⟨hsame, by rw [hrun]⟩
  · obtain ⟨hroot, -, -, disks, hdisks, -⟩ := RunLock.acquire_ok hacquire
    obtain ⟨steps, moments, hexecuted, hreleased, -, hhistory⟩ :=
      exists_run palette engine project plan owner hacquire (by rw [hroot])
    obtain ⟨calls, rfl, hlinked⟩ := hexecuted.linked hmode
    have hcalls := exchanges_run ⟨disks, hdisks⟩ hreleased hhistory
    rw [exchangesIn_called] at hcalls
    rw [hacquire] at hbefore
    refine ⟨locked.disk, (execute palette engine project plan state locked).site.disk, ?_, hbefore,
      fun x hx => RunLock.changed_by_release hreleased hx, ?_⟩
    · rw [hcalls]
      exact hlinked
    · intro x hx
      have hsame := hbeside.acquired owner hx
      rw [hacquire] at hsame
      exact ⟨hsame, (hover lock locked hacquire).released hreleased hx⟩

/-- Release runs on two file systems go alike, and the lock is as much aside at the end. -/
theorem run_alike (hmode : plan.mode = .release) (hdisk : DifferOnlyAt c fs fs')
    (hbeside : RunLock.Beside c project.root (RunLock.entered project.root fs))
    (hover : ∀ lock locked,
      RunLock.acquire owner project.root { disk := fs } = (.ok lock, locked) →
        RunLock.Beside c project.root
          (execute palette engine project plan state locked).site.disk)
    (hengine : AnswersAlike c engine state
      (run palette engine owner project plan state { disk := fs }).site.exchanges
      (run palette engine owner project plan state { disk := fs' }).site.exchanges) :
    (run palette engine owner project plan state { disk := fs }).Alike c
        (run palette engine owner project plan state { disk := fs' }) ∧
      ∀ lock locked,
        RunLock.acquire owner project.root { disk := fs' } = (.ok lock, locked) →
          RunLock.Beside c project.root
            (execute palette engine project plan state locked).site.disk := by
  obtain ⟨hresult, hsite⟩ := RunLock.acquire_alike hdisk hbeside owner
  rcases hacquire : RunLock.acquire owner project.root { disk := fs } with ⟨error | lock, locked⟩
  · rcases hacquire' : RunLock.acquire owner project.root { disk := fs' } with ⟨result, locked'⟩
    rw [hacquire, hacquire'] at hresult hsite
    obtain rfl : result = .error error := hresult
    rw [run_of_refused palette engine project plan owner state hacquire,
      run_of_refused palette engine project plan owner state hacquire']
    exact ⟨⟨rfl, rfl, hsite⟩, by simp⟩
  · rcases hacquire' : RunLock.acquire owner project.root { disk := fs' } with ⟨result, locked'⟩
    rw [hacquire, hacquire'] at hresult hsite
    obtain rfl : result = .ok lock := hresult
    have hover := hover lock locked hacquire
    have hroot : lock.root = project.root := by rw [(RunLock.acquire_ok hacquire).1]
    rw [run_of_acquired palette engine owner project plan state hacquire,
      run_of_acquired palette engine owner project plan state hacquire', exchanges_settle,
      exchanges_settle] at hengine
    have hexecuted := execute_alike palette hmode project hsite
      (exchanges_of_acquired hacquire)
      (exchanges_of_acquired hacquire') hengine
    rw [run_of_acquired palette engine owner project plan state hacquire,
      run_of_acquired palette engine owner project plan state hacquire']
    refine ⟨settle_alike lock hexecuted (hroot ▸ hover), ?_⟩
    rintro lock' locked'' ⟨rfl, rfl⟩
    exact hover.sameOff hexecuted.site.disk

/-- In release mode it does not matter what the path of the configuration file leads to, as long as
the paths of the lock keep off that: the run makes the same calls, comes to the same result and shows
the same. It does nothing itself but to make the lock and take it away, and leaves what is in the
place of the configuration file. -/
theorem run_indifferent (hmode : plan.mode = .release)
    (hdiffer : DifferAt project.configPath c fs fs')
    (hbeside : RunLock.Beside c project.root (RunLock.entered project.root fs))
    (hover : ∀ lock locked,
      RunLock.acquire owner project.root { disk := fs } = (.ok lock, locked) →
        RunLock.Beside c project.root
          (execute palette engine project plan state locked).site.disk)
    (hengine : AnswersAlike c engine state
      (run palette engine owner project plan state { disk := fs }).site.exchanges
      (run palette engine owner project plan state { disk := fs' }).site.exchanges) :
    (run palette engine owner project plan state { disk := fs }).Alike c
        (run palette engine owner project plan state { disk := fs' }) ∧
      (∃ start stop, LocksOnly c project.root fs
        (run palette engine owner project plan state { disk := fs }) start stop) ∧
      ∃ start stop, LocksOnly c project.root fs'
        (run palette engine owner project plan state { disk := fs' }) start stop := by
  have hdisk : DifferOnlyAt c fs fs' := hdiffer.toDifferOnlyAt
  have hbeside' := hbeside.sameOff (RunLock.entered_alike hdisk hbeside).1.toSameOff
  obtain ⟨halike, hover'⟩ := run_alike palette owner project state hmode hdisk hbeside hover hengine
  exact ⟨halike, locksOnly_run palette owner project state hmode hbeside hover,
    locksOnly_run palette owner project state hmode hbeside' hover'⟩

end Publication

namespace Sample

open FileSystem Publication

/-- Makes what it is asked to make, counting its calls, and pushes nothing. Time passes meanwhile. -/
def builder : Engine Nat
  | .build _, calls, disk =>
    ⟨.succeeded, calls + 1, { disk with clock := halfPast }, .line "built"⟩
  | .push _, calls, disk => ⟨.failed "denied", calls + 1, { disk with clock := halfPast }, .empty⟩

theorem builder_alike {c : Location} (call : EngineCall) (calls : Nat) {fs fs' : FileSystem}
    (h : SameOff c fs fs') :
    (builder call calls fs).Alike (SameOff c) (builder call calls fs') := by
  cases call <;> exact ⟨rfl, rfl, rfl, h.face?_eq, h.here_eq, rfl, h.serial_eq⟩

def configLocation : Location := [Bytes.ofString "work", Bytes.ofString "Cargo.toml"]

def releaseRun (fs : FileSystem) : Run Nat :=
  Publication.run .plain builder owner (project "Cargo.toml") (plan .release) 0 { disk := fs }

end Sample

namespace Publication

open FileSystem

/-- A link that leads nowhere in the place of the configuration file. The three builds of the run
succeed, and its first push does not. -/
theorem run_indifferent_dangling_link :
    let project := Sample.project "Cargo.toml"
    let dangling := (Sample.disk []).replace Sample.configLocation (.link (Bytes.ofString "nowhere"))
    let outcome := Sample.releaseRun (Sample.disk [])
    let outcome' := Sample.releaseRun dangling
    (Sample.plan .release).mode = .release ∧
      DifferAt project.configPath Sample.configLocation (Sample.disk []) dangling ∧
      RunLock.Beside Sample.configLocation project.root
        (RunLock.entered project.root (Sample.disk [])) ∧
      outcome.Alike Sample.configLocation outcome' ∧
      (∃ start stop, LocksOnly Sample.configLocation project.root (Sample.disk []) outcome
        start stop) ∧
      (∃ start stop, LocksOnly Sample.configLocation project.root dangling outcome' start stop) ∧
      outcome.site.exchanges.length = 4 ∧
      outcome'.site.disk.face? Sample.configLocation = some (.link (Bytes.ofString "nowhere")) := by
  intro project dangling outcome outcome'
  have hdiffer : DifferAt project.configPath Sample.configLocation (Sample.disk []) dangling :=
    ⟨differOnlyAt_replace .., Or.inl (Or.inl (by decide +kernel))⟩
  have hbeside : RunLock.Beside Sample.configLocation project.root
      (RunLock.entered project.root (Sample.disk [])) := by
    decide +kernel
  have hover : ∀ lock locked,
      RunLock.acquire Sample.owner project.root { disk := Sample.disk [] } = (.ok lock, locked) →
        RunLock.Beside Sample.configLocation project.root
          (execute .plain Sample.builder project (Sample.plan .release) 0 locked).site.disk := by
    rintro lock locked hacquire
    rw [Sample.acquire_eq] at hacquire
    cases hacquire
    decide +kernel
  have hengine : AnswersAlike Sample.configLocation Sample.builder 0 outcome.site.exchanges
      outcome'.site.exchanges := by
    rintro o o' - ⟨hcall, hstate, hdisk⟩
    rw [Occasion.reply, Occasion.reply, hcall, hstate]
    exact Sample.builder_alike o.call o.state hdisk
  obtain ⟨halike, hlocks, hlocks'⟩ :=
    run_indifferent .plain Sample.owner project 0 rfl hdiffer hbeside hover hengine
  exact ⟨rfl, hdiffer, hbeside, halike, hlocks, hlocks', by decide +kernel, by decide +kernel⟩

/-- It does matter when the directory of the lock is a link that leads on from what is in the place
of the configuration file. And a root that is missing is made for the lock and stays. -/
theorem not_indifferent_of_detour :
    let project := Sample.project "Cargo.toml"
    let detour := Sample.disk
      [(Bytes.ofString ".shipwright", .link (Bytes.ofString "Cargo.toml/../locks")),
        (Bytes.ofString "locks", .directory ⟨0o755, .epoch⟩ [])]
    let opened := detour.replace Sample.configLocation (.directory ⟨0o755, .epoch⟩ [])
    let empty := { Sample.disk [] with root := .directory ⟨0o755, .epoch⟩ [] }
    let work : Location := [Bytes.ofString "work"]
    (DifferAt project.configPath Sample.configLocation detour opened ∧
        (∀ d, detour.place .keep (RunLock.directoryIn project.root) = .ok (.taken d) →
          ¬ d <+: Sample.configLocation ∧ ¬ Sample.configLocation <+: d) ∧
        (∀ call calls fs fs', SameOff Sample.configLocation fs fs' →
          (Sample.builder call calls fs).Alike (SameOff Sample.configLocation)
            (Sample.builder call calls fs')) ∧
        (Sample.releaseRun opened).result ≠ (Sample.releaseRun detour).result) ∧
      empty.face? work = none ∧
        (∀ e ∈ (Sample.releaseRun empty).site.exchanges, e.after.face? work = e.before.face? work) ∧
        (Sample.releaseRun empty).site.disk.face? work = some (.directory newDirectoryMode) := by
  intro project detour opened empty work
  have hdiffer : DifferAt project.configPath Sample.configLocation detour opened :=
    ⟨differOnlyAt_replace .., Or.inl (Or.inl (by decide +kernel))⟩
  have haside : ∀ d, detour.place .keep (RunLock.directoryIn project.root) = .ok (.taken d) →
      ¬ d <+: Sample.configLocation ∧ ¬ Sample.configLocation <+: d := by
    decide +kernel
  have hresults : (Sample.releaseRun opened).result ≠ (Sample.releaseRun detour).result := by
    decide +kernel
  refine ⟨⟨hdiffer, haside, fun call calls _ _ h => Sample.builder_alike call calls h, hresults⟩,
    ?_, ?_, ?_⟩
  · decide +kernel
  · decide +kernel
  · decide +kernel

end Publication

end ReleasePublisher
