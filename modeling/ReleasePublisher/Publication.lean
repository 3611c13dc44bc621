import ReleasePublisher.DebugProfile
import ReleasePublisher.Lock.Acquisition
import ReleasePublisher.Text.Style

/-!
Carrying out a plan. The steps are done one after the other under the lock of the project, and the
first that does not succeed ends the run. However a run ends, the configuration file is restored
first and the lock given back last.
-/
namespace ReleasePublisher

structure Project where
  root : Path
  configFile : Path
  deriving DecidableEq, Repr

namespace Project

def configPath (project : Project) : Path := project.root / project.configFile

end Project

structure Report where
  built : List ImageRef := []
  pushed : List ImageRef := []
  deriving DecidableEq, Repr

inductive RunResult
  | published (report : Report)
  | failed (error : PublishError)
  | panicked
  | abandoned
  deriving DecidableEq, Repr

namespace Publication

inductive Stop
  | failed (error : PublishError)
  | interrupted
  | panicked
  | abandoned
  deriving DecidableEq, Repr

structure Outcome (σ : Type) where
  result : Except Stop (List ImageRef)
  state : σ
  site : Site

def stopOf (failure : String → PublishError) : CallEnding → Option Stop
  | .succeeded => none
  | .failed cause => some (.failed (failure cause))
  | .panicked => some .panicked
  | .interrupted => some .interrupted
  | .abandoned => some .abandoned

def buildFailure (step : BuildStep) (cause : String) : PublishError :=
  .buildFailed step.name step.image.text cause

def pushFailure (image : ImageRef) (pushed : List ImageRef) (cause : String) : PublishError :=
  .pushFailed image.text (pushed.map ImageRef.text) cause

def headline (palette : Palette) (text : String) (site : Site) : Site :=
  (site.printLine "").printLine (palette.paint { bold := true, hue := some .green } text)

def announceBuild (palette : Palette) (step : BuildStep) (site : Site) : Site :=
  (headline palette ("🔨 " ++ step.name ++ " をビルド中...") site).printLine
    ("  → Image: " ++ palette.paint .cyan step.image.text)

def announcePushes (palette : Palette) (site : Site) : Site :=
  headline palette "📤 レジストリにプッシュ中..." site

def noticeText (palette : Palette) (path : Path) (text : String) : String :=
  palette.paint .yellow "⚙" ++ " " ++ palette.paint .cyan path.display ++ text

variable {σ : Type} (palette : Palette) (engine : Engine σ)

def runBuilds (built : List ImageRef) : List BuildStep → σ → Site → Outcome σ
  | [], state, site => ⟨.ok built, state, site⟩
  | step :: rest, state, site =>
    let (ending, state, site) :=
      (announceBuild palette step site).call engine (.build step) state
    match stopOf (buildFailure step) ending with
    | some stop => ⟨.error stop, state, site⟩
    | none =>
      runBuilds (built ++ [step.image]) rest state
        (site.printLine ("  " ++ palette.paint .green "✓" ++ " " ++ step.image.text))

def runPushes (pushed : List ImageRef) : List PushStep → σ → Site → Outcome σ
  | [], state, site => ⟨.ok pushed, state, site⟩
  | step :: rest, state, site =>
    let site := if pushed.isEmpty then announcePushes palette site else site
    let (ending, state, site) := site.call engine (.push step.image) state
    match stopOf (pushFailure step.image pushed) ending with
    | some stop => ⟨.error stop, state, site⟩
    | none => runPushes (pushed ++ [step.image]) rest state site

def runDebugBuilds (path : Path) (builds : List BuildStep) (state : σ) (site : Site) :
    Outcome σ :=
  match DebugProfile.activate path
      (site.printLine (noticeText palette path " にデバッグシンボル設定を追加")) with
  | (.error error, site) => ⟨.error (.failed error), state, site⟩
  | (.ok guard, site) =>
    match runBuilds palette engine [] builds state site with
    | ⟨.error stop, state, site⟩ => ⟨.error stop, state, guard.discard site⟩
    | ⟨.ok built, state, site⟩ =>
      match guard.restore
          ((site.printLine "").printLine (noticeText palette path " を元に戻しました")) with
      | (some error, site) => ⟨.error (.failed error), state, site⟩
      | (none, site) => ⟨.ok built, state, site⟩

def runAllBuilds (project : Project) (plan : Plan) (state : σ) (site : Site) : Outcome σ :=
  match plan.mode with
  | .release => runBuilds palette engine [] plan.builds state site
  | .debug => runDebugBuilds palette engine project.configPath plan.builds state site

def openingText (plan : Plan) : String :=
  "Publishing tag " ++ plan.tag.text ++ " (" ++ toString plan.builds.length ++ " builds, " ++
    toString plan.pushes.length ++ " pushes, " ++ plan.mode.name ++ ")"

def closingText (plan : Plan) (pushed : List ImageRef) : String :=
  "Published " ++ toString pushed.length ++ " images for tag " ++ plan.tag.text

structure Execution (σ : Type) where
  result : Except Stop Report
  state : σ
  site : Site

def execute (project : Project) (plan : Plan) (state : σ) (site : Site) : Execution σ :=
  match runAllBuilds palette engine project plan state (site.log .info (openingText plan)) with
  | ⟨.error stop, state, site⟩ => ⟨.error stop, state, site⟩
  | ⟨.ok built, state, site⟩ =>
    match runPushes palette engine [] plan.pushes state site with
    | ⟨.error stop, state, site⟩ => ⟨.error stop, state, site⟩
    | ⟨.ok pushed, state, site⟩ =>
      ⟨.ok ⟨built, pushed⟩, state, site.log .info (closingText plan pushed)⟩

/-- Gives the lock back; a failure to do so is only logged. -/
def releaseLock (lock : RunLock) (site : Site) : Site :=
  match lock.release site with
  | (none, site) => site
  | (some error, site) =>
    site.log .warning ("Failed to release publish lock: " ++ error.message)

def conclude (lock : RunLock) (result : Except Stop Report) (site : Site) : RunResult × Site :=
  match result with
  | .ok report => (.published report, releaseLock lock site)
  | .error (.failed error) => (.failed error, releaseLock lock site)
  | .error .interrupted =>
    (.failed .interrupted, releaseLock lock (site.log .warning "Publish interrupted"))
  | .error .panicked => (.panicked, lock.discard site)
  | .error .abandoned => (.abandoned, lock.discard site)

structure Run (σ : Type) where
  result : RunResult
  state : σ
  site : Site

def run (owner : LockOwner) (project : Project) (plan : Plan) (state : σ) (site : Site) : Run σ :=
  match RunLock.acquire owner project.root site with
  | (.error error, site) => ⟨.failed error, state, site⟩
  | (.ok lock, site) =>
    let execution := execute palette engine project plan state site
    let (result, site) := conclude lock execution.result execution.site
    ⟨result, execution.state, site⟩

end Publication

end ReleasePublisher
