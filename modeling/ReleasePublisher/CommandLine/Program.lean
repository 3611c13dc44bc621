import ReleasePublisher.CommandLine.Arguments
import ReleasePublisher.CommandLine.Texts
import ReleasePublisher.Daemon.Client
import ReleasePublisher.Daemon.Socket
import ReleasePublisher.Publication
import ReleasePublisher.ProjectRoot

/-!
The program as a whole, from its arguments to its exit status. Everything that can be checked before
the daemon is reached is checked first, and nothing is changed before it answers.
-/
namespace ReleasePublisher

structure World (δ : Type) where
  environment : Environment
  disk : FileSystem
  palette : Palette
  /-- The palette of help and of messages about arguments. -/
  noticePalette : Palette
  pid : Nat
  pid_lt : pid < UInt32.size
  helpers : Helpers
  /-- The daemon behind a socket. -/
  connect : Path → Option (Transport δ)
  daemon : DaemonState δ

namespace World

variable {δ : Type}

def owner (world : World δ) : LockOwner :=
  ⟨LockOwner.hostOf world.environment, world.pid, world.pid_lt⟩

def client (world : World δ) (transport : Transport δ) (root : Path) : DaemonClient δ where
  transport := transport
  helpers := world.helpers
  configPath := ClientConfiguration.path world.environment
  root := root
  palette := world.palette

end World

namespace CommandLine

structure Outcome (δ : Type) where
  exitCode : Nat
  output : String := ""
  errorOutput : String := ""
  disk : FileSystem
  daemon : DaemonState δ

variable {δ : Type}

def finished (world : World δ) (exitCode : Nat) (output errorOutput : String) : Outcome δ :=
  ⟨exitCode, output, errorOutput, world.disk, world.daemon⟩

def setupFailed (world : World δ) (output text : String) : Outcome δ :=
  finished world 1 output (failureText world.palette text)

def unreachable (world : World δ) (output : String) (fault : DaemonFault) : Outcome δ :=
  finished world 1 output
    (connectionHelp world.palette fault.message ++
      failureText world.palette "Docker接続に失敗しました")

def stoppedStatus : Nat := 130

def faultStatus : Nat := 101

def carryOut (world : World δ) (client : DaemonClient δ) (project : Project) (plan : Plan)
    (output : String) : Outcome δ :=
  let run :=
    Publication.run world.palette client.engine world.owner project plan world.daemon
      { disk := world.disk }
  let output := output ++ run.site.shown.output
  match run.result with
  | .published report =>
    ⟨0, output ++ summary world.palette plan report.pushed, "", run.site.disk, run.state⟩
  | .failed error =>
    ⟨error.exitCode, output, failureText world.palette error.userMessage, run.site.disk,
      run.state⟩
  | .panicked => ⟨faultStatus, output, "", run.site.disk, run.state⟩
  | .abandoned => ⟨stoppedStatus, output, "", run.site.disk, run.state⟩

def connectAndRun (world : World δ) (project : Project) (plan : Plan) (output : String) :
    Outcome δ :=
  let socket := DaemonSocket.path world.environment
  match world.connect socket with
  | none =>
    unreachable world output (if world.disk.leads socket then .unconnected else .noSocket socket)
  | some transport =>
    let client := world.client transport project.root
    let (problem, daemon) := client.ping world.daemon
    let world := { world with daemon }
    match problem with
    | none => carryOut world client project plan output
    | some .silence => finished world stoppedStatus output ""
    | some (.fault fault) => unreachable world output fault

def obstacle? (fs : FileSystem) (project : Project) (plan : Plan) : Option String :=
  match BuildSource.preflight fs project.root plan with
  | .error error => some error.userMessage
  | .ok _ =>
    if plan.mode.isDebug && !fs.isFile project.configPath then
      some ("ビルド設定ファイルが見つかりません: " ++ project.configPath.display)
    else none

def publish (world : World δ) (arguments : Arguments) (plan : Plan) : Outcome δ :=
  match ProjectRoot.find world.disk world.environment arguments.projectRoot with
  | .error error => setupFailed world "" error.userMessage
  | .ok root =>
    let project : Project := ⟨root, arguments.configFile⟩
    let output := introduction world.palette root plan
    match obstacle? world.disk project plan with
    | some text => setupFailed world output text
    | none => connectAndRun world project plan (output ++ connectingText world.palette)

def planOf (arguments : Arguments) (tag : ReleaseTag) : Plan :=
  Plan.ofCatalog .builtin tag (.ofArgument arguments.debugBuild)
    { registry := arguments.registry, noCache := arguments.noCache, pullBase := arguments.pull }

def runWith (world : World δ) (arguments : Arguments) : Outcome δ :=
  match ReleaseTag.ofArgument? arguments.tag with
  | none => finished world 1 "" (usageText world.palette)
  | some tag =>
    let plan := planOf arguments tag
    if arguments.dryRun then finished world 0 (dryRunText world.palette plan) ""
    else publish world arguments plan

def run (world : World δ) (arguments : List Bytes) : Outcome δ :=
  match Arguments.parse world.environment arguments with
  | .error (.asked .help) =>
    finished world 0 (notice world.noticePalette (helpText world.environment)) ""
  | .error (.asked .version) => finished world 0 versionText ""
  | .error (.refused error) =>
    finished world 2 "" (notice world.noticePalette error.message)
  | .ok arguments => runWith world arguments

end CommandLine

end ReleasePublisher
