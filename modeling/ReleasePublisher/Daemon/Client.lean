import ReleasePublisher.BuildSource
import ReleasePublisher.Context.Listing
import ReleasePublisher.Daemon.Streams

/-!
Building and pushing images by means of the container daemon. A build sends its context; a push
first makes sure that the image is there, then looks up the credentials of its registry.
-/
namespace ReleasePublisher

structure DaemonClient (δ : Type) where
  transport : Transport δ
  helpers : Helpers
  /-- Where the client configuration is. -/
  configPath : Path
  root : Path
  palette : Palette

structure DaemonState (δ : Type) where
  daemon : δ
  requests : List DaemonRequest := []
  helperRuns : List HelperRun := []

inductive ActionEnding
  | succeeded
  | failed (error : BuildError)
  /-- The daemon does not answer, and the program is asked to stop meanwhile. -/
  | interrupted
  deriving DecidableEq, Repr

structure Action (δ : Type) where
  ending : ActionEnding
  state : DaemonState δ
  shown : Transcript := {}

namespace ActionEnding

def ofError : Option BuildError → ActionEnding
  | none => .succeeded
  | some error => .failed error

def toCallEnding : ActionEnding → CallEnding
  | .succeeded => .succeeded
  | .failed error => .failed error.message
  | .interrupted => .interrupted

end ActionEnding

namespace DaemonClient

variable {δ : Type} (client : DaemonClient δ)

def send (request : DaemonRequest) (s : DaemonState δ) : DaemonAnswer × DaemonState δ :=
  let (answer, daemon) := client.transport request s.daemon
  (answer, { s with daemon, requests := s.requests ++ [request] })

def announce (source : BuildSource) : Transcript :=
  .line ("  → Dockerfile: " ++ source.dockerfile.display) ++
    match source.context with
    | some context => .line ("  → Context: " ++ context.display)
    | none => {}

def buildRequest (step : BuildStep) (context : BuildContext) : DaemonRequest :=
  .build context.dockerfile step.image.text step.noCache step.pull context.entries

def buildContext (step : BuildStep) (context : BuildContext) (s : DaemonState δ) : Action δ :=
  let opening := Transcript.logged .info ("Building image: " ++ step.image.text)
  let (answer, s) := client.send (buildRequest step context) s
  match answer.stream? .build with
  | none => ⟨.interrupted, s, opening⟩
  | some items =>
    match BuildStream.consume client.palette items with
    | (some error, shown) => ⟨.failed error, s, opening ++ shown⟩
    | (none, shown) =>
      ⟨.succeeded, s,
        opening ++ (shown ++ .logged .info ("Successfully built: " ++ step.image.text))⟩

def build (step : BuildStep) (fs : FileSystem) (s : DaemonState δ) : Action δ :=
  match BuildSource.resolve fs client.root step with
  | .error error => ⟨.failed error, s, {}⟩
  | .ok source =>
    match BuildContext.create fs source.context source.dockerfile with
    | .error error => ⟨.failed error, s, announce source⟩
    | .ok context =>
      let action := client.buildContext step context s
      { action with shown := announce source ++ action.shown }

inductive Presence
  | present
  | missing
  | unknown (fault : DaemonFault)
  | silence
  deriving DecidableEq, Repr

def presence : DaemonAnswer → Presence
  | .silence => .silence
  | .broken _ reason => .unknown (.broken reason)
  | .reply status body =>
    match DaemonAnswer.describing? status body with
    | none => .present
    | some fault => if status = 404 then .missing else .unknown fault

def pushRequest (image : ImageRef) (credentials : Option Credentials) : DaemonRequest :=
  .push image.repository image.tag credentials

def pushWith (image : ImageRef) (credentials : Option Credentials) (s : DaemonState δ) :
    Action δ :=
  let opening := Transcript.line ("  → " ++ client.palette.paint .cyan image.text)
  let (answer, s) := client.send (pushRequest image credentials) s
  match answer.stream? .push with
  | none => ⟨.interrupted, s, opening⟩
  | some items => ⟨.ofError (PushStream.consume none items), s, opening⟩

def pushPresent (image : ImageRef) (fs : FileSystem) (s : DaemonState δ) : Action δ :=
  let lookup := Credentials.find fs client.configPath client.helpers image.text
  let s := { s with helperRuns := s.helperRuns ++ lookup.runs }
  match lookup.result with
  | .error error => ⟨.failed error.toBuildError, s, {}⟩
  | .ok credentials => client.pushWith image credentials s

def push (image : ImageRef) (fs : FileSystem) (s : DaemonState δ) : Action δ :=
  let (answer, s) := client.send (.inspect image.text) s
  match presence answer with
  | .silence => ⟨.interrupted, s, {}⟩
  | .unknown fault => ⟨.failed (.daemon fault), s, {}⟩
  | .missing =>
    ⟨.failed (.pushFailed ("image " ++ image.text ++ " is not in the local image store")), s, {}⟩
  | .present => client.pushPresent image fs s

/-- The engine that uses the daemon. It changes no files. -/
def engine : Engine (DaemonState δ) := fun call s fs =>
  let action :=
    match call with
    | .build step => client.build step fs s
    | .push image => client.push image fs s
  ⟨action.ending.toCallEnding, action.state, fs, action.shown⟩

inductive PingProblem
  | fault (fault : DaemonFault)
  | silence
  deriving DecidableEq, Repr

def ping (s : DaemonState δ) : Option PingProblem × DaemonState δ :=
  match client.send .ping s with
  | (.silence, s) => (some .silence, s)
  | (.broken _ reason, s) => (some (.fault (.broken reason)), s)
  | (.reply status body, s) => ((DaemonAnswer.refusal? status body).map .fault, s)

end DaemonClient

end ReleasePublisher
