import ReleasePublisher.CommandLine.Program
import ReleasePublisher.CommandLine.Survey

/-!
The executable. It gathers the arguments, the environment and what stands at the places that the
program looks at, and shows what the program leaves. It has no connection to a daemon, so a
publication ends where the daemon would be reached.
-/
namespace ReleasePublisher.Main

def variableNames : List String :=
  ["SHIPWRIGHT_PROJECT_ROOT", "SHIPWRIGHT_CONFIG_FILE", "SHIPWRIGHT_REGISTRY", "DOCKER_CONFIG",
    "DOCKER_HOST", "HOME", "HOSTNAME", "HOST", "CLICOLOR_FORCE", "NO_COLOR", "CLICOLOR",
    "TERM", "CI"]

def readEnvironment : IO Environment := do
  let mut env : Environment := ⟨[]⟩
  for name in variableNames do
    if let some value ← IO.getEnv name then
      env := env.insert name (Bytes.ofString value)
  return env

def survey (paths : List Path) : IO (List (Path × Survey.Sighting)) := do
  let here ← IO.currentDir
  let mut seen := []
  for path in paths do
    let place := here / path.display
    if ← place.isDir then seen := seen ++ [(path, .directory)]
    else if ← place.pathExists then seen := seen ++ [(path, .file)]
  return seen

def readFiles (env : Environment) (arguments : List Bytes) : IO FileSystem := do
  let here : Path := .ofString (← IO.currentDir).toString
  match Arguments.parse env arguments with
  | .ok arguments => return Survey.fileSystem here (← survey (Survey.paths env here arguments))
  | .error _ => return Survey.bare here

def run (arguments : List Bytes) : IO UInt32 := do
  let env ← readEnvironment
  let stdout ← IO.getStdout
  let stderr ← IO.getStderr
  let world : World Unit := {
    environment := env
    disk := ← readFiles env arguments
    palette := .ofEnvironment env (← stdout.isTty)
    noticePalette := .forNotices env (← stdout.isTty)
    pid := 0
    pid_lt := by decide
    helpers := fun _ => none
    connect := fun _ => none
    daemon := ⟨(), [], []⟩ }
  let outcome := CommandLine.run world arguments
  stdout.putStr outcome.output
  stderr.putStr outcome.errorOutput
  return outcome.exitCode.toUInt32

end ReleasePublisher.Main

def main (arguments : List String) : IO UInt32 :=
  ReleasePublisher.Main.run (arguments.map ReleasePublisher.Bytes.ofString)
