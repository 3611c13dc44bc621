import ReleasePublisher.Environment
import ReleasePublisher.Path

/-!
Where the container daemon listens: at the socket that a variable names, if it names one.
-/
namespace ReleasePublisher.DaemonSocket

def defaultPath : Path := .ofString "/var/run/docker.sock"

def scheme : Bytes := Bytes.ofString "unix://"

/-- The path of the socket. A variable that is not text or names no socket does not count. -/
def path (env : Environment) : Path :=
  match (env.text? "DOCKER_HOST").bind (scheme.isPrefixOf? <| Bytes.ofString ·) with
  | some rest => ⟨rest⟩
  | none => defaultPath

end ReleasePublisher.DaemonSocket
