import ReleasePublisher.BuildError
import ReleasePublisher.FileSystem.Operations
import ReleasePublisher.Plan

/-!
What an image is built from: a Dockerfile and, for some images, a directory. All sources of a plan
can be checked before anything is built.
-/
namespace ReleasePublisher

/-- The files of a build. Without a context the Dockerfile is all there is. -/
structure BuildSource where
  dockerfile : Path
  context : Option Path
  deriving DecidableEq, Repr

namespace BuildSource

def findDockerfile (fs : FileSystem) (root : Path) (dockerfile : String) :
    Except BuildError Path :=
  let path := root / .ofString dockerfile
  if fs.isFile path then .ok path else .error (.dockerfileNotFound path)

def findContext (fs : FileSystem) (root : Path) : Except BuildError Path :=
  match fs.find? root with
  | none => .error (.contextNotFound root)
  | some node =>
    if node.isDirectory then .ok root
    else .error (.invalidConfig ("Build context is not a directory: " ++ root.display))

def resolve (fs : FileSystem) (root : Path) (step : BuildStep) : Except BuildError BuildSource := do
  let dockerfile ← findDockerfile fs root step.dockerfile
  match step.context with
  | .projectRoot =>
    let context ← findContext fs root
    return ⟨dockerfile, some context⟩
  | .definitionOnly => return ⟨dockerfile, none⟩

def preflight (fs : FileSystem) (root : Path) (plan : Plan) :
    Except BuildError (List BuildSource) :=
  plan.builds.mapM (resolve fs root)

end BuildSource

end ReleasePublisher
