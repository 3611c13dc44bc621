import ReleasePublisher.Image.Reference

/-!
The images that are built. One base image comes first, and all services build on it; the services
stand in the order in which they are built and pushed.
-/
namespace ReleasePublisher

inductive ContextKind
  /-- The project. -/
  | projectRoot
  /-- Nothing. -/
  | definitionOnly
  deriving DecidableEq, Repr, Inhabited

structure ImageSpec where
  name : String
  /-- The repository with its registry, without a tag. -/
  image : String
  /-- Where the Dockerfile is, seen from the project. -/
  dockerfile : String
  context : ContextKind
  deriving DecidableEq, Repr, Inhabited

namespace ImageSpec

def shortName (spec : ImageSpec) : String := String.ofList (afterLast '/' spec.image.toList)

def trimNamespace (space : String) : String :=
  String.ofList (space.toList.reverse.dropWhile (· == '/')).reverse

def repository (spec : ImageSpec) (registry : Option String) : String :=
  match registry with
  | some space => trimNamespace space ++ "/" ++ spec.shortName
  | none => spec.image

end ImageSpec

structure Catalog where
  base : ImageSpec
  services : List ImageSpec
  deriving DecidableEq, Repr, Inhabited

namespace Catalog

def registryNamespace : String := "ghcr.io/revoltchat"

/-- The tag of the base image, which carries no release tag. -/
def baseTag : String := "latest"

def service (name dockerfile : String) : ImageSpec :=
  { name, image := registryNamespace ++ "/" ++ name, dockerfile, context := .definitionOnly }

def builtin : Catalog where
  base :=
    { name := "base"
      image := registryNamespace ++ "/base"
      dockerfile := "Dockerfile.useCurrentArch"
      context := .projectRoot }
  services :=
    [service "server" "crates/delta/Dockerfile",
      service "bonfire" "crates/bonfire/Dockerfile",
      service "autumn" "crates/services/autumn/Dockerfile",
      service "january" "crates/services/january/Dockerfile",
      service "gifbox" "crates/services/gifbox/Dockerfile",
      service "crond" "crates/daemons/crond/Dockerfile",
      service "pushd" "crates/daemons/pushd/Dockerfile"]

end Catalog

end ReleasePublisher
