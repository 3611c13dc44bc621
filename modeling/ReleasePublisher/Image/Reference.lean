/-!
Names of images. A reference is a repository with a tag; the registry that a reference goes to is
read off its first segment.
-/
namespace ReleasePublisher

def splitAtFirst (mark : Char) (cs : List Char) : Option (List Char × List Char) :=
  match cs.dropWhile (· != mark) with
  | _ :: rest => some (cs.takeWhile (· != mark), rest)
  | [] => none

def afterLast (mark : Char) (cs : List Char) : List Char :=
  (cs.reverse.takeWhile (· != mark)).reverse

structure ImageRef where
  repository : String
  tag : String
  deriving DecidableEq, Repr, Inhabited

namespace ImageRef

/-- The written form. Neither part is checked. -/
def text (r : ImageRef) : String := r.repository ++ ":" ++ r.tag

instance : ToString ImageRef := ⟨text⟩

end ImageRef

abbrev RegistryHost := String

namespace RegistryHost

def default : RegistryHost := "docker.io"

def isHost (segment : List Char) : Bool :=
  segment.contains '.' || segment.contains ':' || segment == "localhost".toList

def ofImage (image : String) : RegistryHost :=
  match splitAtFirst '/' image.toList with
  | some (segment, _) => if isHost segment then String.ofList segment else default
  | none => default

end RegistryHost

end ReleasePublisher
