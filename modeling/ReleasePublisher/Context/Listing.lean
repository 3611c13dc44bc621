import ReleasePublisher.BuildError
import ReleasePublisher.Context.Archive
import ReleasePublisher.FileSystem.Operations
import ReleasePublisher.Ignore.Rules
import ReleasePublisher.Lock.Acquisition

/-!
The context of a build: the entries sent to the container daemon and the name of the Dockerfile
among them. A directory is listed depth first, its names in byte order and links as links, without
what its ignore files leave out and without the directory of the lock. A Dockerfile that is left out
comes last; without a directory it is the only entry.
-/
namespace ReleasePublisher

structure BuildContext where
  /-- The name of the Dockerfile among the entries. -/
  dockerfile : String
  entries : List ArchiveEntry
  deriving DecidableEq, Repr

namespace BuildContext

def ignoreFile : Path := .ofString ".dockerignore"

def loneDockerfile : String := "Dockerfile"

def linkMode : Nat := 0o777

/-- Something met on the walk: its path, and its entry unless it cannot be archived. -/
structure Found where
  path : Path
  isDirectory : Bool
  entry : Except FileFault ArchiveEntry

/-- The entry of a node; a directory stands for itself without its contents. A pipe is entered under
the path by which it was reached, all else under its names. -/
def entryOf (path : Path) (names : List Bytes) (node : Node) : Except FileFault ArchiveEntry :=
  let name := Bytes.join Bytes.slash names
  match node with
  | .file _ attributes content => enter ⟨name⟩ attributes.mode (.file content)
  | .directory attributes _ => enter ⟨name⟩ attributes.mode .directory
  | .link target => enter ⟨name⟩ linkMode (.link (ArchiveEntry.targetText ⟨target⟩))
  | .special .socket _ => .error (.other (path.display ++ ": socket can not be archived"))
  | .special .pipe attributes => enter path attributes.mode .pipe
where
  enter (path : Path) (mode : Nat) (kind : EntryKind) : Except FileFault ArchiveEntry :=
    match ArchiveEntry.longText path with
    | .ok text => .ok ⟨text, mode, kind⟩
    | .error fault => .error (.other fault.message)

/-- The content of the ignore file in a directory. Only a link leads out of the directory. -/
def ignoreContent? (fs : FileSystem) (path : Path) (entries : List (Bytes × Node)) :
    Option Bytes :=
  match Node.child? ignoreFile.text entries with
  | some (.file _ _ content) => some content
  | some (.link _) => (fs.read (path / ignoreFile)).toOption
  | _ => none

/-- The rules in a directory; an ignore file that cannot be read has none. -/
def rulesIn (fs : FileSystem) (path : Path) (entries : List (Bytes × Node)) : IgnoreRules :=
  match ignoreContent? fs path entries with
  | some content => IgnoreRules.parse content
  | none => []

def inNameOrder (found : List (Bytes × List Found)) : List Found :=
  (found.mergeSort fun a b => Bytes.precedes a.1 b.1).flatMap Prod.snd

mutual
/-- What is found at a node and below it. The names lead to it from the context; the scopes are
those of the directories around it, the innermost first. -/
def walk (fs : FileSystem) (scopes : List IgnoreScope) (path : Path) (names : List Bytes) :
    Node → List Found
  | .directory attributes entries =>
    ⟨path, true, entryOf path names (.directory attributes entries)⟩ ::
      inNameOrder (walkEntries fs (.of path (rulesIn fs path entries) :: scopes) path names entries)
  | node => [⟨path, false, entryOf path names node⟩]

/-- What is found under each name of a directory. Nothing is found at or below a name that is left
out. -/
def walkEntries (fs : FileSystem) (scopes : List IgnoreScope) (path : Path)
    (names : List Bytes) : List (Bytes × Node) → List (Bytes × List Found)
  | [] => []
  | (name, node) :: rest =>
    (name,
      if IgnoreScope.excludes scopes node.isDirectory (path / ⟨name⟩) then []
      else walk fs scopes (path / ⟨name⟩) (names ++ [name]) node) ::
      walkEntries fs scopes path names rest
end

/-- The names of a context that are looked at: all but the directory of the lock. -/
def visibleEntries (entries : List (Bytes × Node)) : List (Bytes × Node) :=
  entries.filter (·.1 != Bytes.ofString RunLock.directoryName)

def walkContext (fs : FileSystem) (context : Path) (entries : List (Bytes × Node)) :
    List Found :=
  inNameOrder
    (walkEntries fs [.of context (rulesIn fs context entries)] context [] (visibleEntries entries))

def entriesOf (found : List Found) : Except FileFault (List ArchiveEntry) :=
  found.mapM Found.entry

def holds (dockerfile : Path) (found : List Found) : Bool :=
  found.any fun f => !f.isDirectory && f.path.same dockerfile

def dockerfileEntry (name : String) (content : Bytes) : Except BuildError ArchiveEntry :=
  match ArchiveEntry.ofMemory (.ofString name) content with
  | .ok entry => .ok entry
  | .error fault =>
    .error (.invalidConfig ("Failed to set path " ++ name ++ ": " ++ fault.message))

def slashed (name : String) : String :=
  String.ofList (name.toList.map fun c => if c = '\\' then '/' else c)

def ofDockerfile (content : Bytes) : Except BuildError BuildContext :=
  (dockerfileEntry loneDockerfile content).map fun entry => ⟨loneDockerfile, [entry]⟩

def ofDirectory (fs : FileSystem) (context dockerfile : Path) (content : Bytes) :
    Except BuildError BuildContext :=
  match fs.find? context with
  | some (.directory _ entries) =>
    match dockerfile.below? context with
    | none =>
      .error (.invalidConfig ("Dockerfile " ++ dockerfile.display ++
        " is outside the build context " ++ context.display))
    | some relative =>
      let name := slashed relative.display
      let found := walkContext fs context entries
      match entriesOf found with
      | .error fault => .error (.io fault)
      | .ok listed =>
        if holds dockerfile found then .ok ⟨name, listed⟩
        else (dockerfileEntry name content).map fun entry => ⟨name, listed ++ [entry]⟩
  | _ => .error (.contextNotFound context)

def create (fs : FileSystem) (context : Option Path) (dockerfile : Path) :
    Except BuildError BuildContext :=
  match fs.read dockerfile with
  | .error _ => .error (.dockerfileNotFound dockerfile)
  | .ok content =>
    match context with
    | some context => ofDirectory fs context dockerfile content
    | none => ofDockerfile content

end BuildContext

end ReleasePublisher
