import ReleasePublisher.FileSystem.Node

/-!
Where a path leads. Pieces are followed one by one from the root or from the working directory; a
link is replaced by its target, at most forty times. A path leads to a node, or to a place where a
node could be made: its directory exists and the last name in it does not. A working directory that
has been removed is still a directory, without entries and without a place in the tree, and `..`
leads out of it.
-/
namespace ReleasePublisher

structure WorkingDirectory where
  /-- The directory itself, or else the nearest one above it that has not been removed. -/
  location : Location
  /-- How many levels below `location` the directory was when it was removed. -/
  removed : Nat := 0
  deriving DecidableEq, Repr, Inhabited

def WorkingDirectory.without (location : Location) (here : WorkingDirectory) :
    WorkingDirectory :=
  if location.isPrefixOf here.location then
    ⟨location.dropLast, here.removed + (here.location.length - location.length) + 1⟩
  else here

structure FileSystem where
  root : Node
  workingDirectory : WorkingDirectory
  clock : Timestamp
  /-- The serial of the next file. -/
  nextSerial : Serial
  deriving Inhabited

inductive Destination
  | present (location : Location) (node : Node)
  | absent (directory : Location) (name : Bytes)
  /-- A directory that has been removed while it was the working directory or one above it. -/
  | removed (directory : WorkingDirectory)

inductive LastLink
  | follow
  | keep
  deriving DecidableEq, Repr

inductive Advance
  | arrived (destination : Destination)
  | atLink (directory : Location) (target : Bytes) (rest : List Bytes)

namespace FileSystem

def nameLimit : Nat := 255

/-- The longest path, with the zero byte at its end. -/
def pathLimit : Nat := 4096

def linkLimit : Nat := 40

def newFileMode : Nat := 0o644

def newDirectoryMode : Nat := 0o755

/-- Follows pieces as far as the first link to replace. An empty piece and `.` stay where they are
but ask for a directory. -/
def advance (root : Node) (last : LastLink) :
    Location → List Bytes → Except SystemError Advance
  | here, [] =>
    match root.at? here with
    | some node => .ok (.arrived (.present here node))
    | none => .error .notFound
  | here, piece :: rest =>
    match root.at? here with
    | none => .error .notFound
    | some (.directory _ entries) =>
      if piece = [] ∨ piece = Path.dot then advance root last here rest
      else if piece = Path.dotDot then advance root last here.dropLast rest
      else if nameLimit < piece.length then .error .nameTooLong
      else
        match Node.child? piece entries with
        | none => if rest = [] then .ok (.arrived (.absent here piece)) else .error .notFound
        | some (.link target) =>
          if rest = [] ∧ last = .keep then
            .ok (.arrived (.present (here ++ [piece]) (.link target)))
          else .ok (.atLink here target rest)
        | some _ => advance root last (here ++ [piece]) rest
    | some _ => .error .notADirectory

def startOf (here : Location) (text : Bytes) : Location × List Bytes :=
  if text.head? = some Bytes.slash then ([], Bytes.split Bytes.slash (text.drop 1))
  else (here, Bytes.split Bytes.slash text)

def followLinks (root : Node) (last : LastLink) :
    (links : Nat) → Location → List Bytes → Except SystemError Destination
  | links, here, pieces =>
    match advance root last here pieces with
    | .error e => .error e
    | .ok (.arrived destination) => .ok destination
    | .ok (.atLink directory target rest) =>
      match links with
      | 0 => .error .tooManyLinks
      | links + 1 =>
        let (start, inner) := startOf directory target
        followLinks root last links start (inner ++ rest)

/-- How many levels below `location` pieces lead that start in a removed directory, and the pieces
left when they lead out. A removed directory has no entries but knows where it was. -/
def leaveRemoved : (levels : Nat) → List Bytes → Except SystemError (Nat × List Bytes)
  | 0, pieces => .ok (0, pieces)
  | levels + 1, [] => .ok (levels + 1, [])
  | levels + 1, piece :: rest =>
    if piece = [] ∨ piece = Path.dot then leaveRemoved (levels + 1) rest
    else if piece = Path.dotDot then leaveRemoved levels rest
    else .error .notFound

def resolveFrom (root : Node) (here : WorkingDirectory) (last : LastLink) (path : Path) :
    Except SystemError Destination :=
  if path.isAbsolute then
    let (start, pieces) := startOf [] path.text
    followLinks root last linkLimit start pieces
  else
    match leaveRemoved here.removed (Bytes.split Bytes.slash path.text) with
    | .error e => .error e
    | .ok (0, pieces) => followLinks root last linkLimit here.location pieces
    | .ok (levels + 1, _) => .ok (.removed ⟨here.location, levels + 1⟩)

def resolve (fs : FileSystem) (last : LastLink) (path : Path) : Except FileFault Destination :=
  if path.text.contains 0 then .error .zeroByteInPath
  else if path.text = [] then .error (.system .notFound)
  else if pathLimit ≤ path.text.length then .error (.system .nameTooLong)
  else
    match resolveFrom fs.root fs.workingDirectory last path with
    | .ok destination => .ok destination
    | .error e => .error (.system e)

def emptyDirectory (fs : FileSystem) : Node := .directory ⟨newDirectoryMode, fs.clock⟩ []

def find (fs : FileSystem) (last : LastLink) (path : Path) : Except FileFault Node :=
  match fs.resolve last path with
  | .error e => .error e
  | .ok (.present _ node) => .ok node
  | .ok (.removed _) => .ok fs.emptyDirectory
  | .ok (.absent ..) => .error (.system .notFound)

def find? (fs : FileSystem) (path : Path) : Option Node := (fs.find .follow path).toOption

def leads (fs : FileSystem) (path : Path) : Bool := (fs.find? path).isSome

def isFile (fs : FileSystem) (path : Path) : Bool := (fs.find? path).any Node.isFile

def isDirectory (fs : FileSystem) (path : Path) : Bool := (fs.find? path).any Node.isDirectory

end FileSystem

end ReleasePublisher
