import ReleasePublisher.Path

/-!
Entries of an archive. The path of an entry that is not read from a directory has to fit a field of
fixed size, into which its components are written one by one. A path that is read from a directory
may be longer; then it is kept as it is, and the field holds the front of it. Targets of links are
written in the same way, except that a target that does not fit needs no front.
-/
namespace ReleasePublisher

inductive EntryKind
  | file (content : Bytes)
  | directory
  | link (target : Bytes)
  | pipe
  deriving DecidableEq, Repr

structure ArchiveEntry where
  path : Bytes
  mode : Nat
  kind : EntryKind
  deriving DecidableEq, Repr

inductive EntryPathReason
  | tooLong
  | absolute
  | parentComponent
  | empty
  deriving DecidableEq, Repr

structure EntryPathFault where
  reason : EntryPathReason
  written : Bytes
  deriving DecidableEq, Repr

namespace EntryPathReason

def text : EntryPathReason → String
  | .tooLong => "provided value is too long"
  | .absolute => "paths in archives must be relative"
  | .parentComponent => "paths in archives must not have \x60..\x60"
  | .empty => "paths in archives must have at least one component"

end EntryPathReason

namespace EntryPathFault

def message (fault : EntryPathFault) : String :=
  fault.reason.text ++ " when setting path for " ++ Utf8.lossy fault.written

end EntryPathFault

namespace ArchiveEntry

def fieldSize : Nat := 100

def writePiece (written piece : Bytes) : Except EntryPathFault Bytes :=
  if written.length + piece.length ≤ fieldSize then .ok (written ++ piece)
  else .error ⟨.tooLong, written⟩

/-- Writes a name, after a separator unless it is the first. -/
def writeName (written name : Bytes) : Except EntryPathFault Bytes :=
  if written = [] then writePiece written name
  else (writePiece written [Bytes.slash]).bind (writePiece · name)

structure Writing where
  /-- Whether there is only one component. -/
  alone : Bool
  /-- Whether only the front of the path is written, so that its last component can be cut off. -/
  cut : Bool := false

/-- Writes the components of a path. A `.` is written only when it stands alone, and `..` only where
it may be the beginning of a name. -/
def writeComponents (how : Writing) (written : Bytes) :
    List Component → Except EntryPathFault Bytes
  | [] => if written = [] then .error ⟨.empty, []⟩ else .ok written
  | .root :: _ => .error ⟨.absolute, written⟩
  | .parent :: rest =>
    if how.cut && rest.isEmpty then writeName written Path.dotDot
    else .error ⟨.parentComponent, written⟩
  | .here :: rest =>
    if how.alone then (writeName written Path.dot).bind (writeComponents how · rest)
    else writeComponents how written rest
  | .named name :: rest => (writeName written name).bind (writeComponents how · rest)

def endsWithSlash (path : Path) : Bool := path.text.getLast? == some Bytes.slash

def writtenText (cut : Bool) (path : Path) : Except EntryPathFault Bytes := do
  let components := path.components
  let written ← writeComponents ⟨components.length == 1, cut⟩ [] components
  if endsWithSlash path then writePiece written [Bytes.slash] else .ok written

def fieldText (path : Path) : Except EntryPathFault Bytes := writtenText false path

/-- The front of a long path: the text in as many bytes as fit. -/
def front (path : Path) : Path :=
  let bytes := path.text.take fieldSize
  match Utf8.decode bytes with
  | .ok _ => ⟨bytes⟩
  | .error fault => ⟨bytes.take fault.offset⟩

/-- The path of an entry that is read from a directory. A long one needs a front that can stand in
the field. -/
def longText (path : Path) : Except EntryPathFault Bytes :=
  match fieldText path with
  | .ok text => .ok text
  | .error fault =>
    if path.text.length < fieldSize then .error fault
    else
      match writtenText true (front path) with
      | .ok _ => .ok path.text
      | .error { reason, .. } => .error ⟨reason, fault.written⟩

def memoryMode : Nat := 0o644

def ofMemory (path : Path) (content : Bytes) : Except EntryPathFault ArchiveEntry :=
  (fieldText path).map fun text => ⟨text, memoryMode, .file content⟩

def componentText : Component → Bytes
  | .root => []
  | .here => Path.dot
  | .parent => Path.dotDot
  | .named name => name

def targetText (target : Path) : Bytes :=
  let written :=
    (match target.components with
      | [.root] => [Bytes.slash]
      | components => Bytes.join Bytes.slash (components.map componentText)) ++
      if endsWithSlash target then [Bytes.slash] else []
  if written.length ≤ fieldSize then written else target.text

end ArchiveEntry

end ReleasePublisher
