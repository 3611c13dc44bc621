import ReleasePublisher.FileSystem.Resolve

/-!
Reading and changing files. Each operation is a single one of the system: it happens as a whole or,
when it answers with a fault, changes nothing.
-/
namespace ReleasePublisher

/-- An open file: the file with this serial, as long as it stays at this location. -/
structure Handle where
  location : Location
  serial : Serial
  deriving DecidableEq, Repr

namespace FileSystem

def replace (fs : FileSystem) (location : Location) (node : Node) : FileSystem :=
  { fs with root := fs.root.modify (fun _ => node) location }

def add (fs : FileSystem) (directory : Location) (name : Bytes) (node : Node) : FileSystem :=
  { fs with root := fs.root.modify (Node.addEntry fs.clock name node) directory }

def erase (fs : FileSystem) (location : Location) : FileSystem :=
  match location.getLast? with
  | none => fs
  | some name =>
    { fs with
      root := fs.root.modify (Node.dropEntry fs.clock name) location.dropLast
      workingDirectory := fs.workingDirectory.without location }

def addFile (fs : FileSystem) (directory : Location) (name : Bytes) (content : Bytes) :
    FileSystem :=
  { fs.add directory name (.file fs.nextSerial ⟨newFileMode, fs.clock⟩ content) with
    nextSerial := fs.nextSerial + 1 }

def contentOf : Node → Except FileFault Bytes
  | .file _ _ content => .ok content
  | .directory .. => .error (.system .isADirectory)
  | .link _ => .error (.system .tooManyLinks)
  | .special .pipe _ => .ok []
  | .special .socket _ => .error (.system .noDevice)

def read (fs : FileSystem) (path : Path) : Except FileFault Bytes :=
  match fs.find .follow path with
  | .ok node => contentOf node
  | .error e => .error e

def readText (fs : FileSystem) (path : Path) : Except FileFault String :=
  match fs.read path with
  | .error e => .error e
  | .ok content =>
    match Utf8.decode? content with
    | some s => .ok s
    | none => .error .notText

def createNew (fs : FileSystem) (path : Path) : Except FileFault (FileSystem × Handle) :=
  match fs.resolve .keep path with
  | .error e => .error e
  | .ok (.absent directory name) =>
    .ok (fs.addFile directory name [], ⟨directory ++ [name], fs.nextSerial⟩)
  | .ok _ => .error (.system .alreadyExists)

/-- Replaces the content of an open file; what is written to a file without a name is lost. -/
def writeTo (fs : FileSystem) (handle : Handle) (content : Bytes) : FileSystem :=
  match fs.root.at? handle.location with
  | some (.file serial attributes _) =>
    if serial = handle.serial then
      fs.replace handle.location (.file serial { attributes with modified := fs.clock } content)
    else fs
  | _ => fs

/-- Replaces the content of a node that is opened for writing. A pipe takes nothing, since nobody
reads from it. -/
def writeAt (fs : FileSystem) (location : Location) (node : Node) (content : Bytes → Bytes) :
    Except FileFault FileSystem :=
  match node with
  | .file serial attributes old =>
    .ok (fs.replace location
      (.file serial { attributes with modified := fs.clock } (content old)))
  | .directory .. => .error (.system .isADirectory)
  | .link _ => .error (.system .tooManyLinks)
  | .special .. => .error (.system .noDevice)

def write (fs : FileSystem) (path : Path) (content : Bytes) : Except FileFault FileSystem :=
  match fs.resolve .follow path with
  | .error e => .error e
  | .ok (.absent directory name) => .ok (fs.addFile directory name content)
  | .ok (.present location node) => fs.writeAt location node fun _ => content
  | .ok (.removed _) => .error (.system .isADirectory)

def append (fs : FileSystem) (path : Path) (more : Bytes) : Except FileFault FileSystem :=
  match fs.resolve .follow path with
  | .error e => .error e
  | .ok (.absent ..) => .error (.system .notFound)
  | .ok (.present location node) => fs.writeAt location node (· ++ more)
  | .ok (.removed _) => .error (.system .isADirectory)

def removeFile (fs : FileSystem) (path : Path) : Except FileFault FileSystem :=
  match fs.resolve .keep path with
  | .error e => .error e
  | .ok (.absent ..) => .error (.system .notFound)
  | .ok (.present _ (.directory ..)) => .error (.system .isADirectory)
  | .ok (.present location _) => .ok (fs.erase location)
  | .ok (.removed _) => .error (.system .isADirectory)

def removeDirectory (fs : FileSystem) (path : Path) : Except FileFault FileSystem :=
  match fs.resolve .keep path with
  | .error e => .error e
  | .ok (.absent ..) => .error (.system .notFound)
  | .ok (.present location (.directory _ [])) => .ok (fs.erase location)
  | .ok (.present _ (.directory ..)) => .error (.system .notEmpty)
  | .ok (.present ..) => .error (.system .notADirectory)
  | .ok (.removed _) => .error (.system .notFound)

/-- Makes a directory where nothing is; separators at the end of its name do not count. -/
def makeDirectory (fs : FileSystem) (path : Path) : Except FileFault FileSystem :=
  match fs.resolve .keep path.withoutEndSlashes with
  | .error e => .error e
  | .ok (.absent directory name) =>
    .ok (fs.add directory name (.directory ⟨newDirectoryMode, fs.clock⟩ []))
  | .ok _ => .error (.system .alreadyExists)

def ensureDirectory (fs : FileSystem) (path : Path) : Except FileFault FileSystem :=
  match fs.makeDirectory path with
  | .ok fs => .ok fs
  | .error e => if fs.isDirectory path then .ok fs else .error e

def ensureChain (fs : FileSystem) : List Path → FileSystem × Option FileFault
  | [] => (fs, some (.other "failed to create whole tree"))
  | path :: above =>
    if path.text = [] then (fs, none)
    else
      match fs.makeDirectory path with
      | .ok made => (made, none)
      | .error (.system .notFound) =>
        match ensureChain fs above with
        | (made, some fault) => (made, some fault)
        | (made, none) =>
          match made.ensureDirectory path with
          | .ok done => (done, none)
          | .error e => (made, some e)
      | .error e => if fs.isDirectory path then (fs, none) else (fs, some e)

/-- Makes a directory and all that are missing above it. What has been made stays when a later one
cannot be. -/
def ensureDirectories (fs : FileSystem) (path : Path) : FileSystem × Option FileFault :=
  fs.ensureChain path.ancestors

def modified? (fs : FileSystem) (path : Path) : Option Timestamp :=
  (fs.find? path).bind Node.modified?

def currentDirectory (fs : FileSystem) : Except FileFault Path :=
  match fs.workingDirectory with
  | ⟨here, 0⟩ => .ok ⟨Bytes.slash :: Bytes.join Bytes.slash here⟩
  | ⟨_, _ + 1⟩ => .error (.system .notFound)

end FileSystem

end ReleasePublisher
