import ReleasePublisher.CommandLine.Arguments
import ReleasePublisher.Daemon.Socket
import ReleasePublisher.Image.Catalog
import ReleasePublisher.ProjectRoot

/-!
What the program looks at before it reaches the daemon: its socket, the directories that may be the
project, and in each of them the files that a publication needs. A file system that agrees with
another on these places gives the same answers.
-/
namespace ReleasePublisher.Survey

def candidates (env : Environment) (here : Path) (arguments : Arguments) : List Path :=
  match arguments.projectRoot, env.text? ProjectRoot.rootVariable with
  | some path, _ => [path]
  | none, some text => [.ofString text]
  | none, none => here.ancestors

def namesInProject (catalog : Catalog) (configFile : Path) : List Path :=
  ProjectRoot.markers ++
    (catalog.base :: catalog.services).map (fun spec => .ofString spec.dockerfile) ++ [configFile]

def paths (env : Environment) (here : Path) (arguments : Arguments) : List Path :=
  DaemonSocket.path env :: (candidates env here arguments).flatMap fun root =>
    root :: (namesInProject .builtin arguments.configFile).map (root / ·)

inductive Sighting
  | directory
  | file
  deriving DecidableEq, Repr

def bare (here : Path) : FileSystem :=
  let fs : FileSystem := ⟨.directory ⟨0o755, .epoch⟩ [], ⟨[], 0⟩, .epoch, 0⟩
  let fs := (fs.ensureDirectories here).1
  match fs.resolve .follow here with
  | .ok (.present location _) => { fs with workingDirectory := ⟨location, 0⟩ }
  | _ => fs

def place (fs : FileSystem) (path : Path) : Sighting → FileSystem
  | .directory => (fs.ensureDirectories path).1
  | .file =>
    let fs := ((path.parent?).map fun dir => (fs.ensureDirectories dir).1).getD fs
    (fs.write path []).toOption.getD fs

def fileSystem (here : Path) (seen : List (Path × Sighting)) : FileSystem :=
  seen.foldl (fun fs (path, sighting) => place fs path sighting) (bare here)

end ReleasePublisher.Survey
