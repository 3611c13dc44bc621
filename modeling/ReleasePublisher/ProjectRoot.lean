import ReleasePublisher.Environment
import ReleasePublisher.FileSystem.Operations

/-!
Finding the project. It is given explicitly, else by a variable of the environment, else it is the
nearest directory from the working directory upwards that holds both marker files.
-/
namespace ReleasePublisher

inductive RootError
  | notFound (start : Path)
  | missing (path : Path)
  | io (fault : FileFault)
  deriving DecidableEq, Repr

namespace RootError

def message : RootError → String
  | .notFound start =>
    "プロジェクトルートが見つかりません（" ++ start.display ++ " から上位を検索）。\n" ++
      "Cargo.toml と Dockerfile.useCurrentArch の両方があるディレクトリで実行するか、\n" ++
      "--project-root または SHIPWRIGHT_PROJECT_ROOT 環境変数で直接指定してください"
  | .missing path => "指定されたプロジェクトルートが存在しません: " ++ path.display
  | .io fault => "IO エラー: " ++ fault.message

def userMessage : RootError → String
  | .missing path =>
    "指定されたプロジェクトルートが存在しません: " ++ path.display ++
      "\n\n--project-root または SHIPWRIGHT_PROJECT_ROOT の値を確認してください。"
  | e => e.message

end RootError

namespace ProjectRoot

def rootVariable : String := "SHIPWRIGHT_PROJECT_ROOT"

def markers : List Path := [.ofString "Cargo.toml", .ofString "Dockerfile.useCurrentArch"]

def isRoot (fs : FileSystem) (dir : Path) : Bool := markers.all fun m => fs.isFile (dir / m)

def findFrom (fs : FileSystem) (start : Path) : Except RootError Path :=
  match start.ancestors.find? (isRoot fs) with
  | some dir => .ok dir
  | none => .error (.notFound start)

def existing (fs : FileSystem) (path : Path) : Except RootError Path :=
  if fs.isDirectory path then .ok path else .error (.missing path)

/-- The project; the first source that is given decides. -/
def find (fs : FileSystem) (env : Environment) (explicit : Option Path) : Except RootError Path :=
  match explicit, env.text? rootVariable with
  | some path, _ => existing fs path
  | none, some text => existing fs (.ofString text)
  | none, none =>
    match fs.currentDirectory with
    | .ok here => findFrom fs here
    | .error fault => .error (.io fault)

end ProjectRoot

end ReleasePublisher
