import ReleasePublisher.CommandLine.Options
import ReleasePublisher.Image.Reference
import ReleasePublisher.Path
import ReleasePublisher.Plan
import ReleasePublisher.Text.ControlSequence

/-!
What the command line says about itself, about plans and about the daemon that it cannot reach.
-/
namespace ReleasePublisher.CommandLine

def versionText : String := Usage.programName ++ " 0.3.0\n"

def helpColumn : Nat := 35

/-- The value of a variable as help shows it. Its lines are kept in the column of descriptions. -/
def variableNote (env : Environment) (option : ValueOption) : String :=
  match option.environmentName? with
  | some name =>
    let value := Utf8.lossy ((env.value? name).getD [])
    let lineBreak := "\n" ++ String.ofList (List.replicate helpColumn ' ')
    " [env: " ++ name ++ "=" ++ lineBreak.intercalate (value.splitOn "\n") ++ "]"
  | none => ""

def helpText (env : Environment) : String :=
  "Revoltのサービスイメージを一括ビルドし、リリースタグでレジストリに公開\n" ++
  "\n" ++
  Usage.line [] ++ "\n" ++
  "\n" ++
  Usage.heading "Arguments:" ++ "\n" ++
  "  [TAG]          リリースタグ（全サービスイメージのタグ、例: 20230826-1）\n" ++
  "  [DEBUG_BUILD]  \"true\" のときデバッグシンボル付きでビルド\n" ++
  "\n" ++
  Usage.heading "Options:" ++ "\n" ++
  "      " ++ Usage.literal "--project-root" ++
    " <DIR>         プロジェクトルート（省略時は SHIPWRIGHT_PROJECT_ROOT " ++
    "またはカレントから上位を検索）\n" ++
  "      " ++ Usage.literal "--config-file" ++
    " <CONFIG_FILE>  デバッグシンボル設定を追記するビルド設定ファイル" ++
    "（プロジェクトルートからの相対パス）" ++ variableNote env .configFile ++
    " [default: Cargo.toml]\n" ++
  "      " ++ Usage.literal "--registry" ++
    " <REGISTRY>        サービスイメージのレジストリ名前空間（例: ghcr.io/owner）" ++
    variableNote env .registry ++ "\n" ++
  "      " ++ Usage.literal "--no-cache" ++ "                   キャッシュを使用しない\n" ++
  "      " ++ Usage.literal "--pull" ++
    "                       ベースイメージのビルド時に親イメージをpullする\n" ++
  "      " ++ Usage.literal "--dry-run" ++
    "                    実行内容を表示するだけで、ビルド・プッシュしない\n" ++
  "  " ++ Usage.literal "-h" ++ ", " ++ Usage.literal "--help" ++
    "                       Print help\n" ++
  "  " ++ Usage.literal "-V" ++ ", " ++ Usage.literal "--version" ++
    "                    Print version\n"

/-- What the program says about its own command line. Where styles are not shown, nothing in it that
styles a terminal is, wherever it comes from. -/
def notice (palette : Palette) (text : String) : String :=
  match palette with
  | .plain => ControlSequence.strip text
  | .colored => text

def usageText (palette : Palette) : String :=
  palette.paint { bold := true, hue := some .yellow } "Usage:" ++
    " shipwright <TAG> [DEBUG_BUILD]\n" ++
  "\n" ++
  "  TAG          リリースタグ（例: 20230826-1）\n" ++
  "  DEBUG_BUILD  \"true\" でデバッグシンボル付きビルド（省略時はリリースビルド）\n" ++
  "\n" ++
  "例: shipwright 20230826-1\n" ++
  "    shipwright 20230826-1 true\n"

def stepNumber (n : Nat) : String :=
  let digits := toString n
  String.ofList (List.replicate (3 - digits.length) ' ') ++ digits

def stepLines (steps : List Step) : String :=
  String.join ((steps.zipIdx 1).map fun (step, n) =>
    stepNumber n ++ ". " ++ step.describe ++ "\n")

def planHeader (palette : Palette) (plan : Plan) : String :=
  "タグ: " ++ palette.paint .cyan plan.tag.text ++ "\n" ++
    "モード: " ++ palette.paint .cyan plan.mode.name ++ "\n"

def dryRunText (palette : Palette) (plan : Plan) : String :=
  palette.paint { bold := true, hue := some .green } "公開プラン (dry-run)" ++ "\n" ++
    planHeader palette plan ++ "\n" ++ stepLines plan.steps

def buildLine (palette : Palette) (step : BuildStep) : String :=
  "  • " ++ palette.paint .cyan step.name ++ " " ++ palette.paint .faint step.image.text ++ "\n"

def introduction (palette : Palette) (root : Path) (plan : Plan) : String :=
  palette.paint .green "Revoltイメージを公開中..." ++ "\n" ++
    planHeader palette plan ++
    "プロジェクト: " ++ palette.paint .cyan root.display ++ "\n" ++
    "\n" ++
    palette.paint .strong ("ビルド対象 (" ++ toString plan.builds.length ++
      " 個) / プッシュ対象 (" ++ toString plan.pushes.length ++ " 個):") ++ "\n" ++
    String.join (plan.builds.map (buildLine palette))

def connectingText (palette : Palette) : String :=
  "\n" ++ palette.paint .blue "Dockerに接続中..." ++ "\n"

def connectionHelp (palette : Palette) (cause : String) : String :=
  "\n" ++ palette.paint { bold := true, hue := some .red } "✗ Docker接続エラー" ++ "\n" ++
  "\n" ++ palette.paint .yellow "原因:" ++ "\n  " ++ cause ++ "\n" ++
  "\n" ++ palette.paint .yellow "解決方法:" ++ "\n" ++
  "  • Dockerが起動しているか確認してください\n" ++
  "  • DOCKER_HOST 環境変数が正しいソケットを指しているか確認してください\n" ++
  "  • docker ps コマンドが正常に動作するか確認してください\n"

def summary (palette : Palette) (plan : Plan) (pushed : List ImageRef) : String :=
  "\n" ++ palette.paint { bold := true, hue := some .green }
    ("✓ " ++ toString pushed.length ++ " 個のイメージを " ++ plan.tag.text ++
      " で公開しました") ++ "\n" ++
    String.join (pushed.map fun image => "  • " ++ palette.paint .cyan image.text ++ "\n")

def failureText (palette : Palette) (text : String) : String :=
  "\n" ++ palette.paint { bold := true, hue := some .red } "✗" ++ " " ++ text ++ "\n"

end ReleasePublisher.CommandLine
