import ReleasePublisher.FileSystem.Fault

/-!
Why a publication fails, what is said about it, and the exit status that tells the kinds of failure
apart: 2 for a build, 3 for a push, 130 for an interruption and 1 for all others.
-/
namespace ReleasePublisher

inductive PublishError
  | usage (text : String)
  | buildFailed (name image cause : String)
  /-- Some images may have been published before. -/
  | pushFailed (image : String) (published : List String) (cause : String)
  | interrupted
  | locked (holder since : String)
  | configFile (path : Path) (fault : FileFault)
  | io (fault : FileFault)
  deriving DecidableEq, Repr

namespace PublishError

def exitCode : PublishError → Nat
  | .buildFailed .. => 2
  | .pushFailed .. => 3
  | .interrupted => 130
  | _ => 1

def message : PublishError → String
  | .usage text => "Usage error: " ++ text
  | .buildFailed name image cause =>
    "Build failed for " ++ name ++ " (" ++ image ++ "): " ++ cause
  | .pushFailed image _ cause => "Push failed for " ++ image ++ ": " ++ cause
  | .interrupted => "Interrupted"
  | .locked holder since => "Publish is locked by " ++ holder ++ " since " ++ since
  | .configFile path fault =>
    "Build config file error (" ++ path.display ++ "): " ++ fault.message
  | .io fault => "IO error: " ++ fault.message

def publishedText : List String → String
  | [] => "\nレジストリに公開されたイメージはありません。"
  | images =>
    "\n既に公開済みのイメージ（ロールバックされません）:" ++
      String.join (images.map ("\n  - " ++ ·))

def userMessage : PublishError → String
  | .buildFailed name image cause =>
    name ++ " のビルドに失敗しました: " ++ cause ++ "\nイメージ: " ++ image ++
      "\n\n以降のビルドとプッシュは実行されていません。"
  | .pushFailed image published cause =>
    image ++ " のプッシュに失敗しました: " ++ cause ++
      "\n\n以降のプッシュは実行されていません。" ++ publishedText published
  | .interrupted =>
    "中断されました。\n\nビルド設定ファイルは元に戻し、ロックは解放しました。\n" ++
      "中断前に完了したプッシュはロールバックされません。"
  | .locked holder since =>
    "別の公開処理が実行中です（" ++ holder ++ " / " ++ since ++ " から）\n\n" ++
      "同じ作業ディレクトリで同時に公開することはできません。\n" ++
      "前回の実行が異常終了した場合は .shipwright/publish.lock を削除してください。"
  | .configFile path fault =>
    "ビルド設定ファイルを操作できません: " ++ path.display ++ "\n原因: " ++ fault.message
  | e => e.message

end PublishError

end ReleasePublisher
