import ReleasePublisher.FileSystem.Fault

/-!
Why an image cannot be built or pushed, and what is said about it.
-/
namespace ReleasePublisher

inductive DaemonFault
  | refused (status : Nat) (text : String)
  /-- An error reported in the middle of an answer. -/
  | stream (text : String)
  /-- A part of an answer that makes no sense. -/
  | malformed
  /-- An answer that ends in the middle of a part. -/
  | unfinished
  /-- An answer with nothing in it where something had to be. -/
  | missing
  | noSocket (path : Path)
  /-- Nobody answers at the socket. -/
  | unconnected
  /-- A connection fails when it has been made. -/
  | broken (reason : String)
  deriving DecidableEq, Repr

namespace DaemonFault

def message : DaemonFault → String
  | .refused status text =>
    "Docker responded with status code " ++ toString status ++ ": " ++ text
  | .stream text => "Docker stream error: " ++ text
  | .malformed => "Failed to deserialize JSON"
  | .unfinished => "bytes remaining on stream"
  | .missing => "EOF while parsing a value at line 1 column 0"
  | .noSocket path => "Socket not found: " ++ path.display
  | .unconnected => "Error in the hyper legacy client: client error (Connect)"
  | .broken reason => reason

end DaemonFault

inductive BuildError
  | dockerfileNotFound (path : Path)
  | contextNotFound (path : Path)
  | daemon (fault : DaemonFault)
  | buildFailed (text : String)
  | pushFailed (text : String)
  | authFailed (registry text : String)
  | invalidConfig (text : String)
  | io (fault : FileFault)
  deriving DecidableEq, Repr

namespace BuildError

def message : BuildError → String
  | .dockerfileNotFound path => "Dockerfile not found: " ++ path.display
  | .contextNotFound path => "Build context directory not found: " ++ path.display
  | .daemon fault => "Docker connection error: " ++ fault.message
  | .buildFailed text => "Build failed: " ++ text
  | .pushFailed text => "Push failed: " ++ text
  | .authFailed registry text => "Authentication failed for " ++ registry ++ ": " ++ text
  | .invalidConfig text => "Invalid build configuration: " ++ text
  | .io fault => "IO error: " ++ fault.message

def userMessage : BuildError → String
  | .dockerfileNotFound path =>
    "Dockerfileが見つかりません: " ++ path.display ++
      "\n\nプロジェクトルートが正しいか確認してください:\n" ++
      "--project-root <DIR> または SHIPWRIGHT_PROJECT_ROOT"
  | .buildFailed text =>
    "ビルドに失敗しました: " ++ text ++ "\n\nDockerfileの内容を確認してください。"
  | .contextNotFound path =>
    "ビルドコンテキストが見つかりません: " ++ path.display ++
      "\n\nプロジェクトルートのパスを確認してください。"
  | .pushFailed text =>
    "プッシュに失敗しました: " ++ text ++
      "\n\ndocker login 済みか、レジストリへの書き込み権限があるか確認してください。"
  | e => e.message

end BuildError

end ReleasePublisher
