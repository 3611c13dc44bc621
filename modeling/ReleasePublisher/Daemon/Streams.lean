import ReleasePublisher.Daemon.Exchange
import ReleasePublisher.Text.Style
import ReleasePublisher.Transcript

/-!
What becomes of the messages of a stream. A build stops at the first failure and shows what came
before it; a push is read to its end, unless the stream breaks, and fails with the last error in it.
-/
namespace ReleasePublisher

namespace DaemonMessage

def buildFailure? (message : DaemonMessage) : Option String :=
  match message.error, message.errorDetail with
  | some text, _ => some text
  | none, some detail => some (detail.getD "Unknown build error")
  | none, none => none

/-- What a message prints before its errors are looked at. -/
def streamText (message : DaemonMessage) : Transcript :=
  match message.stream with
  | some text => .printed text
  | none => {}

def statusText (palette : Palette) (message : DaemonMessage) : Transcript :=
  match message.status with
  | some text => .line (palette.paint .cyan text)
  | none => {}

end DaemonMessage

namespace BuildStream

def consume (palette : Palette) : List StreamItem → Option BuildError × Transcript
  | [] => (none, {})
  | .fault fault :: _ => (some (.daemon fault), {})
  | .message message :: rest =>
    match message.buildFailure? with
    | some text => (some (.buildFailed text), message.streamText)
    | none =>
      let (error, shown) := consume palette rest
      (error, message.streamText ++ (message.statusText palette ++ shown))

end BuildStream

namespace PushStream

/-- What a push comes to by the items of its stream, after the error `last`. -/
def consume (last : Option String) : List StreamItem → Option BuildError
  | [] => last.map .pushFailed
  | .fault fault :: _ => some (.pushFailed fault.message)
  | .message message :: rest => consume (message.error.orElse fun _ => last) rest

end PushStream

end ReleasePublisher
