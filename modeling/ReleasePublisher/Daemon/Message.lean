import ReleasePublisher.BuildError
import ReleasePublisher.Json.Decode

/-!
The messages of a stream. A body is read line by line; a line that is only the beginning of a
message is joined with the next one, once while the body is read and once more at its end.
-/
namespace ReleasePublisher

inductive StreamKind
  | build
  | push
  deriving DecidableEq, Repr

/-- A message of a stream. The detail of an error may be without a text. -/
structure DaemonMessage where
  stream : Option String := none
  status : Option String := none
  error : Option String := none
  errorDetail : Option (Option String) := none
  deriving DecidableEq, Repr, Inhabited

inductive StreamItem
  | message (message : DaemonMessage)
  | fault (fault : DaemonFault)
  deriving DecidableEq, Repr

namespace DaemonMessage

def detail? (json : Json) : Option (Option String) :=
  match json.fields? ["code", "message"] 2 with
  | some [code, text] => do
    let _ ← Json.optional? Json.int64? code
    Json.optional? Json.text? text
  | _ => none

def progress? (json : Json) : Option Unit :=
  match json.fields? ["current", "total"] 2 with
  | some [current, total] => do
    let _ ← Json.optional? Json.int64? current
    let _ ← Json.optional? Json.int64? total
    return ()
  | _ => none

def identity? (json : Json) : Option Unit :=
  match json.fields? ["ID"] 1 with
  | some [id] => (Json.optional? Json.text? id).map fun _ => ()
  | _ => none

def ofBuild? (json : Json) : Option DaemonMessage :=
  let names :=
    ["id", "stream", "error", "errorDetail", "status", "progress", "progressDetail", "aux"]
  match json.fields? names names.length with
  | some [id, stream, error, errorDetail, status, progress, progressDetail, aux] => do
    let _ ← Json.optional? Json.text? id
    let stream ← Json.optional? Json.text? stream
    let error ← Json.optional? Json.text? error
    let errorDetail ← Json.optional? detail? errorDetail
    let status ← Json.optional? Json.text? status
    let _ ← Json.optional? Json.text? progress
    let _ ← Json.optional? progress? progressDetail
    let _ ← Json.optional? identity? aux
    return { stream, status, error, errorDetail }
  | _ => none

/-- A message about a push. It has no detail of an error and nothing to print but its status. -/
def ofPush? (json : Json) : Option DaemonMessage :=
  let names := ["error", "status", "progress", "progressDetail"]
  match json.fields? names names.length with
  | some [error, status, progress, progressDetail] => do
    let error ← Json.optional? Json.text? error
    let status ← Json.optional? Json.text? status
    let _ ← Json.optional? Json.text? progress
    let _ ← Json.optional? progress? progressDetail
    return { status, error }
  | _ => none

end DaemonMessage

namespace StreamItem

/-- What a message yields. An error in it is a fault of the stream. -/
def ofMessage (message : DaemonMessage) : StreamItem :=
  match message.error with
  | some text => .fault (.stream text)
  | none => .message message

end StreamItem

namespace StreamKind

inductive Reading
  | message (message : DaemonMessage)
  /-- Nothing yet: more bytes could make a message of them. -/
  | nothing
  | malformed

def message? : StreamKind → Json → Option DaemonMessage
  | .build => DaemonMessage.ofBuild?
  | .push => DaemonMessage.ofPush?

def read (kind : StreamKind) (b : Bytes) : Reading :=
  match Json.parse b with
  | .error .cutOff => .nothing
  | .error .malformed => .malformed
  | .ok .null => .nothing
  | .ok json =>
    match kind.message? json with
    | some message => .message message
    | none => .malformed

def cutLine : Bytes → Bytes × Bytes
  | [] => ([], [])
  | b :: rest =>
    if b = Bytes.newline then ([], rest)
    else (b :: (cutLine rest).1, (cutLine rest).2)

theorem length_cutLine_lt (b : UInt8) (rest : Bytes) :
    (cutLine (b :: rest)).2.length < (b :: rest).length := by
  induction rest generalizing b with
  | nil => by_cases h : b = Bytes.newline <;> simp [cutLine, h]
  | cons c rest ih =>
    by_cases h : b = Bytes.newline
    · simp [cutLine, h]
    · have := ih c
      rw [cutLine, if_neg h]
      simp only [List.length_cons] at this ⊢
      omega

/-- Reads messages as long as each line is one. What is left begins with a line that says nothing,
joined with the one after it. -/
def drain (kind : StreamKind) : Bytes → List DaemonMessage × Except DaemonFault Bytes
  | [] => ([], .ok [])
  | b :: rest =>
    match kind.read (cutLine (b :: rest)).1 with
    | .nothing => ([], .ok ((cutLine (b :: rest)).1 ++ (cutLine (b :: rest)).2))
    | .malformed => ([], .error .malformed)
    | .message message =>
      let (messages, left) := drain kind (cutLine (b :: rest)).2
      (message :: messages, left)
termination_by b => b.length
decreasing_by exact length_cutLine_lt b rest

/-- What a body yields. At its end nothing may be left. -/
def items (kind : StreamKind) (body : Bytes) : List StreamItem :=
  let (first, left) := kind.drain body
  first.map .ofMessage ++
    match left with
    | .error fault => [.fault fault]
    | .ok left =>
      let (last, left) := kind.drain left
      last.map .ofMessage ++
        match left with
        | .error fault => [.fault fault]
        | .ok [] => []
        | .ok (_ :: _) => [.fault .unfinished]

/-- What a body yields that breaks off with `fault`. The beginning of a message is lost then. -/
def itemsUntil (kind : StreamKind) (fault : DaemonFault) (body : Bytes) : List StreamItem :=
  let (first, left) := kind.drain body
  first.map .ofMessage ++
    match left with
    | .error fault => [.fault fault]
    | .ok _ => [.fault fault]

end StreamKind

end ReleasePublisher
