import ReleasePublisher.Context.Archive
import ReleasePublisher.Credentials.Lookup
import ReleasePublisher.Daemon.Address
import ReleasePublisher.Daemon.Message

/-!
Requests to the container daemon and its answers. An answer has a status; where that means success,
its body may be read as a stream of messages. The connection may fail before the answer comes or in
the middle of it.
-/
namespace ReleasePublisher

inductive DaemonRequest
  | ping
  | build (dockerfile tag : String) (noCache pull : Bool) (context : List ArchiveEntry)
  | inspect (image : String)
  /-- Access is anonymous without credentials. -/
  | push (repository tag : String) (credentials : Option Credentials)
  deriving DecidableEq, Repr

inductive DaemonAnswer
  | reply (status : Nat) (body : Bytes)
  /-- The connection fails when this much of the answer has come, if anything has. -/
  | broken (part : Option (Nat × Bytes)) (reason : String)
  /-- There is no answer, and the program is asked to stop meanwhile. -/
  | silence
  deriving DecidableEq, Repr

abbrev Transport (δ : Type) := DaemonRequest → δ → DaemonAnswer × δ

namespace DaemonRequest

def path : DaemonRequest → String
  | .ping => "/_ping"
  | .build .. => "/build"
  | .inspect image => Address.path ("/images/" ++ image ++ "/json")
  | .push repository _ _ => Address.path ("/images/" ++ repository ++ "/push")

end DaemonRequest

namespace DaemonAnswer

/-- Whether a status means success. A daemon that changes protocols, or finds nothing changed, has
no complaint either. -/
def isSuccess (status : Nat) : Bool :=
  status == 101 || (200 ≤ status && status < 300) || status == 304

/-- Whether an answer with this status has no body, whatever is sent with it. -/
def isBodiless (status : Nat) : Bool := status == 101 || status == 204 || status == 304

def refusalText (body : Bytes) : String :=
  let text := Utf8.lossy body
  match (Json.parse? (Bytes.ofString text)).bind (·.fields? ["message"] 1) with
  | some [some message] => message.text?.getD text
  | _ => text

def refusal? (status : Nat) (body : Bytes) : Option DaemonFault :=
  if isSuccess status then none else some (.refused status (refusalText body))

def content (status : Nat) (body : Bytes) : Bytes := if isBodiless status then [] else body

def describing? (status : Nat) (body : Bytes) : Option DaemonFault :=
  match refusal? status body with
  | some fault => some fault
  | none =>
    match Json.parse? (content status body) with
    | some (.object _) => none
    | _ => some (if (content status body).isEmpty then .missing else .malformed)

def items (kind : StreamKind) (status : Nat) (body : Bytes) : List StreamItem :=
  match refusal? status body with
  | some fault => [.fault fault]
  | none => kind.items (content status body)

/-- A refusal is read as a whole, so that a part of one says nothing. -/
def brokenItems (kind : StreamKind) (part : Option (Nat × Bytes)) (fault : DaemonFault) :
    List StreamItem :=
  match part with
  | none => [.fault fault]
  | some (status, body) =>
    if isSuccess status then kind.itemsUntil fault (content status body) else [.fault fault]

def stream? (kind : StreamKind) : DaemonAnswer → Option (List StreamItem)
  | .reply status body => some (items kind status body)
  | .broken part reason => some (brokenItems kind part (.broken reason))
  | .silence => none

end DaemonAnswer

end ReleasePublisher
