import ReleasePublisher.Environment
import ReleasePublisher.Json.Decode
import ReleasePublisher.Time.Timestamp

/-!
What a lock file says: who holds the lock and since when. The record is written as a JSON object; a
lock that is an hour old is stale.
-/
namespace ReleasePublisher

structure LockOwner where
  host : String
  pid : Nat
  pid_lt : pid < UInt32.size := by decide
  deriving DecidableEq, Repr

namespace LockOwner

/-- The name of the host: the first of two variables that is set to text. -/
def hostOf (env : Environment) : String :=
  ((env.text? "HOSTNAME").orElse fun _ => env.text? "HOST").getD "unknown"

def describe (owner : LockOwner) : String :=
  owner.host ++ " (pid " ++ toString owner.pid ++ ")"

end LockOwner

structure LockRecord where
  owner : LockOwner
  acquired : Timestamp
  deriving DecidableEq, Repr

namespace LockRecord

/-- How old a lock gets before it is taken for one that was left behind, in nanoseconds. -/
def staleAge : Int := 3600 * 1000000000

def isStale (record : LockRecord) (now : Timestamp) : Bool :=
  staleAge ≤ now.since record.acquired

def toJson (record : LockRecord) : Json :=
  .ofMembers [("holder", .ofText record.owner.host), ("pid", .ofNat record.owner.pid),
    ("acquired_at", .ofText record.acquired.stored)]

def compactText (record : LockRecord) : Bytes := record.toJson.compact

def fileText (record : LockRecord) : Bytes := record.toJson.pretty 0

def ofJson? (json : Json) : Option LockRecord :=
  match json.fields? ["holder", "pid", "acquired_at"] 3 with
  | some [some holder, some pid, some acquired] => do
    let host ← holder.text?
    let n ← pid.natBelow? UInt32.size
    let t ← acquired.text?.bind Timestamp.parse?
    if h : n < UInt32.size then some ⟨⟨host, n, h⟩, t⟩ else none
  | _ => none

def parse? (content : Bytes) : Option LockRecord :=
  match Utf8.decode? content with
  | some _ => (Json.parse? content).bind ofJson?
  | none => none

end LockRecord

end ReleasePublisher
