import ReleasePublisher.Environment
import ReleasePublisher.FileSystem.Operations
import ReleasePublisher.Json.Decode

/-!
The client configuration, which holds credentials for registries or names the helpers that know
them. It is only ever read.
-/
namespace ReleasePublisher

structure ClientConfiguration where
  /-- Encoded user names and passwords by key. -/
  auths : List (String × Option String) := []
  /-- The helpers of single registries. -/
  helpers : List (String × String) := []
  /-- The helper of all other registries. -/
  store : Option String := none
  deriving DecidableEq, Repr, Inhabited

namespace ClientConfiguration

def fileName : Path := .ofString "config.json"

def defaultHome : Path := .ofString "/root"

def homeDirectory (env : Environment) : Path :=
  match env.value? "HOME" with
  | none => defaultHome
  | some [] => defaultHome
  | some text => ⟨text⟩

def directory (env : Environment) : Path :=
  match env.text? "DOCKER_CONFIG" with
  | some text => .ofString text
  | none => homeDirectory env / .ofString ".docker"

def path (env : Environment) : Path := directory env / fileName

/-- The encoded text of an entry. In an array it must be there. -/
def authText? (json : Json) : Option (Option String) :=
  match json.fields? ["auth"] 1 with
  | some [some auth] => auth.optionalText?
  | some [none] => some none
  | _ => none

def orElse {α : Type} (missing : α) (value? : Json → Option α) : Option Json → Option α
  | some json => value? json
  | none => some missing

def ofJson? (json : Json) : Option ClientConfiguration :=
  match json.fields? ["auths", "credHelpers", "credsStore"] 0 with
  | some [auths, helpers, store] => do
    let auths ← orElse [] (Json.map? authText?) auths
    let helpers ← orElse [] (Json.map? Json.text?) helpers
    let store ← orElse none Json.optionalText? store
    return ⟨auths, helpers, store⟩
  | _ => none

def parse? (text : String) : Option ClientConfiguration :=
  (Json.parse? (Bytes.ofString text)).bind ofJson?

end ClientConfiguration

end ReleasePublisher
