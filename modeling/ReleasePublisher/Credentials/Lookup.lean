import ReleasePublisher.BuildError
import ReleasePublisher.Credentials.Configuration
import ReleasePublisher.Image.Reference
import ReleasePublisher.Text.Base64

/-!
The credentials for a registry. They stand in the configuration itself, or else at most one helper
is asked for them; without any, access is anonymous. A faulty configuration is an error, a helper
that fails is not.
-/
namespace ReleasePublisher

structure Credentials where
  username : String
  password : String
  /-- The registry that they are for. -/
  server : String
  deriving DecidableEq, Repr

structure HelperRun where
  helper : String
  input : String
  deriving DecidableEq, Repr

structure HelperAnswer where
  succeeded : Bool
  output : Bytes
  deriving DecidableEq, Repr

/-- The helpers that there are. There is no answer from one that cannot be run. -/
abbrev Helpers := HelperRun → Option HelperAnswer

inductive CredentialCause
  | unreadable (fault : FileFault)
  | malformed
  | notBase64 (fault : Base64.Fault)
  | notText (fault : Utf8Fault)
  deriving DecidableEq, Repr

namespace CredentialCause

def message : CredentialCause → String
  | .unreadable fault => "Failed to read config.json: " ++ fault.message
  | .malformed => "Failed to parse config.json: not a client configuration"
  | .notBase64 fault => "Failed to decode auth: " ++ fault.message
  | .notText fault => "Invalid UTF-8 in auth: " ++ fault.message

end CredentialCause

structure CredentialError where
  /-- The registry, or the path of a configuration that cannot be read. -/
  subject : String
  cause : CredentialCause
  deriving DecidableEq, Repr

namespace CredentialError

def toBuildError (e : CredentialError) : BuildError := .authFailed e.subject e.cause.message

end CredentialError

namespace Credentials

/-- The name under which a registry stands in the configuration. -/
def keyOf (registry : RegistryHost) : String :=
  if registry = RegistryHost.default then "https://index.docker.io/v1/" else registry

def ofPair? (registry : RegistryHost) (pair : String) : Option Credentials :=
  (splitAtFirst ':' pair.toList).map fun (username, password) =>
    ⟨String.ofList username, String.ofList password, registry⟩

def decode (registry : RegistryHost) (encoded : String) :
    Except CredentialCause (Option Credentials) :=
  match Base64.decode (Bytes.ofString encoded) with
  | .error fault => .error (.notBase64 fault)
  | .ok decoded =>
    match Utf8.decode decoded with
    | .error fault => .error (.notText fault)
    | .ok pair => .ok (ofPair? registry pair)

def ofAnswer? (registry : RegistryHost) (answer : HelperAnswer) : Option Credentials :=
  if answer.succeeded then
    match (Json.parse? answer.output).bind (·.fields? ["Username", "Secret"] 2) with
    | some [some username, some secret] => do
      return ⟨← username.text?, ← secret.text?, registry⟩
    | _ => none
  else none

structure Lookup where
  result : Except CredentialError (Option Credentials)
  runs : List HelperRun := []
  deriving Repr

def encodedFor (config : ClientConfiguration) (registry : RegistryHost) : Option String :=
  (config.auths.lookup (keyOf registry)).join

def helperFor (config : ClientConfiguration) (registry : RegistryHost) : Option String :=
  (config.helpers.lookup registry).orElse fun _ => config.store

def askHelper (config : ClientConfiguration) (helpers : Helpers) (registry : RegistryHost) :
    Lookup :=
  match helperFor config registry with
  | none => ⟨.ok none, []⟩
  | some helper =>
    let run : HelperRun := ⟨helper, keyOf registry⟩
    match helpers run with
    | none => ⟨.ok none, []⟩
    | some answer => ⟨.ok (ofAnswer? registry answer), [run]⟩

def inConfiguration (config : ClientConfiguration) (helpers : Helpers)
    (registry : RegistryHost) : Lookup :=
  match encodedFor config registry with
  | none => askHelper config helpers registry
  | some encoded =>
    match decode registry encoded with
    | .error cause => ⟨.error ⟨registry, cause⟩, []⟩
    | .ok (some credentials) => ⟨.ok (some credentials), []⟩
    | .ok none => askHelper config helpers registry

def find (fs : FileSystem) (configPath : Path) (helpers : Helpers) (image : String) : Lookup :=
  if fs.leads configPath then
    match fs.readText configPath with
    | .error fault => ⟨.error ⟨configPath.display, .unreadable fault⟩, []⟩
    | .ok text =>
      match ClientConfiguration.parse? text with
      | none => ⟨.error ⟨configPath.display, .malformed⟩, []⟩
      | some config => inConfiguration config helpers (RegistryHost.ofImage image)
  else ⟨.ok none, []⟩

end Credentials

end ReleasePublisher
