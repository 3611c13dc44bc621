import ReleasePublisher.Proofs.Credentials.Separation
import ReleasePublisher.Proofs.Text.Base64
import ReleasePublisher.Proofs.Text.Encoding

/-!
What a search for credentials comes to. A fault of the configuration, or of the text that it stores
for the registry, ends the search; a fault of a helper does not. A stored user name with a password
counts before any helper, and no more than one helper runs. All credentials are for the registry
that was asked for, which has its helper under its name and its text under a key that may differ.
-/
namespace ReleasePublisher

open Credentials

/-- A reference goes to the host that its first segment looks like, and else to Docker Hub. -/
inductive GoesTo (image : String) : RegistryHost → Prop
  | host {front rest : List Char} (split : image.toList = front ++ '/' :: rest)
      (first : '/' ∉ front) (looks : '.' ∈ front ∨ ':' ∈ front ∨ front = "localhost".toList) :
      GoesTo image (String.ofList front)
  | hub (plain : ∀ front rest, image.toList = front ++ '/' :: rest → '/' ∉ front →
      ¬ ('.' ∈ front ∨ ':' ∈ front ∨ front = "localhost".toList)) : GoesTo image "docker.io"

inductive StoredUnder : RegistryHost → String → Prop
  | hub : StoredUnder "docker.io" "https://index.docker.io/v1/"
  | other {registry : RegistryHost} (h : registry ≠ "docker.io") : StoredUnder registry registry

def Encodes (encoded text : String) : Prop :=
  Bytes.ofString encoded = Base64.encode (Bytes.ofString text)

/-- The output of a helper gives a user name and a secret: as the two members of an object that are
called so, next to any others, or as the two items of an array. -/
inductive Tells (output : Bytes) (username secret : String) : Prop
  | members {members : List (Bytes × Json)} {named : List (String × Json)}
      {first second : String × Json}
      (parsed : Json.parse? output = some (.object members))
      (names : Json.namedMembers? members = some named)
      (only_first : named.filter (fun m => m.1 == "Username") = [first])
      (only_second : named.filter (fun m => m.1 == "Secret") = [second])
      (username_eq : first.2.text? = some username)
      (secret_eq : second.2.text? = some secret)
  | items {first second : Json}
      (parsed : Json.parse? output = some (.array [first, second]))
      (username_eq : first.text? = some username)
      (secret_eq : second.text? = some secret)

/-- A lookup fails with nothing but an authentication error, before any helper runs. -/
def Credentials.Lookup.FailsFor (lookup : Lookup) (subject : String) : Prop :=
  ∃ error, lookup = ⟨.error error, []⟩ ∧
    ∃ message, error.toBuildError = .authFailed subject message

structure Answers (config : ClientConfiguration) (helpers : Helpers) (registry : RegistryHost)
    (key : String) (lookup : Lookup) : Prop where
  /-- A stored text that encodes nothing is an error. -/
  garbled : ∀ encoded, config.auths.lookup key = some (some encoded) →
    (∀ text, ¬ Encodes encoded text) → lookup.FailsFor registry
  /-- The first colon ends the user name. -/
  inline : ∀ encoded username password,
    config.auths.lookup key = some (some encoded) →
    ':' ∉ username.toList → Encodes encoded (username ++ ":" ++ password) →
    lookup = ⟨.ok (some ⟨username, password, registry⟩), []⟩
  /-- Without stored credentials, access is anonymous when there is no helper. -/
  anonymous : (∀ encoded, config.auths.lookup key = some (some encoded) →
      ∃ text, Encodes encoded text ∧ ':' ∉ text.toList) →
    config.helpers.lookup registry = none → config.store = none → lookup = ⟨.ok none, []⟩
  /-- Without stored credentials, the registry's own helper is asked, or else the general one. -/
  asked : (∀ encoded, config.auths.lookup key = some (some encoded) →
      ∃ text, Encodes encoded text ∧ ':' ∉ text.toList) →
    ∀ helper, config.helpers.lookup registry = some helper ∨
        config.helpers.lookup registry = none ∧ config.store = some helper →
      match helpers ⟨helper, key⟩ with
      | none => lookup = ⟨.ok none, []⟩
      | some answer => ∃ found, lookup = ⟨.ok found, [⟨helper, key⟩]⟩ ∧
          ∀ credentials, found = some credentials ↔
            answer.succeeded = true ∧ ∃ username secret, Tells answer.output username secret ∧
              credentials = ⟨username, secret, registry⟩

theorem Credentials.decode_of_encodes (registry : RegistryHost) {encoded text : String}
    (h : Encodes encoded text) : decode registry encoded = .ok (ofPair? registry text) := by
  have hdecoded := Base64.decode_eq_ok_iff.mpr h
  have htext := Utf8.decode_eq_ok_iff.mpr (Eq.refl (Bytes.ofString text))
  simp only [decode, hdecoded, htext]

theorem Credentials.exists_cause_of_not_encodes (registry : RegistryHost) {encoded : String}
    (h : ∀ text, ¬ Encodes encoded text) : ∃ cause, decode registry encoded = .error cause := by
  cases hdecoded : Base64.decode (Bytes.ofString encoded) with
  | error fault => exact ⟨.notBase64 fault, by simp only [decode, hdecoded]⟩
  | ok decoded =>
    cases htext : Utf8.decode decoded with
    | error fault => exact ⟨.notText fault, by simp only [decode, hdecoded, htext]⟩
    | ok text =>
      refine absurd ?_ (h text)
      rw [Encodes, ← Utf8.decode_eq_ok_iff.mp htext]
      exact Base64.decode_eq_ok_iff.mp hdecoded

theorem Credentials.ofPair?_append (registry : RegistryHost) {username : String}
    (h : ':' ∉ username.toList) (password : String) :
    ofPair? registry (username ++ ":" ++ password) = some ⟨username, password, registry⟩ := by
  have hsplit : (username ++ ":" ++ password).toList =
      username.toList ++ ':' :: password.toList := by simp
  rw [ofPair?, hsplit, splitAtFirst_append h]
  simp

theorem Credentials.ofPair?_of_not_mem (registry : RegistryHost) {text : String}
    (h : ':' ∉ text.toList) : ofPair? registry text = none := by
  rw [ofPair?, splitAtFirst_of_not_mem h]
  rfl

section Configuration

variable {config : ClientConfiguration} {helpers : Helpers} {registry : RegistryHost}

theorem Credentials.encodedFor_eq_some_iff {encoded : String} :
    encodedFor config registry = some encoded ↔
      config.auths.lookup (keyOf registry) = some (some encoded) := by
  rw [encodedFor, Option.join_eq_some_iff]

end Configuration

/-- A reference goes to one registry only. -/
theorem GoesTo.eq {image : String} {registry : RegistryHost} (h : GoesTo image registry) :
    registry = RegistryHost.ofImage image := by
  cases h with
  | host split first looks => rw [RegistryHost.ofImage_of_segment first split, if_pos looks]
  | hub plain =>
    by_cases hslash : '/' ∈ image.toList
    · obtain ⟨front, rest, himage, hfront⟩ := List.eq_append_cons_of_mem hslash
      rw [RegistryHost.ofImage_of_segment hfront himage, if_neg (plain front rest himage hfront)]
      rfl
    · rw [RegistryHost.ofImage, splitAtFirst_of_not_mem hslash]
      rfl

/-- A registry has only one key. -/
theorem StoredUnder.eq {registry : RegistryHost} {key : String} (h : StoredUnder registry key) :
    key = keyOf registry := by
  cases h with
  | hub => rfl
  | other h => exact (if_neg h).symm

namespace Sample

def named : String :=
  "\x7b\"auths\": \x7b\"docker.io\": \x7b\"auth\": \"dTpw\"\x7d\x7d, " ++
    "\"credHelpers\": \x7b\"docker.io\": \"hub\"\x7d\x7d"

end Sample

end ReleasePublisher
