import ReleasePublisher.Proofs.Credentials.Lookup
import ReleasePublisher.Proofs.Text.SixBits

/-!
The text that a configuration stores for a registry. It is read exactly as it is written: as base 64
of a user name, a colon and a password, where the first colon ends the user name. The base 64 of a
text without a colon holds no credentials, and any other text is an authentication error of the
registry.
-/
namespace ReleasePublisher

open Credentials

/-- A text is encoded in one way only. -/
theorem encodes_iff {encoded text : String} :
    Encodes encoded text ↔ encoded = Base64.text (Bytes.ofString text) := by
  rw [Encodes, ← Base64.ofString_text]
  exact ⟨Bytes.ofString_injective, congrArg Bytes.ofString⟩

/-- The first colon of a text divides it. -/
theorem exists_pair {text : String} (h : ':' ∈ text.toList) :
    ∃ username password, ':' ∉ username.toList ∧ text = username ++ ":" ++ password := by
  obtain ⟨front, rest, hsplit, hfront⟩ := List.eq_append_cons_of_mem h
  refine ⟨String.ofList front, String.ofList rest, ?_, ?_⟩
  · rwa [String.toList_ofList]
  · apply String.toList_injective
    rw [hsplit]
    simp

structure Credentials.ReadAsWritten (registry : RegistryHost) (encoded : String) : Prop where
  /-- The password may hold more colons, and both parts may be empty. -/
  credentials_iff : ∀ credentials, decode registry encoded = .ok (some credentials) ↔
    ∃ username password, ':' ∉ username.toList ∧
      encoded = Base64.text (Bytes.ofString (username ++ ":" ++ password)) ∧
      credentials = ⟨username, password, registry⟩
  none_iff : decode registry encoded = .ok none ↔
    ∃ text, ':' ∉ text.toList ∧ encoded = Base64.text (Bytes.ofString text)
  error_iff : (∃ cause, decode registry encoded = .error cause) ↔
    ∀ text, encoded ≠ Base64.text (Bytes.ofString text)
  /-- Of the two filters, base 64 is the first. -/
  notBase64_iff : (∃ fault, decode registry encoded = .error (.notBase64 fault)) ↔
    ∀ d, encoded ≠ Base64.text d
  /-- The error is reported for the registry, wherever the text is stored for it. -/
  authFailed : ∀ cause, decode registry encoded = .error cause →
    ∀ config helpers, config.auths.lookup (keyOf registry) = some (some encoded) →
      ∃ error, inConfiguration config helpers registry = ⟨.error error, []⟩ ∧
        error.toBuildError = .authFailed registry cause.message

section Reading

variable (registry : RegistryHost) {encoded : String}

/-- The pair is cut at the first colon, so that the password may contain others. -/
theorem Credentials.decode_of_pair {username password : String} (h : ':' ∉ username.toList)
    (hencoded : encoded = Base64.text (Bytes.ofString (username ++ ":" ++ password))) :
    decode registry encoded = .ok (some ⟨username, password, registry⟩) := by
  rw [decode_of_encodes registry (encodes_iff.mpr hencoded), ofPair?_append registry h]

theorem Credentials.decode_of_no_colon {text : String} (h : ':' ∉ text.toList)
    (hencoded : encoded = Base64.text (Bytes.ofString text)) :
    decode registry encoded = .ok none := by
  rw [decode_of_encodes registry (encodes_iff.mpr hencoded), ofPair?_of_not_mem registry h]

/-- What was not written by encoding a text is an error. -/
theorem Credentials.decode_of_unwritten
    (h : ∀ text, encoded ≠ Base64.text (Bytes.ofString text)) :
    ∃ cause, decode registry encoded = .error cause := by
  apply exists_cause_of_not_encodes
  intro text hencodes
  exact h text (encodes_iff.mp hencodes)

/-- Every text is of one of three kinds, and each kind is read in its own way. -/
theorem Credentials.decode_cases (encoded : String) :
    (∃ username password, ':' ∉ username.toList ∧
      encoded = Base64.text (Bytes.ofString (username ++ ":" ++ password)) ∧
      decode registry encoded = .ok (some ⟨username, password, registry⟩)) ∨
    (∃ text, ':' ∉ text.toList ∧ encoded = Base64.text (Bytes.ofString text) ∧
      decode registry encoded = .ok none) ∨
    (∀ text, encoded ≠ Base64.text (Bytes.ofString text)) ∧
      ∃ cause, decode registry encoded = .error cause := by
  by_cases hwritten : ∃ text, encoded = Base64.text (Bytes.ofString text)
  · obtain ⟨text, htext⟩ := hwritten
    by_cases hcolon : ':' ∈ text.toList
    · obtain ⟨username, password, husername, rfl⟩ := exists_pair hcolon
      exact Or.inl ⟨username, password, husername, htext, decode_of_pair registry husername htext⟩
    · exact Or.inr (Or.inl ⟨text, hcolon, htext, decode_of_no_colon registry hcolon htext⟩)
  · have hunwritten : ∀ text, encoded ≠ Base64.text (Bytes.ofString text) :=
      fun text htext => hwritten ⟨text, htext⟩
    exact Or.inr (Or.inr ⟨hunwritten, decode_of_unwritten registry hunwritten⟩)

theorem Credentials.notBase64_iff :
    (∃ fault, decode registry encoded = .error (.notBase64 fault)) ↔
      ∀ d, encoded ≠ Base64.text d := by
  constructor
  · rintro ⟨fault, hdecode⟩ d rfl
    have hdecoded := Base64.decode_eq_ok_iff.mpr (Base64.ofString_text d)
    cases htext : Utf8.decode d <;> simp [decode, hdecoded, htext] at hdecode
  · intro h
    cases hdecoded : Base64.decode (Bytes.ofString encoded) with
    | error fault => exact ⟨fault, by simp only [decode, hdecoded]⟩
    | ok d =>
      have hbytes := Base64.decode_eq_ok_iff.mp hdecoded
      rw [← Base64.ofString_text] at hbytes
      exact absurd (Bytes.ofString_injective hbytes) (h d)

end Reading

/-- Reading a stored text undoes the writing of it, and nothing but what has been written is
read. -/
theorem Credentials.decode_readAsWritten (registry : RegistryHost) (encoded : String) :
    ReadAsWritten registry encoded where
  credentials_iff credentials := by
    constructor
    · intro hdecode
      rcases decode_cases registry encoded with ⟨username, password, hcolon, hpair, hread⟩ |
        ⟨text, -, -, hread⟩ | ⟨-, cause, hread⟩
      · rw [hread] at hdecode
        cases hdecode
        exact ⟨username, password, hcolon, hpair, rfl⟩
      · simp [hread] at hdecode
      · simp [hread] at hdecode
    · rintro ⟨username, password, hcolon, hpair, rfl⟩
      exact decode_of_pair registry hcolon hpair
  none_iff := by
    constructor
    · intro hdecode
      rcases decode_cases registry encoded with ⟨username, password, -, -, hread⟩ |
        ⟨text, hcolon, htext, -⟩ | ⟨-, cause, hread⟩
      · simp [hread] at hdecode
      · exact ⟨text, hcolon, htext⟩
      · simp [hread] at hdecode
    · rintro ⟨text, hcolon, htext⟩
      exact decode_of_no_colon registry hcolon htext
  error_iff := by
    constructor
    · rintro ⟨cause, hcause⟩ text htext
      rw [decode_of_encodes registry (encodes_iff.mpr htext)] at hcause
      cases hcause
    · exact decode_of_unwritten registry
  notBase64_iff := notBase64_iff registry
  authFailed cause hcause config helpers hstored := by
    refine ⟨⟨registry, cause⟩, ?_, rfl⟩
    simp only [inConfiguration, encodedFor_eq_some_iff.mpr hstored, hcause]

/-- The password of the second text has a colon of its own; the bits behind the last byte of the
third one are not all zero. -/
example : decode "quay.test" "Og==" = .ok (some ⟨"", "", "quay.test"⟩) ∧
    decode "quay.test" "YTpiOmM=" = .ok (some ⟨"a", "b:c", "quay.test"⟩) ∧
    decode "quay.test" "YTpiOmN=" = .error (.notBase64 (.lastSymbol 6 78)) := by
  decide +kernel

end ReleasePublisher
