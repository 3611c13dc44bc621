import ReleasePublisher.Json.Decode
import ReleasePublisher.Proofs.Text.Encoding

/-!
Texts in quotes. A text is read back from its literal: each character is escaped in a way that ends
neither too early nor too late, and that is decoded as the character.
-/
namespace ReleasePublisher

namespace Json

structure IsPlain (b : UInt8) : Prop where
  ne_quote : b ≠ 34
  ne_backslash : b ≠ 92
  le : 32 ≤ b

theorem scanString_plain {b : UInt8} (h : IsPlain b) (seen rest : Bytes) :
    scanString seen (b :: rest) = scanString (b :: seen) rest := by
  obtain ⟨hquote, hbackslash, hle⟩ := h
  have hcontrol : ¬ b < 32 := UInt8.not_lt.mpr hle
  rw [scanString.eq_def]
  split <;> grind

theorem unescape_plain {b : UInt8} (h : IsPlain b) (seen rest : Bytes) :
    unescape seen (b :: rest) = unescape (b :: seen) rest := by
  obtain ⟨-, hbackslash, -⟩ := h
  rw [unescape.eq_def]
  split <;> simp_all

/-- Bytes that are read with some others after them. -/
theorem scanString_plains {bytes : Bytes} (h : ∀ b ∈ bytes, IsPlain b) (seen rest : Bytes) :
    scanString seen (bytes ++ rest) = scanString (bytes.reverse ++ seen) rest := by
  induction bytes generalizing seen with
  | nil => rfl
  | cons b bytes ih =>
    rw [List.cons_append, scanString_plain (h b List.mem_cons_self),
      ih fun c hc => h c (List.mem_cons_of_mem b hc)]
    simp

theorem unescape_plains {bytes : Bytes} (h : ∀ b ∈ bytes, IsPlain b) (seen rest : Bytes) :
    unescape seen (bytes ++ rest) = unescape (bytes.reverse ++ seen) rest := by
  induction bytes generalizing seen with
  | nil => rfl
  | cons b bytes ih =>
    rw [List.cons_append, unescape_plain (h b List.mem_cons_self),
      ih fun c hc => h c (List.mem_cons_of_mem b hc)]
    simp

/-- How the escape of a character is read: up to its end when a literal is looked for, and as the
character when it is decoded. -/
structure Escapes (bytes : Bytes) (c : Char) : Prop where
  scanString_eq : ∀ seen rest,
    scanString seen (bytes ++ rest) = scanString (bytes.reverse ++ seen) rest
  unescape_eq : ∀ seen rest,
    unescape seen (bytes ++ rest) = unescape ((String.utf8EncodeChar c).reverse ++ seen) rest

theorem escapes_plain {c : Char} (hquote : c ≠ '"') (hbackslash : c ≠ '\\') (hle : 32 ≤ c.toNat) :
    Escapes (String.utf8EncodeChar c) c := by
  have hplain : ∀ b ∈ String.utf8EncodeChar c, IsPlain b := by
    intro b hb
    have hb' : b.toNat = c.toNat ∨ 128 ≤ b.toNat := by
      by_cases hascii : c.toNat < 128
      · rw [utf8EncodeChar_of_lt hascii, List.mem_singleton] at hb
        left
        rw [hb, UInt8.toNat_ofNat']
        omega
      · exact Or.inr (le_of_mem_utf8EncodeChar (Nat.le_of_not_lt hascii) hb)
    have hquote' : c.toNat ≠ 34 := fun heq => hquote (Char.toNat_inj.mp heq)
    have hbackslash' : c.toNat ≠ 92 := fun heq => hbackslash (Char.toNat_inj.mp heq)
    refine ⟨?_, ?_, ?_⟩
    · rintro rfl
      simp at hb'
      omega
    · rintro rfl
      simp at hb'
      omega
    · rw [UInt8.le_iff_toNat_le]
      simp
      omega
  exact ⟨scanString_plains hplain, unescape_plains hplain⟩

theorem escapes_short {e : UInt8} (hshort : isShortEscape e) (hne : e ≠ 117) {c : Char}
    (hc : String.utf8EncodeChar c = [shortEscape e]) : Escapes [92, e] c := by
  constructor
  · intro seen rest
    rw [List.cons_append, List.singleton_append, scanString.eq_def]
    split <;> grind
  · intro seen rest
    rw [List.cons_append, List.singleton_append, unescape.eq_def, hc]
    split <;> grind

theorem encodeChar_eq (n : Nat) : encodeChar n = String.utf8EncodeChar (Char.ofNat n) := by
  have hsingleton : String.singleton (Char.ofNat n) = String.ofList [Char.ofNat n] := by
    rw [← String.toList_inj]
    simp
  rw [encodeChar, hsingleton, Bytes.ofString_ofList]
  simp

/-- A character may be escaped by its number. -/
theorem escapes_unit {a b c d : UInt8}
    (hdigits : isHexDigit a && isHexDigit b && isHexDigit c && isHexDigit d)
    (hlow : isLowSurrogate (unit a b c d) = false)
    (hhigh : isHighSurrogate (unit a b c d) = false) :
    Escapes [92, 117, a, b, c, d] (Char.ofNat (unit a b c d)) := by
  constructor
  · intro seen rest
    simp only [List.cons_append, List.nil_append]
    rw [scanString, if_pos hdigits]
    rfl
  · intro seen rest
    simp only [List.cons_append, List.nil_append]
    rw [unescape.eq_def]
    simp [hlow, hhigh, encodeChar_eq]

theorem escapes_control {c : Char} (h : c.toNat < 32) :
    Escapes ((['\\', 'u', '0', '0', hexDigit (c.toNat / 16), hexDigit (c.toNat % 16)]).flatMap
      String.utf8EncodeChar) c := by
  have hall : ∀ n < 32,
      let a := UInt8.ofNat (hexDigit (n / 16)).toNat
      let b := UInt8.ofNat (hexDigit (n % 16)).toNat
      (['\\', 'u', '0', '0', hexDigit (n / 16), hexDigit (n % 16)]).flatMap
          String.utf8EncodeChar = [92, 117, 48, 48, a, b] ∧
        isHexDigit a ∧ isHexDigit b ∧ unit 48 48 a b = n := by
    decide +kernel
  obtain ⟨a, b, hbytes, ha, hb, hunit⟩ : ∃ a b, (['\\', 'u', '0', '0', hexDigit (c.toNat / 16),
        hexDigit (c.toNat % 16)]).flatMap String.utf8EncodeChar = [92, 117, 48, 48, a, b] ∧
      isHexDigit a ∧ isHexDigit b ∧ unit 48 48 a b = c.toNat := ⟨_, _, hall c.toNat h⟩
  have hlow : isLowSurrogate (unit 48 48 a b) = false := by
    rw [hunit, isLowSurrogate, Bool.and_eq_false_iff, decide_eq_false_iff_not]
    omega
  have hhigh : isHighSurrogate (unit 48 48 a b) = false := by
    rw [hunit, isHighSurrogate, Bool.and_eq_false_iff, decide_eq_false_iff_not]
    omega
  have hescapes := escapes_unit (by rw [ha, hb]; decide) hlow hhigh
  rwa [hunit, Char.ofNat_toNat, ← hbytes] at hescapes

/-- Every character has an escape that is read as the character. -/
theorem escapes_escapeChar (c : Char) :
    Escapes ((escapeChar c).flatMap String.utf8EncodeChar) c := by
  -- the characters with an escape of their own come one by one
  have hshort : ∀ (d : Char) (e : UInt8), c = d → isShortEscape e → e ≠ 117 →
      String.utf8EncodeChar d = [shortEscape e] →
      ['\\', Char.ofNat e.toNat].flatMap String.utf8EncodeChar = [92, e] →
      Escapes (['\\', Char.ofNat e.toNat].flatMap String.utf8EncodeChar) c := by
    rintro d e rfl hshort hne hbytes hescape
    rw [hescape]
    exact escapes_short hshort hne hbytes
  unfold escapeChar
  split
  · exact hshort '"' 34 ‹_› rfl (by decide) (by decide) (by decide)
  split
  · exact hshort '\\' 92 ‹_› rfl (by decide) (by decide) (by decide)
  split
  · exact hshort '\n' 110 ‹_› rfl (by decide) (by decide) (by decide)
  split
  · exact hshort '\r' 114 ‹_› rfl (by decide) (by decide) (by decide)
  split
  · exact hshort '\t' 116 ‹_› rfl (by decide) (by decide) (by decide)
  split
  · exact hshort (Char.ofNat 8) 98 ‹_› rfl (by decide) (by decide) (by decide)
  split
  · exact hshort (Char.ofNat 12) 102 ‹_› rfl (by decide) (by decide) (by decide)
  split
  · exact escapes_control ‹_›
  · next hquote hbackslash _ _ _ _ _ hcontrol =>
    rw [List.flatMap_singleton]
    exact escapes_plain hquote hbackslash (Nat.le_of_not_lt hcontrol)

/-- A literal ends at its quote, whatever it is a literal of. -/
theorem scanString_escape (cs : List Char) (seen rest : Bytes) :
    scanString seen ((escape cs).flatMap String.utf8EncodeChar ++ 34 :: rest) =
      .ok (seen.reverse ++ (escape cs).flatMap String.utf8EncodeChar, rest) := by
  induction cs generalizing seen with
  | nil => simp [escape, scanString]
  | cons c cs ih =>
    have hsplit : (escape (c :: cs)).flatMap String.utf8EncodeChar =
        (escapeChar c).flatMap String.utf8EncodeChar ++
          (escape cs).flatMap String.utf8EncodeChar := by
      simp [escape]
    rw [hsplit, List.append_assoc, (escapes_escapeChar c).scanString_eq, ih]
    simp

/-- To escape a text and to read the escapes gives its bytes back. -/
theorem unescape_escape (cs : List Char) (seen : Bytes) :
    unescape seen ((escape cs).flatMap String.utf8EncodeChar) =
      some (seen.reverse ++ cs.flatMap String.utf8EncodeChar) := by
  induction cs generalizing seen with
  | nil => simp [escape, unescape]
  | cons c cs ih =>
    have hsplit : (escape (c :: cs)).flatMap String.utf8EncodeChar =
        (escapeChar c).flatMap String.utf8EncodeChar ++
          (escape cs).flatMap String.utf8EncodeChar := by
      simp [escape]
    rw [hsplit, (escapes_escapeChar c).unescape_eq, ih]
    simp

def literalOf (s : String) : Bytes := Bytes.ofString (String.ofList (escape s.toList))

theorem ofText_eq (s : String) : ofText s = .string (literalOf s) := rfl

theorem scanString_literalOf (s : String) (rest : Bytes) :
    scanString [] (literalOf s ++ 34 :: rest) = .ok (literalOf s, rest) := by
  rw [literalOf, Bytes.ofString_ofList, scanString_escape]
  rfl

/-- Every text is read back from its literal. -/
theorem literalText?_literalOf (s : String) : literalText? (literalOf s) = some s := by
  have hbytes : s.toList.flatMap String.utf8EncodeChar = Bytes.ofString s := by
    rw [← Bytes.ofString_ofList, String.ofList_toList]
  rw [literalText?, literalOf, Bytes.ofString_ofList, unescape_escape]
  simp [hbytes, Utf8.decode?_ofString]

end Json

end ReleasePublisher
