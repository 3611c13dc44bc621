import ReleasePublisher.Text.Utf8

/-!
Texts as bytes. The bytes of a text are those of its characters, and reading them gives the text
back. A character of the ASCII range is a single byte, and all bytes of another one lie beyond that
range.
-/
namespace ReleasePublisher

theorem toList_loop (b : ByteArray) (i : Nat) (seen : Bytes) :
    ByteArray.toList.loop b i seen = seen.reverse ++ b.data.toList.drop i := by
  rw [ByteArray.toList.loop]
  split
  · next h =>
    have hlength : i < b.data.toList.length := by simpa using h
    have hget : b.get! i = b.data.toList[i] := getElem!_pos b.data i hlength
    rw [toList_loop b (i + 1), List.drop_eq_getElem_cons hlength, hget]
    simp
  · next h =>
    have hlength : b.data.toList.length ≤ i := by simpa using h
    rw [List.drop_eq_nil_of_le hlength, List.append_nil]
termination_by b.size - i

namespace Bytes

theorem ofString_eq_data (s : String) : ofString s = s.toByteArray.data.toList := by
  rw [ofString, String.toUTF8_eq_toByteArray, ByteArray.toList, toList_loop]
  simp

theorem toByteArray_ofString (s : String) : (ofString s).toByteArray = s.toByteArray := by
  rw [ofString_eq_data]
  ext1
  simp

theorem ofString_append (s t : String) : ofString (s ++ t) = ofString s ++ ofString t := by
  simp [ofString_eq_data, String.toByteArray_append]

/-- The bytes of some characters. -/
theorem ofString_ofList (cs : List Char) :
    ofString (String.ofList cs) = cs.flatMap String.utf8EncodeChar := by
  rw [ofString_eq_data, String.toByteArray_ofList, List.utf8Encode]
  simp

end Bytes

theorem Utf8.decode?_ofString (s : String) : Utf8.decode? (Bytes.ofString s) = some s := by
  rw [decode?, Bytes.toByteArray_ofString, String.fromUTF8?, dif_pos s.isValidUTF8]
  rfl

theorem Bytes.ofString_injective {s t : String} (h : ofString s = ofString t) : s = t := by
  have hread := congrArg Utf8.decode? h
  rw [Utf8.decode?_ofString, Utf8.decode?_ofString] at hread
  exact Option.some.inj hread

/-- Only the bytes of a text are read as that text. -/
theorem Utf8.decode?_eq_some_iff {b : Bytes} {s : String} :
    Utf8.decode? b = some s ↔ b = Bytes.ofString s := by
  constructor
  · intro h
    rw [Utf8.decode?, String.fromUTF8?] at h
    split at h
    · next hvalid =>
      rw [Bytes.ofString_eq_data, ← Option.some.inj h, String.fromUTF8]
      simp
    · simp at h
  · rintro rfl
    exact Utf8.decode?_ofString s

/-- Bytes are decoded to the text whose bytes they are, and to no other. -/
theorem Utf8.decode_eq_ok_iff {b : Bytes} {s : String} :
    Utf8.decode b = .ok s ↔ b = Bytes.ofString s := by
  rw [← Utf8.decode?_eq_some_iff, Utf8.decode, Utf8.decode?]
  split
  · next read hread => simp [hread]
  · next hread => simp [hread]

theorem utf8EncodeChar_of_lt {c : Char} (h : c.toNat < 128) :
    String.utf8EncodeChar c = [UInt8.ofNat c.toNat] := by
  have hval : c.val.toNat ≤ 127 := by
    have heq : c.val.toNat = c.toNat := rfl
    omega
  rw [String.utf8EncodeChar]
  simp only [if_pos hval]
  rfl

theorem flatMap_utf8EncodeChar_of_lt {cs : List Char} (h : ∀ c ∈ cs, c.toNat < 128) :
    cs.flatMap String.utf8EncodeChar = cs.map fun c => UInt8.ofNat c.toNat := by
  induction cs with
  | nil => rfl
  | cons c cs ih =>
    rw [List.flatMap_cons, List.map_cons, utf8EncodeChar_of_lt (h c List.mem_cons_self),
      ih fun d hd => h d (List.mem_cons_of_mem c hd)]
    rfl

theorem le_of_mem_utf8EncodeChar {c : Char} {b : UInt8} (h : 128 ≤ c.toNat)
    (hb : b ∈ String.utf8EncodeChar c) : 128 ≤ b.toNat := by
  have hval : ¬ c.val.toNat ≤ 127 := by
    have heq : c.val.toNat = c.toNat := rfl
    omega
  rw [String.utf8EncodeChar] at hb
  simp only [if_neg hval] at hb
  split at hb
  · simp only [List.mem_cons, List.not_mem_nil, or_false] at hb
    rcases hb with rfl | rfl <;> simp only [UInt8.toNat_ofNat'] <;> omega
  · split at hb
    · simp only [List.mem_cons, List.not_mem_nil, or_false] at hb
      rcases hb with rfl | rfl | rfl <;> simp only [UInt8.toNat_ofNat'] <;> omega
    · simp only [List.mem_cons, List.not_mem_nil, or_false] at hb
      rcases hb with rfl | rfl | rfl | rfl <;> simp only [UInt8.toNat_ofNat'] <;> omega

def IsText (b : Bytes) : Prop := ∃ s, b = Bytes.ofString s

theorem IsText.append {a b : Bytes} (ha : IsText a) (hb : IsText b) : IsText (a ++ b) := by
  obtain ⟨s, rfl⟩ := ha
  obtain ⟨t, rfl⟩ := hb
  exact ⟨s ++ t, (Bytes.ofString_append s t).symm⟩

theorem isText_of_lt {bytes : Bytes} (h : ∀ b ∈ bytes, b.toNat < 128) : IsText bytes := by
  have hchar : ∀ b ∈ bytes, (Char.ofNat b.toNat).toNat = b.toNat := by
    intro b hb
    have hvalid : b.toNat.isValidChar := Or.inl (Nat.lt_trans (h b hb) (by decide))
    rw [Char.ofNat, dif_pos hvalid]
    rfl
  have hascii : ∀ c ∈ bytes.map (fun b => Char.ofNat b.toNat), c.toNat < 128 := by
    intro c hc
    obtain ⟨b, hb, rfl⟩ := List.mem_map.mp hc
    rw [hchar b hb]
    exact h b hb
  refine ⟨String.ofList (bytes.map fun b => Char.ofNat b.toNat), ?_⟩
  rw [Bytes.ofString_ofList, flatMap_utf8EncodeChar_of_lt hascii, List.map_map]
  refine (List.map_id' bytes).symm.trans (List.map_congr_left fun b hb => ?_)
  rw [Function.comp_apply, hchar b hb, UInt8.ofNat_toNat]

theorem isText_singleton {b : UInt8} (h : b.toNat < 128) : IsText [b] :=
  isText_of_lt (List.forall_mem_singleton.mpr h)

theorem IsText.exists_decode? {b : Bytes} (h : IsText b) : ∃ s, Utf8.decode? b = some s := by
  obtain ⟨s, rfl⟩ := h
  exact ⟨s, Utf8.decode?_ofString s⟩

end ReleasePublisher
