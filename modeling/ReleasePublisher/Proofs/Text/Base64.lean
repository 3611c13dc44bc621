import ReleasePublisher.Text.Base64

/-!
Base 64 is read as it is written: decoding gives the bytes back, and it accepts no other writing.
Missing padding, unused bits that are set and bytes behind the padding are all refused, so that
every byte string has one written form.
-/
namespace ReleasePublisher.Base64

/-- A fact about all bytes, from the 256 of them. -/
theorem forall_byte {P : UInt8 → Prop} (h : ∀ n < 256, P (UInt8.ofNat n)) (b : UInt8) : P b := by
  have hb := h b.toNat b.toNat_lt
  rwa [UInt8.ofNat_toNat] at hb

theorem value?_symbol {n : Nat} (h : n < 64) : value? (symbol n) = some n := by
  revert n
  decide

theorem symbol_of_value? {b : UInt8} {n : Nat} (h : value? b = some n) :
    symbol n = b ∧ n < 64 := by
  have hall : ∀ b, (value? b).all (fun n => symbol n = b ∧ n < 64) = true :=
    forall_byte (by decide +kernel)
  have hb := hall b
  rw [h] at hb
  simpa using hb

@[simp] theorem value?_pad : value? pad = none := rfl

/-! Three bytes have the bits of four values of six bits, and these values are read off them. -/

theorem high_lt (a : UInt8) : a.toNat / 4 < 64 := by
  have ha := a.toNat_lt
  omega

theorem middle_lt (a b : UInt8) : a.toNat % 4 * 16 + b.toNat / 16 < 64 := by
  have hb := b.toNat_lt
  omega

theorem low_lt (b c : UInt8) : b.toNat % 16 * 4 + c.toNat / 64 < 64 := by
  have hc := c.toNat_lt
  omega

theorem group_of_bytes (a b c : UInt8) :
    group (a.toNat / 4) (a.toNat % 4 * 16 + b.toNat / 16) (b.toNat % 16 * 4 + c.toNat / 64)
      (c.toNat % 64) = [a, b, c] := by
  have ha := a.toNat_lt
  have hb := b.toNat_lt
  have hc := c.toNat_lt
  have hfirst : a.toNat / 4 * 4 + (a.toNat % 4 * 16 + b.toNat / 16) / 16 = a.toNat := by omega
  have hsecond : (a.toNat % 4 * 16 + b.toNat / 16) % 16 * 16 +
      (b.toNat % 16 * 4 + c.toNat / 64) / 4 = b.toNat := by omega
  have hthird : (b.toNat % 16 * 4 + c.toNat / 64) % 4 * 64 + c.toNat % 64 = c.toNat := by omega
  simp only [group, hfirst, hsecond, hthird, UInt8.ofNat_toNat]

theorem encode_group {p q r s : Nat} (hp : p < 64) (hq : q < 64) (hr : r < 64) (hs : s < 64)
    (rest : Bytes) :
    encode (group p q r s ++ rest) =
      symbol p :: symbol q :: symbol r :: symbol s :: encode rest := by
  have hfirst : (p * 4 + q / 16) % 256 / 4 = p := by omega
  have hsecond : (p * 4 + q / 16) % 256 % 4 * 16 + (q % 16 * 16 + r / 4) % 256 / 16 = q := by omega
  have hthird : (q % 16 * 16 + r / 4) % 256 % 16 * 4 + (r % 4 * 64 + s) % 256 / 64 = r := by omega
  have hfourth : (r % 4 * 64 + s) % 256 % 64 = s := by omega
  simp only [group, List.cons_append, List.nil_append, encode, UInt8.toNat_ofNat', hfirst,
    hsecond, hthird, hfourth]

theorem encode_pair {p q r : Nat} (hp : p < 64) (hq : q < 64) (hr : r < 64) (hrest : r % 4 = 0) :
    encode ((group p q r 0).take 2) = [symbol p, symbol q, symbol r, pad] := by
  have hfirst : (p * 4 + q / 16) % 256 / 4 = p := by omega
  have hsecond : (p * 4 + q / 16) % 256 % 4 * 16 + (q % 16 * 16 + r / 4) % 256 / 16 = q := by omega
  have hthird : (q % 16 * 16 + r / 4) % 256 % 16 * 4 = r := by omega
  simp only [group, List.take_succ_cons, List.take_zero, encode, UInt8.toNat_ofNat', hfirst,
    hsecond, hthird]

theorem encode_single {p q : Nat} (hp : p < 64) (hq : q < 64) (hrest : q % 16 = 0) :
    encode ((group p q 0 0).take 1) = [symbol p, symbol q, pad, pad] := by
  have hfirst : (p * 4 + q / 16) % 256 / 4 = p := by omega
  have hsecond : (p * 4 + q / 16) % 256 % 4 * 16 = q := by omega
  simp only [group, List.take_succ_cons, List.take_zero, encode, UInt8.toNat_ofNat', hfirst,
    hsecond]

theorem four_dvd_length_encode (d : Bytes) : 4 ∣ (encode d).length := by
  fun_induction encode d with
  | case1 => exact Nat.dvd_zero 4
  | case2 => exact Nat.dvd_refl 4
  | case3 => exact Nat.dvd_refl 4
  | case4 a b c rest ih =>
    simp only [List.length_cons]
    omega

/-- Whole groups are read one by one, and the last one is not told from the others. -/
theorem decodeFrom_group {p q r s : Nat} (hp : p < 64) (hq : q < 64) (hr : r < 64) (hs : s < 64)
    (offset : Nat) {rest d : Bytes} (h : decodeFrom (offset + 4) rest = .ok d) :
    decodeFrom offset (symbol p :: symbol q :: symbol r :: symbol s :: rest) =
      .ok (group p q r s ++ d) := by
  cases rest with
  | nil =>
    have hd : d = [] := by simpa [decodeFrom, decodeLast] using h.symm
    simp only [decodeFrom, decodeLast, value?_symbol hp, value?_symbol hq, value?_symbol hr,
      value?_symbol hs, hd, List.append_nil]
  | cons e rest =>
    simp only [decodeFrom, value?_symbol hp, value?_symbol hq, value?_symbol hr,
      value?_symbol hs, h]

/-- What was encoded is decoded to itself. -/
theorem decodeFrom_encode (offset : Nat) (d : Bytes) : decodeFrom offset (encode d) = .ok d := by
  fun_induction encode d generalizing offset with
  | case1 => rfl
  | case2 a =>
    have hq : a.toNat % 4 * 16 < 64 := by omega
    have hbits : a.toNat % 4 * 16 % 16 = 0 := by omega
    have hgroup : (group (a.toNat / 4) (a.toNat % 4 * 16) 0 0).take 1 = [a] := by
      simpa using congrArg (List.take 1) (group_of_bytes a 0 0)
    simp [decodeFrom, decodeLast, value?_symbol (high_lt a), value?_symbol hq, hbits, hgroup]
  | case3 a b =>
    have hr : b.toNat % 16 * 4 < 64 := by omega
    have hbits : b.toNat % 16 * 4 % 4 = 0 := by omega
    have hgroup : (group (a.toNat / 4) (a.toNat % 4 * 16 + b.toNat / 16)
        (b.toNat % 16 * 4) 0).take 2 = [a, b] := by
      simpa using congrArg (List.take 2) (group_of_bytes a b 0)
    simp [decodeFrom, decodeLast, value?_symbol (high_lt a), value?_symbol (middle_lt a b),
      value?_symbol hr, hbits, hgroup]
  | case4 a b c rest ih =>
    have hs : c.toNat % 64 < 64 := Nat.mod_lt _ (by decide)
    rw [decodeFrom_group (high_lt a) (middle_lt a b) (low_lt b c) hs offset (ih (offset + 4)),
      group_of_bytes]
    rfl

/-- The last group is one that was written, since it is no longer than a group. -/
theorem eq_encode_of_decodeLast {offset : Nat} {b d : Bytes} (hlength : b.length ≤ 4)
    (h : decodeLast offset b = .ok d) : b = encode d := by
  fun_cases decodeLast offset b with
  | case1 =>
    obtain rfl : [] = d := by simpa [decodeLast] using h
    rfl
  | case8 a b p q hb ha c r last rest hc s hlast =>
    obtain rfl : group p q r s = d := by simpa [decodeLast, ha, hb, hc, hlast] using h
    obtain rfl : rest = [] := List.eq_nil_of_length_eq_zero (by grind)
    obtain ⟨rfl, hp⟩ := symbol_of_value? ha
    obtain ⟨rfl, hq⟩ := symbol_of_value? hb
    obtain ⟨rfl, hr⟩ := symbol_of_value? hc
    obtain ⟨rfl, hs⟩ := symbol_of_value? hlast
    rw [← List.append_nil (group p q r s), encode_group hp hq hr hs]
    rfl
  | case9 a b p q hb ha c r rest hc hbits =>
    obtain rfl : (group p q r 0).take 2 = d := by simpa [decodeLast, ha, hb, hc, hbits] using h
    obtain rfl : rest = [] := List.eq_nil_of_length_eq_zero (by grind)
    obtain ⟨rfl, hp⟩ := symbol_of_value? ha
    obtain ⟨rfl, hq⟩ := symbol_of_value? hb
    obtain ⟨rfl, hr⟩ := symbol_of_value? hc
    exact (encode_pair hp hq hr hbits).symm
  | case13 a b p q hb ha rest hbits =>
    obtain rfl : (group p q 0 0).take 1 = d := by simpa [decodeLast, ha, hb, hbits] using h
    obtain rfl : rest = [] := List.eq_nil_of_length_eq_zero (by grind)
    obtain ⟨rfl, hp⟩ := symbol_of_value? ha
    obtain ⟨rfl, hq⟩ := symbol_of_value? hb
    exact (encode_single hp hq hbits).symm
  | _ => simp_all [decodeLast]

/-- Only what was encoded is decoded. -/
theorem eq_encode_of_decodeFrom {offset : Nat} {b d : Bytes} (h : decodeFrom offset b = .ok d) :
    b = encode d := by
  fun_induction decodeFrom offset b generalizing d with
  | case1 offset a b c last e rest p q r s hlast hc hb ha decoded hrest ih =>
    obtain rfl : group p q r s ++ decoded = d := by simpa using h
    obtain ⟨rfl, hp⟩ := symbol_of_value? ha
    obtain ⟨rfl, hq⟩ := symbol_of_value? hb
    obtain ⟨rfl, hr⟩ := symbol_of_value? hc
    obtain ⟨rfl, hs⟩ := symbol_of_value? hlast
    rw [encode_group hp hq hr hs, ← ih hrest]
  | case4 offset b hshort =>
    refine eq_encode_of_decodeLast ?_ h
    match b with
    | [] | [_] | [_, _] | [_, _, _] | [_, _, _, _] => simp
    | a :: b :: c :: d :: e :: rest => exact (hshort a b c d e rest rfl).elim
  | _ => simp_all

theorem strayEnd?_eq_none {b : Bytes} (h : 4 ∣ b.length) : strayEnd? b = none := by
  rw [strayEnd?, if_neg (by omega)]

/-- Decoding accepts exactly what encoding writes. -/
theorem decode_eq_ok_iff {b d : Bytes} : decode b = .ok d ↔ b = encode d := by
  constructor
  · intro h
    rw [decode] at h
    cases hstray : strayEnd? b with
    | some fault => simp [hstray] at h
    | none => exact eq_encode_of_decodeFrom (by simpa [hstray] using h)
  · rintro rfl
    rw [decode, strayEnd?_eq_none (four_dvd_length_encode d)]
    exact decodeFrom_encode 0 d

end ReleasePublisher.Base64
