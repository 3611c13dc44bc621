import ReleasePublisher.Bytes

/-!
The decimal digits of a number: which characters they are, and that reading them one after another
gives the number back.
-/
namespace ReleasePublisher

namespace Decimal

def append (bound n : Nat) (c : Char) : Option Nat :=
  let n := n * 10 + (c.toNat - 48)
  if n < bound then some n else none

/-- A number is read back from its digits unless it reaches the bound. -/
theorem foldlM_append_toDigits (bound n : Nat) :
    (Nat.toDigits 10 n).foldlM (append bound) 0 = if n < bound then some n else none := by
  by_cases hsmall : n < 10
  · rw [Nat.toDigits_of_lt_base hsmall]
    simp [append, Nat.toNat_digitChar_sub_48_of_lt_ten hsmall]
  · have hlast : n % 10 < 10 := by omega
    have hsum : n / 10 * 10 + n % 10 = n := by omega
    rw [Nat.toDigits_of_base_le (by decide) (by omega), List.foldlM_append,
      foldlM_append_toDigits bound (n / 10)]
    by_cases hfront : n / 10 < bound
    · simp [hfront, append, Nat.toNat_digitChar_sub_48_of_lt_ten hlast, hsum]
    · have hn : ¬ n < bound := by omega
      simp [hfront, hn]
termination_by n

theorem foldlM_append_zeros {bound : Nat} (h : 0 < bound) (zeros : Nat) :
    (List.replicate zeros '0').foldlM (append bound) 0 = some 0 := by
  induction zeros with
  | zero => rfl
  | succ zeros ih =>
    have hzero : append bound 0 '0' = some 0 := by simp [append, h]
    rw [List.replicate_succ, List.foldlM_cons, hzero]
    exact ih

theorem toNat_of_mem_toDigits {n : Nat} {c : Char} (h : c ∈ Nat.toDigits 10 n) :
    48 ≤ c.toNat ∧ c.toNat ≤ 57 := by
  have hdigit := Nat.isDigit_of_mem_toDigits (by decide) (by decide) h
  simp only [Char.isDigit, Bool.and_eq_true, decide_eq_true_eq, ge_iff_le,
    UInt32.le_iff_toNat_le] at hdigit
  exact hdigit

/-- Only zero is written with a zero in front. -/
theorem head?_toDigits_ne {n : Nat} (h : n ≠ 0) : (Nat.toDigits 10 n).head? ≠ some '0' := by
  by_cases hsmall : n < 10
  · rw [Nat.toDigits_of_lt_base hsmall]
    simpa using h
  · have hfront : n / 10 ≠ 0 := by omega
    have ih := head?_toDigits_ne hfront
    rw [Nat.toDigits_of_base_le (by decide) (by omega), List.head?_append]
    cases hhead : (Nat.toDigits 10 (n / 10)).head? with
    | none => simp at hhead
    | some c => simpa [hhead] using ih
termination_by n

end Decimal

end ReleasePublisher
