import ReleasePublisher.Json.Decode
import ReleasePublisher.Proofs.Text.Decimal
import ReleasePublisher.Proofs.Text.Encoding

/-!
Numbers. A natural number is read back from its digits, which end where something else than a digit, a
fraction or an exponent follows.
-/
namespace ReleasePublisher

namespace Json

structure Stops (rest : Bytes) : Prop where
  not_digit : ∀ b more, rest = b :: more → isDigit b = false
  ne_point : ∀ more, rest ≠ 46 :: more
  ne_exponent : ∀ b more, rest = b :: more → b ≠ 101 ∧ b ≠ 69

theorem span_loop_append {digits rest : Bytes} (hdigits : ∀ b ∈ digits, isDigit b)
    (hrest : Stops rest) (seen : Bytes) :
    List.span.loop isDigit (digits ++ rest) seen = (seen.reverse ++ digits, rest) := by
  have hstep : ∀ (b : UInt8) (more seen : Bytes), List.span.loop isDigit (b :: more) seen =
      if isDigit b then List.span.loop isDigit more (b :: seen) else (seen.reverse, b :: more) := by
    intro b more seen
    change (match isDigit b with
      | true => List.span.loop isDigit more (b :: seen)
      | false => (seen.reverse, b :: more)) = _
    cases isDigit b <;> rfl
  induction digits generalizing seen with
  | nil =>
    cases rest with
    | nil => exact congrArg (·, []) (List.append_nil _).symm
    | cons b more =>
      have hb : ¬ isDigit b := by simp [hrest.not_digit b more rfl]
      rw [List.nil_append, hstep, if_neg hb, List.append_nil]
  | cons d digits ih =>
    rw [List.cons_append, hstep, if_pos (hdigits d List.mem_cons_self),
      ih fun b hb => hdigits b (List.mem_cons_of_mem d hb)]
    simp

theorem scanDigits_append {digits rest : Bytes} (hdigits : ∀ b ∈ digits, isDigit b)
    (hne : digits ≠ []) (hrest : Stops rest) :
    scanDigits (digits ++ rest) = .ok (digits, rest) := by
  have hspan : (digits ++ rest).span isDigit = (digits, rest) :=
    span_loop_append hdigits hrest []
  rw [scanDigits, hspan]
  cases digits with
  | nil => exact absurd rfl hne
  | cons d digits => rfl

theorem scanWhole_append {d : UInt8} {digits rest : Bytes} (hdigits : ∀ b ∈ d :: digits, isDigit b)
    (hzero : d = 48 → digits = []) (hrest : Stops rest) :
    scanWhole (d :: digits ++ rest) = .ok (d :: digits, rest) := by
  by_cases hd : d = 48
  · obtain rfl := hzero hd
    subst hd
    cases rest with
    | nil => rfl
    | cons b more => simp [scanWhole, hrest.not_digit b more rfl]
  · have hscan : scanWhole (d :: digits ++ rest) = scanDigits (d :: digits ++ rest) := by
      rw [scanWhole.eq_def]
      split <;> grind
    rw [hscan, scanDigits_append hdigits (by simp) hrest]

theorem scanNumber_append {d : UInt8} {digits rest : Bytes} (hdigits : ∀ b ∈ d :: digits, isDigit b)
    (hzero : d = 48 → digits = []) (hrest : Stops rest) :
    scanNumber (d :: digits ++ rest) = .ok (d :: digits, rest) := by
  have hsign : d ≠ 45 := by
    rintro rfl
    exact absurd (hdigits 45 List.mem_cons_self) (by decide)
  have hfraction : scanFraction rest = .ok ([], rest) := by
    rw [scanFraction.eq_def]
    split
    · exact absurd rfl (hrest.ne_point _)
    · rfl
  have hexponent : scanExponent rest = .ok ([], rest) := by
    cases rest with
    | nil => rfl
    | cons b more =>
      obtain ⟨hlower, hupper⟩ := hrest.ne_exponent b more rfl
      simp [scanExponent, hlower, hupper]
  have hunsigned : scanUnsigned (d :: digits ++ rest) = .ok (d :: digits, rest) := by
    rw [scanUnsigned, scanWhole_append hdigits hzero hrest]
    simp only [Except.bind, bind, hfraction, hexponent]
    simp [pure, Except.pure]
  rw [scanNumber.eq_def]
  split
  · next heq =>
    simp only [List.cons_append, List.cons.injEq] at heq
    exact absurd heq.1 hsign
  · exact hunsigned

def digitsOf (n : Nat) : Bytes := Bytes.ofString (toString n)

theorem ofNat_eq (n : Nat) : ofNat n = .number (digitsOf n) := rfl

theorem digitsOf_eq (n : Nat) :
    digitsOf n = (Nat.toDigits 10 n).map fun c => UInt8.ofNat c.toNat := by
  rw [digitsOf, Nat.toString_eq_ofList_toDigits, Bytes.ofString_ofList]
  apply flatMap_utf8EncodeChar_of_lt
  intro c hc
  have hbounds := Decimal.toNat_of_mem_toDigits hc
  omega

theorem isDigit_of_mem_digitsOf {n : Nat} {b : UInt8} (h : b ∈ digitsOf n) : isDigit b := by
  rw [digitsOf_eq, List.mem_map] at h
  obtain ⟨c, hc, rfl⟩ := h
  have hbounds := Decimal.toNat_of_mem_toDigits hc
  simp only [isDigit, Bool.and_eq_true, decide_eq_true_eq, UInt8.le_iff_toNat_le,
    UInt8.toNat_ofNat']
  simp
  omega

theorem exists_digitsOf (n : Nat) :
    ∃ d digits, digitsOf n = d :: digits ∧ (d = 48 → digits = []) := by
  cases hchars : Nat.toDigits 10 n with
  | nil => exact absurd hchars Nat.toDigits_ne_nil
  | cons c chars =>
    refine ⟨_, _, by rw [digitsOf_eq, hchars, List.map_cons], fun hzero => ?_⟩
    have hbounds := Decimal.toNat_of_mem_toDigits (hchars ▸ List.mem_cons_self)
    have hc : c = '0' := by
      have heq := congrArg UInt8.toNat hzero
      rw [UInt8.toNat_ofNat'] at heq
      apply Char.toNat_inj.mp
      simp at heq ⊢
      omega
    subst hc
    by_cases hn : n = 0
    · subst hn
      simp at hchars
      simp [← hchars]
    · exact absurd (by rw [hchars]; rfl) (Decimal.head?_toDigits_ne hn)

theorem scanNumber_digitsOf (n : Nat) {rest : Bytes} (hrest : Stops rest) :
    scanNumber (digitsOf n ++ rest) = .ok (digitsOf n, rest) := by
  obtain ⟨d, digits, heq, hzero⟩ := exists_digitsOf n
  have hdigits : ∀ b ∈ d :: digits, isDigit b := fun b hb => isDigit_of_mem_digitsOf (heq ▸ hb)
  rw [heq]
  exact scanNumber_append hdigits hzero hrest

theorem foldlM_bytes {bound : Nat} {cs : List Char} (h : ∀ c ∈ cs, c.toNat < 128) (n : Nat) :
    (cs.map fun c => UInt8.ofNat c.toNat).foldlM (fun n b =>
      let n := n * 10 + (b.toNat - 48)
      if n < bound then some n else none) n = cs.foldlM (Decimal.append bound) n := by
  induction cs generalizing n with
  | nil => rfl
  | cons c cs ih =>
    have hc : (UInt8.ofNat c.toNat).toNat = c.toNat := by
      have hlt := h c List.mem_cons_self
      rw [UInt8.toNat_ofNat']
      omega
    rw [List.map_cons, List.foldlM_cons, List.foldlM_cons, hc]
    cases hnext : Decimal.append bound n c with
    | none =>
      rw [Decimal.append] at hnext
      simp [hnext]
    | some m =>
      rw [Decimal.append] at hnext
      simp only [hnext]
      exact ih (fun d hd => h d (List.mem_cons_of_mem c hd)) m

/-- A number is read back from its digits unless it reaches the bound. -/
theorem natBelow?_ofNat (bound n : Nat) :
    (ofNat n).natBelow? bound = if n < bound then some n else none := by
  have hall : (digitsOf n).all isDigit :=
    List.all_eq_true.mpr fun b hb => isDigit_of_mem_digitsOf hb
  have hascii : ∀ c ∈ Nat.toDigits 10 n, c.toNat < 128 := by
    intro c hc
    have hbounds := Decimal.toNat_of_mem_toDigits hc
    omega
  rw [ofNat_eq, natBelow?, if_pos hall, digitsBelow?, digitsOf_eq, foldlM_bytes hascii,
    Decimal.foldlM_append_toDigits]

end Json

end ReleasePublisher
