import ReleasePublisher.Proofs.Text.Decimal
import ReleasePublisher.Time.Timestamp

/-!
What a clock shows is read back, with the offset that stands after it, unless a year is beyond the
years that are told apart. The form that is kept in records is the one without an offset.
-/
namespace ReleasePublisher

namespace Timestamp

def paddedDigits (width n : Nat) : List Char :=
  List.replicate (width - (Nat.toDigits 10 n).length) '0' ++ Nat.toDigits 10 n

theorem toList_padded (width n : Nat) : (padded width n).toList = paddedDigits width n := by
  have hdigits : (toString n).toList = Nat.toDigits 10 n := by
    rw [Nat.toString_eq_ofList_toDigits, String.toList_ofList]
  simp only [padded, paddedDigits, String.toList_append, String.toList_ofList, hdigits,
    ← String.length_toList]

theorem isDigit_iff {c : Char} : isDigit c ↔ 48 ≤ c.toNat ∧ c.toNat ≤ 57 := by
  simp only [isDigit, Bool.and_eq_true, decide_eq_true_eq, Char.le_def, UInt32.le_iff_toNat_le]
  rfl

theorem isDigit_of_mem_paddedDigits {width n : Nat} {c : Char} (h : c ∈ paddedDigits width n) :
    isDigit c := by
  rw [paddedDigits, List.mem_append, List.mem_replicate] at h
  rcases h with ⟨-, rfl⟩ | h
  · decide
  · exact isDigit_iff.mpr (Decimal.toNat_of_mem_toDigits h)

theorem exists_paddedDigits (width n : Nat) :
    ∃ c more, paddedDigits width n = c :: more ∧ isDigit c := by
  cases hdigits : paddedDigits width n with
  | nil => simp [paddedDigits] at hdigits
  | cons c more =>
    exact ⟨c, more, rfl, isDigit_of_mem_paddedDigits (hdigits ▸ List.mem_cons_self)⟩

/-- A number that fits the width is written in that width. -/
theorem length_paddedDigits {width n : Nat} (hwidth : 0 < width) (h : n < Nat.pow 10 width) :
    (paddedDigits width n).length = width := by
  have hlength : (Nat.toDigits 10 n).length ≤ width :=
    (Nat.length_toDigits_le_iff (by decide) hwidth).mpr h
  simp only [paddedDigits, List.length_append, List.length_replicate]
  omega

theorem digitsValue?_paddedDigits (width n : Nat) :
    digitsValue? (paddedDigits width n) = if n < Int64.size / 2 then some n else none := by
  change (paddedDigits width n).foldlM (Decimal.append (Int64.size / 2)) 0 = _
  rw [paddedDigits, List.foldlM_append, Decimal.foldlM_append_zeros (by decide)]
  exact Decimal.foldlM_append_toDigits _ n

theorem digitsValue_eq (ds : List Char) : digitsValue ds = Nat.ofDigitChars 10 ds 0 := by
  have hstep : (fun n (c : Char) => n * 10 + (c.toNat - 48)) =
      fun n (c : Char) => 10 * n + (c.toNat - '0'.toNat) := by
    funext n c
    rw [Nat.mul_comm]
    rfl
  rw [digitsValue, Nat.ofDigitChars_eq_foldl, hstep]

/-- Zeros in front do not count, and each zero at the end counts ten times. -/
theorem digitsValue_paddedDigits (width n zeros : Nat) :
    digitsValue (paddedDigits width n ++ List.replicate zeros '0') = Nat.pow 10 zeros * n := by
  have happend : ∀ (cs ds : List Char) (init : Nat), Nat.ofDigitChars 10 (cs ++ ds) init =
      Nat.ofDigitChars 10 ds (Nat.ofDigitChars 10 cs init) := by
    intro cs ds init
    simp only [Nat.ofDigitChars_eq_foldl, List.foldl_append]
  rw [digitsValue_eq, paddedDigits, happend, happend, Nat.ofDigitChars_replicate_zero,
    Nat.ofDigitChars_replicate_zero, Nat.mul_zero, Nat.ofDigitChars_ten_toDigits]
  rfl

theorem takeWhile_append {ds : List Char} (hds : ∀ c ∈ ds, isDigit c) {c : Char}
    (hc : isDigit c = false) (rest : List Char) : (ds ++ c :: rest).takeWhile isDigit = ds := by
  rw [List.takeWhile_append_of_pos hds, List.takeWhile_cons_of_neg (by simp [hc]), List.append_nil]

/-- Digits are read up to what is no digit, as long as their value fits. -/
theorem scanDigits_paddedDigits {most width n : Nat} (hmost : (paddedDigits width n).length ≤ most)
    {c : Char} (hc : isDigit c = false) (rest : List Char) :
    scanDigits most (paddedDigits width n ++ c :: rest) =
      if n < Int64.size / 2 then some (n, c :: rest) else none := by
  have htake : ((paddedDigits width n ++ c :: rest).take most).takeWhile isDigit =
      paddedDigits width n := by
    rw [List.take_append, List.take_of_length_le hmost]
    have hdigits : ∀ d ∈ paddedDigits width n, isDigit d :=
      fun d hd => isDigit_of_mem_paddedDigits hd
    cases hleft : most - (paddedDigits width n).length with
    | zero =>
      rw [List.take_zero, List.takeWhile_append_of_pos hdigits, List.takeWhile_nil,
        List.append_nil]
    | succ left => rw [List.take_succ_cons, takeWhile_append hdigits hc]
  obtain ⟨d, more, heq, -⟩ := exists_paddedDigits width n
  have hempty : (paddedDigits width n).isEmpty = false := by
    rw [heq]
    rfl
  simp only [scanDigits, htake, hempty, digitsValue?_paddedDigits, List.drop_left,
    Bool.false_eq_true, if_false]
  split <;> rfl

theorem isBlank_of_isDigit {c : Char} (h : isDigit c) : Blank.isBlank c = false := by
  rw [isDigit_iff] at h
  simp only [Blank.isBlank, Bool.or_eq_false_iff, Bool.and_eq_false_iff, decide_eq_false_iff_not,
    beq_eq_false_iff_ne]
  omega

theorem trimFront_cons {c : Char} (h : Blank.isBlank c = false) (rest : List Char) :
    Blank.trimFront (c :: rest) = c :: rest := by
  rw [Blank.trimFront, List.dropWhile_cons, h]
  rfl

theorem trimFront_paddedDigits (width n : Nat) (rest : List Char) :
    Blank.trimFront (paddedDigits width n ++ rest) = paddedDigits width n ++ rest := by
  obtain ⟨c, more, heq, hc⟩ := exists_paddedDigits width n
  rw [heq]
  exact trimFront_cons (isBlank_of_isDigit hc) _

theorem scanMark_cons {mark : Char} (h : Blank.isBlank mark = false) (rest : List Char) :
    scanMark mark (mark :: rest) = some rest := by
  rw [scanMark, trimFront_cons h]
  exact if_pos rfl

theorem scanTwo_paddedDigits {n : Nat} (h : n < 100) {c : Char} (hc : isDigit c = false)
    (rest : List Char) : scanTwo (paddedDigits 2 n ++ c :: rest) = some (n, c :: rest) := by
  have hn : n < Int64.size / 2 := Nat.lt_trans h (by decide)
  have hlength : (paddedDigits 2 n).length = 2 := length_paddedDigits (by decide) h
  rw [scanTwo, trimFront_paddedDigits, scanDigits_paddedDigits (Nat.le_of_eq hlength) hc, if_pos hn]

theorem scanYear_unsigned {n : Nat} (h : n < 10000) {c : Char} (hc : isDigit c = false)
    (rest : List Char) :
    scanYear (paddedDigits 4 n ++ c :: rest) = some ((n : Int), c :: rest) := by
  have hn : n < Int64.size / 2 := Nat.lt_trans h (by decide)
  have hlength : (paddedDigits 4 n).length = 4 := length_paddedDigits (by decide) h
  have hscan := scanDigits_paddedDigits (Nat.le_of_eq hlength) hc rest
  obtain ⟨d, more, heq, hd⟩ := exists_paddedDigits 4 n
  have hsign : d ≠ '-' ∧ d ≠ '+' := by
    constructor <;> rintro rfl <;> exact absurd hd (by decide)
  rw [scanYear, trimFront_paddedDigits]
  rw [if_pos hn, heq] at hscan
  rw [heq]
  split <;> simp_all

/-- A year is read back unless its digits go beyond 64 bits. -/
theorem scanYear_yearText (year : Int) {c : Char} (hc : isDigit c = false) (rest : List Char) :
    scanYear ((yearText year).toList ++ c :: rest) =
      if year.natAbs < Int64.size / 2 then some (year, c :: rest) else none := by
  have hscan : scanDigits (paddedDigits 4 year.natAbs ++ c :: rest).length
      (paddedDigits 4 year.natAbs ++ c :: rest) =
        if year.natAbs < Int64.size / 2 then some (year.natAbs, c :: rest) else none :=
    scanDigits_paddedDigits (by simp) hc rest
  unfold yearText
  split
  · next hrange =>
    have hsmall : year.toNat < 10000 := by omega
    have hfits : year.natAbs < Int64.size / 2 := Nat.lt_trans (m := 10000) (by omega) (by decide)
    rw [toList_padded, scanYear_unsigned hsmall hc, Int.toNat_of_nonneg hrange.1, if_pos hfits]
  split
  · next hneg =>
    have htext : ("-" ++ padded 4 year.natAbs).toList ++ c :: rest =
        '-' :: (paddedDigits 4 year.natAbs ++ c :: rest) := by
      simp [toList_padded]
    have hyear : -(year.natAbs : Int) = year := by omega
    rw [htext, scanYear, trimFront_cons (by decide)]
    simp only [hscan]
    split <;> simp only [Option.map_some, Option.map_none, hyear]
  · next hrange hneg =>
    have htext : ("+" ++ padded 4 year.natAbs).toList ++ c :: rest =
        '+' :: (paddedDigits 4 year.natAbs ++ c :: rest) := by
      simp [toList_padded]
    have hyear : (year.natAbs : Int) = year := by omega
    rw [htext, scanYear, trimFront_cons (by decide)]
    simp only [hscan]
    split <;> simp only [Option.map_some, Option.map_none, hyear]

/-- Some digits after the point are the nanoseconds that they leave zeros for. -/
theorem scanFraction_paddedDigits {width n : Nat} (hwidth : 0 < width) (hle : width ≤ 9)
    (h : n < Nat.pow 10 width) {c : Char} (hc : isDigit c = false) (rest : List Char) :
    scanFraction ('.' :: (paddedDigits width n ++ c :: rest)) =
      some (Nat.pow 10 (9 - width) * n, c :: rest) := by
  have hdigits : (paddedDigits width n ++ c :: rest).takeWhile isDigit = paddedDigits width n :=
    takeWhile_append (fun c hc => isDigit_of_mem_paddedDigits hc) hc rest
  have hlength := length_paddedDigits hwidth h
  have htake : (paddedDigits width n).take 9 = paddedDigits width n :=
    List.take_of_length_le (by omega)
  obtain ⟨d, more, heq, -⟩ := exists_paddedDigits width n
  have hempty : (paddedDigits width n).isEmpty = false := by
    rw [heq]
    rfl
  simp only [scanFraction, hdigits, htake, hempty, List.rightpad, digitsValue_paddedDigits,
    List.drop_left, Bool.false_eq_true, if_false]
  rw [hlength]

/-- A fraction is read as the nanoseconds that it was written for. -/
theorem scanFraction_fractionText {nanosecond : Nat} (h : nanosecond < 1000000000) {c : Char}
    (hc : isDigit c = false) (hpoint : c ≠ '.') (rest : List Char) :
    scanFraction ((fractionText nanosecond).toList ++ c :: rest) =
      some (nanosecond, c :: rest) := by
  have htext : ∀ width n, ("." ++ padded width n).toList ++ c :: rest =
      '.' :: (paddedDigits width n ++ c :: rest) := by
    intro width n
    simp [toList_padded]
  unfold fractionText
  split
  · next hzero =>
    subst hzero
    change scanFraction (c :: rest) = _
    rw [scanFraction.eq_def]
    split
    · next heq => exact absurd (List.cons.inj heq).1 hpoint
    · rfl
  split
  · have hfits : nanosecond / 1000000 < Nat.pow 10 3 := by
      change _ < 1000
      omega
    have hvalue : Nat.pow 10 (9 - 3) * (nanosecond / 1000000) = nanosecond := by
      change 1000000 * _ = _
      omega
    rw [htext, scanFraction_paddedDigits (by decide) (by decide) hfits hc, hvalue]
  split
  · have hfits : nanosecond / 1000 < Nat.pow 10 6 := by
      change _ < 1000000
      omega
    have hvalue : Nat.pow 10 (9 - 6) * (nanosecond / 1000) = nanosecond := by
      change 1000 * _ = _
      omega
    rw [htext, scanFraction_paddedDigits (by decide) (by decide) hfits hc, hvalue]
  · have hvalue : Nat.pow 10 (9 - 9) * nanosecond = nanosecond := Nat.one_mul nanosecond
    rw [htext, scanFraction_paddedDigits (by decide) (by decide) h hc, hvalue]

theorem shift_zero (t : Timestamp) : t.shift 0 = t := by
  obtain ⟨date, hour, minute, second, nanosecond, hhour, hminute, hsecond, hnanosecond⟩ := t
  have htotal : ((hour : Int) * 60 + minute - 0) % 1440 = hour * 60 + minute := by omega
  have hday : ¬ (hour : Int) * 60 + minute - 0 < 0 ∧ ¬ 1440 ≤ (hour : Int) * 60 + minute - 0 := by
    omega
  simp only [shift, htotal, if_neg hday.1, if_neg hday.2, mk.injEq, true_and, and_true]
  omega

theorem toList_text (zone : String) (t : Timestamp) :
    (t.text zone).toList = (yearText t.date.year).toList ++ '-' :: (paddedDigits 2 t.date.month ++
      '-' :: (paddedDigits 2 t.date.day ++ 'T' :: (paddedDigits 2 t.hour ++
        ':' :: (paddedDigits 2 t.minute ++ ':' :: (paddedDigits 2 t.second ++
          ((fractionText t.nanosecond).toList ++ zone.toList)))))) := by
  simp [text, toList_padded]

/-- Seconds are followed by a point or by what comes after the fraction. -/
theorem exists_fractionText (nanosecond : Nat) {zone : Char} (hzone : isDigit zone = false)
    (rest : List Char) :
    ∃ c more, (fractionText nanosecond).toList ++ zone :: rest = c :: more ∧
      isDigit c = false := by
  unfold fractionText
  split
  · exact ⟨zone, rest, rfl, hzone⟩
  split
  · exact ⟨'.', _, by simp; rfl, by decide⟩
  split
  · exact ⟨'.', _, by simp; rfl, by decide⟩
  · exact ⟨'.', _, by simp; rfl, by decide⟩

theorem daysInMonth_lt (year : Int) (month : Nat) : daysInMonth year month < 100 := by
  unfold daysInMonth
  split
  · split <;> decide
  all_goals decide

theorem ofNumbers?_date (d : Date) : Date.ofNumbers? d.year d.month d.day = some d :=
  dif_pos ⟨⟨d.month_pos, d.month_le⟩, d.day_pos, d.day_le⟩

theorem ofNumbers?_clock (t : Timestamp) :
    ofNumbers? t.date t.hour t.minute t.second t.nanosecond = some t :=
  dif_pos ⟨⟨t.hour_lt, t.minute_lt⟩, t.second_le, t.nanosecond_lt⟩

theorem bind_of_eq {α β : Type} {x : Option α} {a : α} {f : α → Option β} {result : Option β}
    (h : x = some a) (hf : f a = result) : x >>= f = result := by
  rw [h]
  exact hf

theorem natAbs_lt_of_inRange {d : Date} (h : d.inRange) : d.year.natAbs < Int64.size / 2 := by
  simp only [Date.inRange, Bool.and_eq_true, decide_eq_true_eq] at h
  exact Nat.lt_trans (m := 262144) (by omega) (by decide)

/-- What a clock shows is read with the offset after it, if the years of both, as it stands and as
it is read, are among those that are told apart. -/
theorem parse?_text (t : Timestamp) {zone : String} {c : Char} {rest : List Char} {offset : Int}
    (hzone : zone.toList = c :: rest) (hdigit : isDigit c = false) (hpoint : c ≠ '.')
    (hoffset : scanOffset (Blank.trimFront zone.toList) = some (offset, [])) :
    parse? (t.text zone) =
      if t.date.inRange && (t.shift offset).date.inRange then some (t.shift offset) else none := by
  have hdash : ∀ rest, scanMark '-' ('-' :: rest) = some rest := scanMark_cons (by decide)
  have hcolon : ∀ rest, scanMark ':' (':' :: rest) = some rest := scanMark_cons (by decide)
  have hseparator : ∀ rest, scanSeparator ('T' :: rest) = some rest := fun _ => rfl
  have hmonth : t.date.month < 100 := Nat.lt_of_le_of_lt t.date.month_le (by decide)
  have hday : t.date.day < 100 := Nat.lt_of_le_of_lt t.date.day_le (daysInMonth_lt _ _)
  have hhour : t.hour < 100 := Nat.lt_trans t.hour_lt (by decide)
  have hminute : t.minute < 100 := Nat.lt_trans t.minute_lt (by decide)
  have hsecond : t.second < 100 := Nat.lt_of_le_of_lt t.second_le (by decide)
  rw [hzone] at hoffset
  obtain ⟨d, more, hmore, hd⟩ := exists_fractionText t.nanosecond hdigit rest
  have hfraction : scanFraction (d :: more) = some (t.nanosecond, c :: rest) := by
    rw [← hmore]
    exact scanFraction_fractionText t.nanosecond_lt hdigit hpoint rest
  rw [parse?, toList_text, hzone, hmore, scanYear_yearText _ (by decide)]
  by_cases hyear : t.date.year.natAbs < Int64.size / 2
  · rw [if_pos hyear]
    refine bind_of_eq rfl (bind_of_eq (hdash _) ?_)
    refine bind_of_eq (scanTwo_paddedDigits hmonth (by decide) _) (bind_of_eq (hdash _) ?_)
    refine bind_of_eq (scanTwo_paddedDigits hday (by decide) _) (bind_of_eq (hseparator _) ?_)
    refine bind_of_eq (scanTwo_paddedDigits hhour (by decide) _) (bind_of_eq (hcolon _) ?_)
    refine bind_of_eq (scanTwo_paddedDigits hminute (by decide) _) (bind_of_eq (hcolon _) ?_)
    refine bind_of_eq (scanTwo_paddedDigits hsecond hd _) (bind_of_eq hfraction ?_)
    refine bind_of_eq hoffset (bind_of_eq (ofNumbers?_date t.date) ?_)
    refine bind_of_eq (ofNumbers?_clock t) ?_
    simp only [List.all_nil, Bool.true_and]
  · have hrange : t.date.inRange = false :=
      Bool.eq_false_iff.mpr fun h => hyear (natAbs_lt_of_inRange h)
    rw [if_neg hyear, hrange]
    rfl

/-- A point in time is read back from records if its year is one of those that are told apart. -/
theorem parse?_stored (t : Timestamp) :
    parse? t.stored = if t.date.inRange then some t else none := by
  have hoffset : scanOffset (Blank.trimFront "Z".toList) = some (0, []) := by decide
  rw [stored, t.parse?_text rfl (by decide) (by decide) hoffset, shift_zero, Bool.and_self]

end Timestamp

end ReleasePublisher
