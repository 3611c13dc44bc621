import ReleasePublisher.Proofs.Time.Calendar
import ReleasePublisher.Proofs.Time.RoundTrip

/-!
What a clock east or west of universal time shows. With the offset after it, that is read as the
point in time at which the clock shows it.
-/
namespace ReleasePublisher

namespace Timestamp

def zoneText (minutes : Int) : String :=
  (if minutes < 0 then "-" else "+") ++ padded 2 (minutes.natAbs / 60) ++ ":" ++
    padded 2 (minutes.natAbs % 60)

theorem exists_paddedDigits_two {n : Nat} (h : n < 100) :
    ∃ a b, paddedDigits 2 n = [a, b] ∧ isDigit a ∧ isDigit b ∧ digitsValue [a, b] = n := by
  have hlength : (paddedDigits 2 n).length = 2 := length_paddedDigits (by decide) h
  obtain ⟨a, b, heq⟩ : ∃ a b, paddedDigits 2 n = [a, b] := by
    generalize paddedDigits 2 n = digits at hlength
    match digits, hlength with
    | [a, b], _ => exact ⟨a, b, rfl⟩
  have hdigits : ∀ c ∈ [a, b], isDigit c := fun c hc => isDigit_of_mem_paddedDigits (heq ▸ hc)
  have hvalue := digitsValue_paddedDigits 2 n 0
  rw [heq] at hvalue
  exact ⟨a, b, heq, hdigits a (by simp), hdigits b (by simp), by simpa using hvalue⟩

theorem scanOffsetBody_paddedDigits {hours minutes : Nat} (hhours : hours < 24)
    (hminutes : minutes < 60) :
    scanOffsetBody (paddedDigits 2 hours ++ ':' :: paddedDigits 2 minutes) =
      some (hours * 60 + minutes, []) := by
  obtain ⟨a, b, hab, ha, hb, habvalue⟩ := exists_paddedDigits_two (Nat.lt_trans hhours (by decide))
  obtain ⟨c, d, hcd, hc, hd, hcdvalue⟩ :=
    exists_paddedDigits_two (Nat.lt_trans hminutes (by decide))
  have hcolon : c ≠ ':' := by
    rintro rfl
    exact absurd hc (by decide)
  have hmark : [':', c, d].dropWhile (fun c => c == ':' || Blank.isBlank c) = [c, d] := by
    simp [hcolon, isBlank_of_isDigit hc]
  rw [hab, hcd, List.cons_append, List.cons_append, List.nil_append, scanOffsetBody]
  simp [ha, hb, hc, hd, hmark, habvalue, hcdvalue, hhours, hminutes]

theorem toList_zoneText (minutes : Int) :
    (zoneText minutes).toList = (if minutes < 0 then '-' else '+') ::
      (paddedDigits 2 (minutes.natAbs / 60) ++ ':' :: paddedDigits 2 (minutes.natAbs % 60)) := by
  unfold zoneText
  split <;> simp [toList_padded]

/-- Every offset of less than a day is read back. -/
theorem scanOffset_zoneText {minutes : Int} (h : minutes.natAbs < 1440) :
    scanOffset (Blank.trimFront (zoneText minutes).toList) = some (minutes, []) := by
  have hhours : minutes.natAbs / 60 < 24 := by omega
  have hbody := scanOffsetBody_paddedDigits hhours (Nat.mod_lt minutes.natAbs (by decide))
  have hsum : minutes.natAbs / 60 * 60 + minutes.natAbs % 60 = minutes.natAbs := by omega
  rw [hsum] at hbody
  rw [toList_zoneText]
  split
  · next hwest =>
    have hvalue : -(minutes.natAbs : Int) = minutes := by omega
    rw [trimFront_cons (by decide), scanOffset, hbody]
    simp only [Option.map_some, hvalue]
  · next heast =>
    have hvalue : (minutes.natAbs : Int) = minutes := by omega
    rw [trimFront_cons (by decide), scanOffset, hbody]
    simp only [Option.map_some, hvalue]

/-- What a clock shows is read as the point in time at which it shows that. -/
theorem parse?_zoneText (clock : Timestamp) {minutes : Int} (h : minutes.natAbs < 1440) :
    parse? (clock.text (zoneText minutes)) =
      if clock.date.inRange && (clock.shift minutes).date.inRange then some (clock.shift minutes)
      else none := by
  refine parse?_text clock (toList_zoneText minutes) ?_ ?_ (scanOffset_zoneText h)
  · split <;> decide
  · split <;> decide

end Timestamp

end ReleasePublisher
