import ReleasePublisher.Proofs.Lock.Record
import ReleasePublisher.Proofs.Time.Offsets

/-!
The text of a lock record is canonical. Its members may stand in any order, among others, and its
clock may stand anywhere on earth; what is read is the same record, and each record has a text of
its own.
-/
namespace ReleasePublisher

namespace Json

/-- A member counts wherever it stands. -/
theorem single?_perm {members others : List (String × Json)} (h : members.Perm others)
    (name : String) : single? name members = single? name others := by
  have hfilter := h.filter (fun m => m.1 == name)
  simp only [single?]
  generalize members.filter (fun m => m.1 == name) = found at hfilter
  generalize others.filter (fun m => m.1 == name) = found' at hfilter
  match found' with
  | [] => rw [hfilter.eq_nil]
  | [m] => rw [List.perm_singleton.mp hfilter]
  | m :: m' :: rest =>
    obtain ⟨k, k', more, rfl⟩ : ∃ k k' more, found = k :: k' :: more := by
      match found, hfilter.length_eq with
      | k :: k' :: more, _ => exact ⟨k, k', more, rfl⟩
    rfl

end Json

namespace Date

theorem year_next (d : Date) : d.year ≤ d.next.year ∧ d.next.year ≤ d.year + 1 := by
  unfold next
  split
  · exact ⟨Int.le_refl _, by dsimp only; omega⟩
  split
  · exact ⟨Int.le_refl _, by dsimp only; omega⟩
  · dsimp only
    omega

theorem year_previous (d : Date) : d.previous.year ≤ d.year ∧ d.year ≤ d.previous.year + 1 := by
  have hnext := year_next d.previous
  rwa [next_previous] at hnext

end Date

namespace Timestamp

def HasFourDigitYear (t : Timestamp) : Prop := 0 ≤ t.date.year ∧ t.date.year ≤ 9999

instance (t : Timestamp) : Decidable t.HasFourDigitYear :=
  inferInstanceAs (Decidable (_ ∧ _))

theorem HasFourDigitYear.inRange {t : Timestamp} (h : t.HasFourDigitYear) : t.date.inRange := by
  obtain ⟨hlow, hhigh⟩ := h
  simp only [Date.inRange, Bool.and_eq_true, decide_eq_true_eq]
  omega

/-- A clock is at most a year off. -/
theorem HasFourDigitYear.inRange_clock {clock : Timestamp} {minutes : Int}
    (h : (clock.shift minutes).HasFourDigitYear) : clock.date.inRange := by
  obtain ⟨hlow, hhigh⟩ := h
  have hnext := clock.date.year_next
  have hprevious := clock.date.year_previous
  have hyear : -1 ≤ clock.date.year ∧ clock.date.year ≤ 10000 := by
    simp only [shift] at hlow hhigh
    split at hlow
    · rw [if_pos ‹_›] at hhigh
      omega
    · rw [if_neg ‹_›] at hhigh
      split at hlow
      · rw [if_pos ‹_›] at hhigh
        omega
      · rw [if_neg ‹_›] at hhigh
        omega
  simp only [Date.inRange, Bool.and_eq_true, decide_eq_true_eq]
  omega

end Timestamp

namespace LockRecord

/-- Both printed forms are read as the record that they are of. -/
theorem parse?_printed {record : LockRecord} (h : record.acquired.date.inRange) :
    parse? record.compactText = some record ∧ parse? record.fileText = some record := by
  rw [parse?_compactText, parse?_fileText, if_pos h]
  exact ⟨rfl, rfl⟩

/-- No two records have one text, except that a year may be beyond those that are told apart. -/
theorem eq_of_printed {record other : LockRecord} (h : record.acquired.date.inRange)
    (heq : other.compactText = record.compactText ∨ other.fileText = record.fileText) :
    other = record := by
  obtain ⟨hcompact, hfile⟩ := parse?_printed h
  have hother : ∀ {read : Option LockRecord}, read = some record →
      read = (if other.acquired.date.inRange then some other else none) → other = record := by
    intro read hread hif
    rw [hread] at hif
    split at hif
    · exact (Option.some.inj hif).symm
    · cases hif
  rcases heq with heq | heq
  · exact hother hcompact (heq ▸ parse?_compactText other)
  · exact hother hfile (heq ▸ parse?_fileText other)

/-- The text is an object that tells of `owner` and of the time a clock shows that is `minutes` east
of universal time. Its members stand in any order and there may be more of them. -/
inductive Tells (owner : LockOwner) (clock : Timestamp) (minutes : Int) (content : Bytes) : Prop
  | object {members : List (Bytes × Json)} {named others : List (String × Json)}
      {holder pid acquired : Json} (text : IsText content)
      (parsed : Json.parse? content = some (.object members))
      (names : Json.namedMembers? members = some named)
      (fields : named.Perm (("holder", holder) :: ("pid", pid) :: ("acquired_at", acquired) ::
        others))
      (unknown : ∀ m ∈ others, m.1 ∉ ["holder", "pid", "acquired_at"])
      (host : holder.text? = some owner.host) (number : pid.natBelow? UInt32.size = some owner.pid)
      (time : acquired.text? = some (clock.text (Timestamp.zoneText minutes)))

/-- The fields of a record are found in any order and among other members. -/
theorem fields?_of_perm {members : List (Bytes × Json)} {named others : List (String × Json)}
    {holder pid acquired : Json} (names : Json.namedMembers? members = some named)
    (fields : named.Perm (("holder", holder) :: ("pid", pid) :: ("acquired_at", acquired) ::
      others))
    (unknown : ∀ m ∈ others, m.1 ∉ ["holder", "pid", "acquired_at"]) :
    (Json.object members).fields? ["holder", "pid", "acquired_at"] 3 =
      some [some holder, some pid, some acquired] := by
  have hothers : ∀ name ∈ ["holder", "pid", "acquired_at"],
      others.filter (fun m => m.1 == name) = [] := by
    intro name hname
    refine List.filter_eq_nil_iff.mpr fun m hm heq => ?_
    exact unknown m hm (beq_iff_eq.mp heq ▸ hname)
  have hholder : Json.single? "holder" named = some (some holder) := by
    rw [Json.single?_perm fields]
    simp [Json.single?, hothers]
  have hpid : Json.single? "pid" named = some (some pid) := by
    rw [Json.single?_perm fields]
    simp [Json.single?, hothers]
  have hacquired : Json.single? "acquired_at" named = some (some acquired) := by
    rw [Json.single?_perm fields]
    simp [Json.single?, hothers]
  rw [Json.fields?, names]
  simp only [Option.bind_some, List.mapM_cons, List.mapM_nil, hholder, hpid, hacquired]
  rfl

/-- A text that tells of a party and a time is read as just these. -/
theorem Tells.parse?_eq {owner : LockOwner} {clock : Timestamp} {minutes : Int} {content : Bytes}
    (h : Tells owner clock minutes content) (hminutes : minutes.natAbs < 1440)
    (hyear : (clock.shift minutes).HasFourDigitYear) :
    parse? content = some ⟨owner, clock.shift minutes⟩ := by
  obtain ⟨text, parsed, names, fields, unknown, host, number, time⟩ := h
  obtain ⟨s, hs⟩ := text.exists_decode?
  have hclock : Timestamp.parse? (clock.text (Timestamp.zoneText minutes)) =
      some (clock.shift minutes) := by
    rw [Timestamp.parse?_zoneText clock hminutes, hyear.inRange_clock, hyear.inRange]
    rfl
  simp only [parse?, hs, parsed, Option.bind_some, ofJson?, fields?_of_perm names fields unknown,
    host, number, time, hclock, Option.bind_eq_bind, dif_pos owner.pid_lt]

/-- A record is read back from both its texts. The texts of what was read tell records apart,
however they were written before; and the members, their order and the offset of the clock make no
difference to what is read. -/
theorem canonical_text :
    (∀ record : LockRecord, record.acquired.HasFourDigitYear →
      parse? record.compactText = some record ∧ parse? record.fileText = some record) ∧
    (∀ content record, parse? content = some record → record.acquired.HasFourDigitYear →
      (parse? record.compactText = some record ∧ parse? record.fileText = some record) ∧
      ∀ content' record', parse? content' = some record' →
        (record'.compactText = record.compactText ↔ record' = record) ∧
        (record'.fileText = record.fileText ↔ record' = record)) ∧
    ∀ owner clock minutes content, Tells owner clock minutes content → minutes.natAbs < 1440 →
      (clock.shift minutes).HasFourDigitYear →
      ∃ record, parse? content = some record ∧ record.owner = owner ∧
        record.acquired = clock.shift minutes ∧
        record.acquired.sinceEpoch = clock.sinceEpoch - minutes * 60 * 1000000000 := by
  refine ⟨fun record hyear => parse?_printed hyear.inRange, ?_, ?_⟩
  · intro content record _ hyear
    refine ⟨parse?_printed hyear.inRange, fun content' record' _ => ⟨⟨fun heq => ?_, ?_⟩,
      ⟨fun heq => ?_, ?_⟩⟩⟩
    · exact eq_of_printed hyear.inRange (.inl heq)
    · rintro rfl
      rfl
    · exact eq_of_printed hyear.inRange (.inr heq)
    · rintro rfl
      rfl
  · intro owner clock minutes content htells hminutes hyear
    exact ⟨_, htells.parse?_eq hminutes hyear, rfl, rfl, clock.sinceEpoch_shift hminutes⟩

namespace Sample

def owner : LockOwner := { host := "c\"i\\\n\u0001🚢", pid := 4294967295 }

def clock : Timestamp := .ofEpoch 1709253005000120000

def members : List (String × Json) :=
  [("note", .ofText "kept"), ("acquired_at", .ofText (clock.text (Timestamp.zoneText 60))),
    ("pid", .ofNat owner.pid), ("holder", .ofText owner.host)]

theorem tells : Tells owner clock 60 (Json.ofMembers members).compact := by
  have hscalar : ∀ m ∈ members, Json.IsScalar m.2 := by
    intro m hm
    simp only [members, List.mem_cons, List.not_mem_nil, or_false] at hm
    rcases hm with rfl | rfl | rfl | rfl
    · exact .text _
    · exact .text _
    · exact .nat _
    · exact .text _
  have hfields : members.Perm [("holder", .ofText owner.host), ("pid", .ofNat owner.pid),
      ("acquired_at", .ofText (clock.text (Timestamp.zoneText 60))), ("note", .ofText "kept")] :=
    (List.reverse_perm members).symm
  have htext : ∀ s, (Json.ofText s).text? = some s := Json.literalText?_literalOf
  have hnumber : (Json.ofNat owner.pid).natBelow? UInt32.size = some owner.pid := by
    rw [Json.natBelow?_ofNat, if_pos owner.pid_lt]
  exact .object (Json.isText_compact hscalar) (Json.parse?_compact (by simp [members]) hscalar)
    (Json.namedMembers?_map members) hfields (by simp) (htext _) hnumber (htext _)

end Sample

theorem canonical_text_across_leap_day :
    (parse? (⟨Sample.owner, Sample.clock⟩ : LockRecord).compactText =
        some ⟨Sample.owner, Sample.clock⟩ ∧
      parse? (⟨Sample.owner, Sample.clock⟩ : LockRecord).fileText =
        some ⟨Sample.owner, Sample.clock⟩) ∧
    ∃ record, parse? (Json.ofMembers Sample.members).compact = some record ∧
      record.acquired.stored = "2024-02-29T23:30:05.000120Z" ∧
      record.acquired.sinceEpoch = Sample.clock.sinceEpoch - 60 * 60 * 1000000000 ∧
      parse? record.compactText = some record ∧ parse? record.fileText = some record := by
  obtain ⟨hprinted, hread, htold⟩ := canonical_text
  have hyear : (Sample.clock.shift 60).HasFourDigitYear := by decide +kernel
  obtain ⟨record, hparse, -, hacquired, hsince⟩ :=
    htold _ _ _ _ Sample.tells (by decide) hyear
  have hstored : (Sample.clock.shift 60).stored = "2024-02-29T23:30:05.000120Z" := by
    decide +kernel
  refine ⟨hprinted ⟨Sample.owner, Sample.clock⟩ (by decide +kernel), record, hparse, hacquired ▸ hstored,
    hsince, ?_⟩
  exact (hread _ record hparse (hacquired ▸ hyear)).1

end LockRecord

end ReleasePublisher
