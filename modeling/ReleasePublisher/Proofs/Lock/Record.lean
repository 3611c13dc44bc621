import ReleasePublisher.Lock.Record
import ReleasePublisher.Proofs.Json.RoundTrip
import ReleasePublisher.Proofs.Time.RoundTrip

/-!
What a lock file says is read back, whatever the name of the host is, if the year is one of those
that are told apart.
-/
namespace ReleasePublisher

namespace LockRecord

/-- A record is read off its members, if its date is one that can be told apart. -/
theorem ofJson?_toJson (record : LockRecord) :
    ofJson? record.toJson = if record.acquired.date.inRange then some record else none := by
  obtain ⟨⟨host, pid, hpid⟩, acquired⟩ := record
  have hfields : (toJson ⟨⟨host, pid, hpid⟩, acquired⟩).fields? ["holder", "pid", "acquired_at"] 3 =
      some [some (.ofText host), some (.ofNat pid), some (.ofText acquired.stored)] := by
    rw [toJson, Json.ofMembers_eq, Json.fields?, Json.namedMembers?_map]
    rfl
  have htext : ∀ s, (Json.ofText s).text? = some s := Json.literalText?_literalOf
  have hnat : (Json.ofNat pid).natBelow? UInt32.size = some pid := by
    rw [Json.natBelow?_ofNat, if_pos hpid]
  simp only [ofJson?, hfields, htext, hnat, Option.bind_eq_bind, Option.bind_some,
    Timestamp.parse?_stored, dif_pos hpid]
  split <;> rfl

theorem isScalar_toJson (record : LockRecord) :
    ∀ m ∈ [("holder", Json.ofText record.owner.host), ("pid", .ofNat record.owner.pid),
      ("acquired_at", .ofText record.acquired.stored)], Json.IsScalar m.2 := by
  intro m hm
  simp only [List.mem_cons, List.not_mem_nil, or_false] at hm
  rcases hm with rfl | rfl | rfl
  · exact .text _
  · exact .nat _
  · exact .text _

theorem parse?_fileText (record : LockRecord) :
    parse? record.fileText = if record.acquired.date.inRange then some record else none := by
  obtain ⟨s, hs⟩ := (Json.isText_pretty (by simp) record.isScalar_toJson 0).exists_decode?
  have hparse := Json.parse?_pretty (by simp) record.isScalar_toJson 0
  rw [parse?, fileText, toJson, hs, hparse]
  exact record.ofJson?_toJson

theorem parse?_compactText (record : LockRecord) :
    parse? record.compactText = if record.acquired.date.inRange then some record else none := by
  obtain ⟨s, hs⟩ := (Json.isText_compact record.isScalar_toJson).exists_decode?
  have hparse := Json.parse?_compact (by simp) record.isScalar_toJson
  rw [parse?, compactText, toJson, hs, hparse]
  exact record.ofJson?_toJson

end LockRecord

end ReleasePublisher
