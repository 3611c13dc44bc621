import ReleasePublisher.Proofs.Lock.Contest

/-!
The lock file of the party that has made one stands until that party gives the lock back, since
nobody makes a file where one stands, and nobody else takes it away unless it looks stale. This is
kept by every operation of every party but the one that takes a stale lock away.
-/
namespace ReleasePublisher

namespace RunLock

open FileSystem

structure Aside (root : Path) (before after : FileSystem) : Prop where
  place_iff : ∀ l, after.place .keep (pathIn root) = .ok (.taken l) ↔
    before.place .keep (pathIn root) = .ok (.taken l)
  face?_eq : ∀ l, before.place .keep (pathIn root) = .ok (.taken l) →
    after.face? l = before.face? l
  record_eq : Stage.recordAt after root = Stage.recordAt before root

theorem aside_clock (root : Path) (fs : FileSystem) (time : Timestamp) :
    Aside root fs { fs with clock := time } := by
  refine ⟨fun _ => Iff.rfl, fun _ _ => rfl, ?_⟩
  have hread : FileSystem.read { fs with clock := time } (pathIn root) = fs.read (pathIn root) := by
    have hresolve : FileSystem.resolve { fs with clock := time } .follow (pathIn root) =
        fs.resolve .follow (pathIn root) := rfl
    rw [FileSystem.read, FileSystem.read, find, find, hresolve]
    rcases fs.resolve .follow (pathIn root) with e | ⟨l, node⟩ | ⟨d, name⟩ | here <;> rfl
  rw [Stage.recordAt, hread, Stage.recordAt]

namespace Stage

def hasMade : Stage → Bool
  | .fill .. => true
  | _ => false

def record? : Stage → Option LockRecord
  | .create record => some record
  | .inspect record => some record
  | .age record => some record
  | .evict record => some record
  | .recreate record => some record
  | .fill record _ => some record
  | _ => none

/-- What a party finds stale is a lock that an hour has passed for. -/
theorem ne_evict_of_perform {owner : LockOwner} {root : Path} {stage : Stage} {fs : FileSystem}
    (hread : ∀ found, recordAt fs root = some found → found.isStale fs.clock = false)
    (hage : ∀ record, stage = .age record → isAbandoned fs root = false) (record : LockRecord) :
    (stage.perform owner root fs).progress ≠ .next (.evict record) := by
  intro h
  cases Outcome.of_perform h with
  | stale _ found read old => simp [hread found read] at old
  | abandoned _ old => simp [hage record rfl] at old

/-- Only a lock that cannot be read is judged by its age. -/
theorem recordAt_of_perform {owner : LockOwner} {root : Path} {stage : Stage} {fs : FileSystem}
    {record : LockRecord} (h : (stage.perform owner root fs).progress = .next (.age record)) :
    recordAt fs root = none := by
  cases Outcome.of_perform h with
  | unread _ read => exact read

end Stage

namespace Activity

def owns : Activity → Bool
  | .acquiring stage => stage.hasMade
  | .holding => true
  | _ => false

def isEarly : Activity → Bool
  | .acquiring stage => !stage.hasMade
  | .refused _ => true
  | _ => false

/-- What the files show of a party: the lock file it has made, without its record or with it. -/
def Backed (owner : LockOwner) (root : Path) (fs : FileSystem) : Activity → Prop
  | .acquiring stage =>
    (∀ record, stage.record? = some record → record.owner = owner) ∧
      ∀ record handle, stage = .fill record handle →
        fs.place .keep (pathIn root) = .ok (.taken handle.location) ∧
          ∃ attributes, fs.face? handle.location = some (.file handle.serial attributes [])
  | .holding => ∃ serial l, Stands owner root serial l fs
  | .departing departure => departure = .tidy
  | _ => True

inductive Follows (owner : LockOwner) (root : Path) (fs : FileSystem) : Activity → Activity → Prop
  | stayed (activity : Activity) : Follows owner root fs activity activity
  | performed (stage : Stage) : Follows owner root fs (.acquiring stage)
      (.ofProgress (stage.perform owner root fs).progress)
  | left (next : Option Departure) : Follows owner root fs .holding (.ofDeparture next)
  | departed (departure : Departure) (next : Option Departure) :
      Follows owner root fs (.departing departure) (.ofDeparture next)

variable {owner : LockOwner} {root : Path} {fs fs' : FileSystem} {activity next : Activity}

theorem isEarly_ofProgress {progress : Progress} (h : (ofProgress progress).owns = false) :
    (ofProgress progress).isEarly := by
  cases progress <;> simp_all [ofProgress, owns, isEarly]

theorem owns_eq_false_of_isEarly (h : activity.isEarly) : activity.owns = false := by
  cases activity <;> simp_all [isEarly, owns]

theorem isEarly_ofDeparture (departure : Option Departure) :
    (ofDeparture departure).isEarly = false := by
  cases departure <;> rfl

/-- Whoever has made a lock file is not refused any more. -/
theorem Follows.isEarly (h : Follows owner root fs activity next) (hnext : next.isEarly) :
    activity.isEarly := by
  cases h with
  | stayed => exact hnext
  | performed stage =>
    cases stage with
    | fill record handle => simp [Stage.perform, ofProgress, Activity.isEarly] at hnext
    | _ => rfl
  | left next => simp [isEarly_ofDeparture] at hnext
  | departed departure next => simp [isEarly_ofDeparture] at hnext

/-- A party that does not find a lock stale does not come to take it away. -/
theorem Follows.ne_evict (h : Follows owner root fs activity next)
    (hread : ∀ found, Stage.recordAt fs root = some found → found.isStale fs.clock = false)
    (hage : ∀ record, activity = .acquiring (.age record) → Stage.isAbandoned fs root = false)
    (hactivity : ∀ record, activity ≠ .acquiring (.evict record)) (record : LockRecord) :
    next ≠ .acquiring (.evict record) := by
  intro hnext
  cases h with
  | stayed => exact hactivity record hnext
  | performed stage =>
    have hne : (stage.perform owner root fs).progress ≠ .next (.evict record) :=
      Stage.ne_evict_of_perform hread
        (fun record hstage => hage record (congrArg Activity.acquiring hstage)) record
    cases hprogress : (stage.perform owner root fs).progress <;>
      simp_all [ofProgress]
  | left departure => cases departure <;> simp [ofDeparture] at hnext
  | departed _ departure => cases departure <;> simp [ofDeparture] at hnext

theorem Follows.record_eq_none (h : Follows owner root fs activity next) {record : LockRecord}
    (hnext : next = .acquiring (.age record))
    (hactivity : activity = .acquiring (.age record) → Stage.recordAt fs root = none) :
    Stage.recordAt fs root = none := by
  cases h with
  | stayed => exact hactivity hnext
  | performed stage =>
    have hage : (stage.perform owner root fs).progress = .next (.age record) := by
      cases hprogress : (stage.perform owner root fs).progress <;>
        simp_all [ofProgress]
    exact Stage.recordAt_of_perform hage
  | left departure => cases departure <;> simp [ofDeparture] at hnext
  | departed _ departure => cases departure <;> simp [ofDeparture] at hnext

/-- The files do not matter to a party that has no lock file. -/
theorem Backed.congr (h : activity.Backed owner root fs) (howns : activity.owns = false) :
    activity.Backed owner root fs' := by
  cases activity with
  | acquiring stage =>
    refine ⟨h.1, ?_⟩
    rintro record handle rfl
    simp [owns, Stage.hasMade] at howns
  | holding => simp [owns] at howns
  | _ => exact h

theorem Backed.exists_taken (h : activity.Backed owner root fs) (howns : activity.owns) :
    ∃ l, fs.place .keep (pathIn root) = .ok (.taken l) := by
  cases activity with
  | acquiring stage =>
    cases stage with
    | fill record handle => exact ⟨_, (h.2 record handle rfl).1⟩
    | _ => simp [owns, Stage.hasMade] at howns
  | holding =>
    obtain ⟨serial, l, hstands⟩ := h
    exact ⟨l, hstands.place_eq⟩
  | _ => simp [owns] at howns

theorem Backed.aside (h : activity.Backed owner root fs) (haside : Aside root fs fs') :
    activity.Backed owner root fs' := by
  cases activity with
  | acquiring stage =>
    refine ⟨h.1, fun record handle hstage => ?_⟩
    obtain ⟨hplace, attributes, hface⟩ := h.2 record handle hstage
    exact ⟨(haside.place_iff _).mpr hplace, attributes, (haside.face?_eq _ hplace).trans hface⟩
  | holding =>
    obtain ⟨serial, l, hplace, attributes, record, howner, hface⟩ := h
    exact ⟨serial, l, (haside.place_iff l).mpr hplace, attributes, record, howner,
      (haside.face?_eq l hplace).trans hface⟩
  | _ => exact h

theorem backed_makeFile {record : LockRecord} {taken : Stage} (howner : record.owner = owner)
    (htaken : taken.hasMade = false)
    (hsigned : ∀ record, taken.record? = some record → record.owner = owner) :
    (ofProgress (Stage.makeFile root record taken fs).progress).Backed owner root
      (Stage.makeFile root record taken fs).disk := by
  rw [Stage.makeFile]
  split
  · next disk handle hcreate =>
    obtain ⟨hserial, hmade⟩ := made_of_createNew hcreate
    refine ⟨by simpa [Stage.record?] using howner, ?_⟩
    rintro _ _ ⟨⟩
    exact ⟨(hmade.place_eq (by simp [Face.turn])).1, _, hserial ▸ hmade.shows⟩
  · refine ⟨hsigned, ?_⟩
    rintro _ _ rfl
    simp [Stage.hasMade] at htaken
  · trivial

/-- The operation of a party that has not made a lock file shows what it has come to. -/
theorem backed_perform {stage : Stage} (h : (Activity.acquiring stage).Backed owner root fs)
    (hstage : stage.hasMade = false) :
    (ofProgress (stage.perform owner root fs).progress).Backed owner root
      (stage.perform owner root fs).disk := by
  obtain ⟨hsigned, -⟩ := h
  cases stage with
  | create record =>
    have howner := hsigned record rfl
    exact backed_makeFile howner rfl (by simpa [Stage.record?] using howner)
  | recreate record =>
    exact backed_makeFile (hsigned record rfl) rfl (by simp [Stage.record?])
  | fill record handle => simp [Stage.hasMade] at hstage
  | _ =>
    simp only [Stage.perform]
    repeat' split
    all_goals simp_all [ofProgress, Backed, Stage.record?]

/-- The party that has made the lock file writes its record into it. -/
theorem backed_fill {record : LockRecord} {handle : Handle}
    (h : (Activity.acquiring (.fill record handle)).Backed owner root fs) :
    Activity.holding.Backed owner root (fs.writeTo handle record.fileText) := by
  obtain ⟨hsigned, hmade⟩ := h
  obtain ⟨hplace, attributes, hface⟩ := hmade record handle rfl
  have hrefilled := refilled_writeTo hface record.fileText
  obtain ⟨serial, _, attributes', _, -, hafter⟩ := hrefilled.shows
  exact ⟨serial, handle.location, (hrefilled.place_eq .keep _).1.trans hplace, attributes', record,
    hsigned record rfl, hafter⟩

/-- A party that comes upon a lock file does not own one after its next operation. -/
theorem owns_perform_of_place {stage : Stage} {l : Location}
    (h : fs.place .keep (pathIn root) = .ok (.taken l)) (hstage : stage.replaces = false) :
    (ofProgress (stage.perform owner root fs).progress).owns = false := by
  cases stage with
  | create record => simp [Stage.perform, Stage.makeFile_of_place h, ofProgress, owns, Stage.hasMade]
  | recreate record =>
    simp [Stage.perform, Stage.makeFile_of_place h, ofProgress, owns, Stage.hasMade]
  | fill record handle => simp [Stage.replaces] at hstage
  | _ =>
    simp only [Stage.perform]
    repeat' split
    all_goals rfl

end Activity

namespace Contest

variable {ι : Type} {owners : ι → LockOwner} {root : Path} {contest : Contest ι} {party : ι}
  {move : Move ι}

/-- The move takes no lock away as stale, and no other one than the parties touches the lock. -/
def Spares (root : Path) (contest : Contest ι) : Move ι → Prop
  | .act party => ∀ record, contest.activity party ≠ .acquiring (.evict record)
  | .elsewhere change => Aside root contest.disk (change contest.disk)
  | _ => True

/-- Only one party has a lock file that stands, and it does stand. -/
structure Exclusive (owners : ι → LockOwner) (root : Path) (contest : Contest ι) : Prop where
  unique : ∀ i j, (contest.activity i).owns → (contest.activity j).owns → i = j
  backed : ∀ i, (contest.activity i).Backed (owners i) root contest.disk

theorem exclusive_start (owners : ι → LockOwner) (root : Path) (fs : FileSystem) :
    Exclusive owners root (start fs) := by
  refine ⟨fun i j hi => ?_, fun i => ?_⟩
  · simp [start, Activity.owns, Stage.hasMade] at hi
  · simp [start, Activity.Backed, Stage.record?]

namespace Exclusive

theorem alone (h : Exclusive owners root contest) (howns : (contest.activity party).owns) (j : ι)
    (hne : j ≠ party) : (contest.activity j).owns = false := by
  rw [Bool.eq_false_iff]
  intro hj
  exact hne (h.unique j party hj howns)

theorem exists_taken (h : Exclusive owners root contest) (howns : (contest.activity party).owns) :
    ∃ l, contest.disk.place .keep (pathIn root) = .ok (.taken l) :=
  (h.backed party).exists_taken howns

/-- Where no lock file stands, nobody has one. -/
theorem owns_eq_false (h : Exclusive owners root contest)
    (hfree : ¬ ∃ l, contest.disk.place .keep (pathIn root) = .ok (.taken l)) (i : ι) :
    (contest.activity i).owns = false := by
  rw [Bool.eq_false_iff]
  exact fun howns => hfree (h.exists_taken howns)

/-- Two parties that hold the lock are the same. -/
theorem eq_of_holding (h : Exclusive owners root contest) {i j : ι}
    (hi : contest.activity i = .holding) (hj : contest.activity j = .holding) : i = j :=
  h.unique i j (by rw [hi]; rfl) (by rw [hj]; rfl)

/-- The lock file of the holder stands. -/
theorem exists_stands (h : Exclusive owners root contest) {i : ι}
    (hi : contest.activity i = .holding) : ∃ serial l, Stands (owners i) root serial l contest.disk := by
  have hbacked := h.backed i
  rw [hi] at hbacked
  exact hbacked

end Exclusive

variable [DecidableEq ι]

/-- What a move does to a party. -/
theorem follows_after (owners : ι → LockOwner) (root : Path) (contest : Contest ι) (move : Move ι)
    (i : ι) : Activity.Follows (owners i) root contest.disk (contest.activity i)
      ((contest.after owners root move).activity i) := by
  have hother : ∀ {party activity disk}, i ≠ party → Activity.Follows (owners i) root contest.disk
      (contest.activity i) ((contest.put party activity disk).activity i) := by
    intro party activity disk hne
    rw [put_activity_of_ne hne]
    exact .stayed _
  have hleave : ∀ party departure, Activity.Follows (owners i) root contest.disk
      (contest.activity i) ((contest.leave root party departure).activity i) := by
    intro party departure
    rw [leave]
    split
    · next hholding =>
      by_cases hne : i = party
      · subst hne
        rw [depart, put_activity_self, hholding]
        exact .left _
      · exact hother hne
    · exact .stayed _
  cases move with
  | act party =>
    rw [after, advance]
    split
    · next stage hstage =>
      by_cases hne : i = party
      · subst hne
        simp only [put_activity_self, hstage]
        exact .performed stage
      · exact hother hne
    · next departure hdeparture =>
      by_cases hne : i = party
      · subst hne
        rw [depart, put_activity_self, hdeparture]
        exact .departed departure _
      · exact hother hne
    · exact .stayed _
  | release party => exact hleave party .release
  | discard party => exact hleave party .discard
  | elsewhere change => exact .stayed _

theorem isEarly_of_play {moves : List (Move ι)} {i : ι}
    (h : ((contest.play owners root moves).activity i).isEarly) :
    (contest.activity i).isEarly := by
  induction moves generalizing contest with
  | nil => exact h
  | cons move rest ih => exact (follows_after owners root contest move i).isEarly (ih h)

namespace Exclusive

/-- A party's operation is safe if it leaves the files as they are, or if no other party has a lock
file. -/
theorem put {activity : Activity} {disk : FileSystem} (h : Exclusive owners root contest)
    (hbacked : activity.Backed (owners party) root disk)
    (hothers : (disk = contest.disk ∧ activity.owns = false) ∨
      ∀ j, j ≠ party → (contest.activity j).owns = false) :
    Exclusive owners root (contest.put party activity disk) := by
  constructor
  · intro i j hi hj
    by_cases hip : i = party
    · subst hip
      by_cases hji : j = i
      · exact hji.symm
      · rw [put_activity_self] at hi
        rw [put_activity_of_ne hji] at hj
        rcases hothers with ⟨-, hnot⟩ | hnone
        · simp [hnot] at hi
        · simp [hnone j hji] at hj
    · rw [put_activity_of_ne hip] at hi
      by_cases hjp : j = party
      · subst hjp
        rw [put_activity_self] at hj
        rcases hothers with ⟨-, hnot⟩ | hnone
        · simp [hnot] at hj
        · simp [hnone i hip] at hi
      · rw [put_activity_of_ne hjp] at hj
        exact h.unique i j hi hj
  · intro i
    by_cases hip : i = party
    · subst hip
      rw [put_activity_self]
      exact hbacked
    · rw [put_activity_of_ne hip]
      rcases hothers with ⟨rfl, -⟩ | hnone
      · exact h.backed i
      · exact (h.backed i).congr (hnone i hip)

/-- An operation that takes no lock away keeps the parties apart. -/
theorem advance (h : Exclusive owners root contest)
    (hevict : ∀ record, contest.activity party ≠ .acquiring (.evict record)) :
    Exclusive owners root (contest.advance owners root party) := by
  have hparty := h.backed party
  cases hactivity : contest.activity party with
  | acquiring stage =>
    rw [hactivity] at hparty
    rw [advance_of_acquiring hactivity]
    by_cases hmade : stage.hasMade
    · cases stage with
      | fill record handle =>
        have howns : (contest.activity party).owns := by rw [hactivity]; rfl
        exact h.put (Activity.backed_fill hparty) (Or.inr (h.alone howns))
      | _ => simp [Stage.hasMade] at hmade
    · rw [Bool.not_eq_true] at hmade
      refine h.put (Activity.backed_perform hparty hmade) ?_
      by_cases htaken : ∃ l, contest.disk.place .keep (pathIn root) = .ok (.taken l)
      · left
        obtain ⟨l, hplace⟩ := htaken
        have hreplaces : stage.replaces = false := by
          cases stage with
          | evict record => exact absurd hactivity (hevict record)
          | fill record handle => exact hmade
          | _ => rfl
        exact ⟨Stage.disk_perform_of_place hplace hreplaces,
          Activity.owns_perform_of_place hplace hreplaces⟩
      · exact Or.inr fun j _ => h.owns_eq_false htaken j
  | departing departure =>
    rw [hactivity] at hparty
    obtain rfl : departure = .tidy := hparty
    rw [advance_of_departing hactivity, depart]
    by_cases htaken : ∃ l, contest.disk.place .keep (pathIn root) = .ok (.taken l)
    · obtain ⟨l, hplace⟩ := htaken
      simp only [Departure.perform]
      split
      · next disk hremove => exact absurd hremove (removeDirectory_of_lock hplace disk)
      · exact h.put trivial (Or.inl ⟨rfl, rfl⟩)
    · have hnone : ∀ j, j ≠ party → (contest.activity j).owns = false :=
        fun j _ => h.owns_eq_false htaken j
      simp only [Departure.perform]
      split <;> exact h.put trivial (Or.inr hnone)
  | _ =>
    have hstays : contest.advance owners root party = contest := by rw [Contest.advance, hactivity]
    rw [hstays]
    exact h

/-- Whoever holds the lock can take its file away, and there is no other one. -/
theorem leave (h : Exclusive owners root contest) {departure : Departure}
    (hdeparture : departure ≠ .tidy) : Exclusive owners root (contest.leave root party departure) := by
  by_cases hholding : contest.activity party = .holding
  · have hparty := h.backed party
    rw [hholding] at hparty
    obtain ⟨serial, l, hplace, attributes, record, -, hface⟩ := hparty
    have hremove := removeFile_of_file hplace hface
    have howns : (contest.activity party).owns := by rw [hholding]; rfl
    rw [leave_of_holding hholding, depart]
    cases departure with
    | tidy => exact absurd rfl hdeparture
    | _ =>
      simp only [Departure.perform, hremove]
      exact h.put rfl (Or.inr (h.alone howns))
  · have hstays : contest.leave root party departure = contest := by
      rw [Contest.leave]
      split
      · contradiction
      · rfl
    rw [hstays]
    exact h

/-- Everything that spares the lock keeps the parties apart. -/
theorem after (h : Exclusive owners root contest) (hspares : contest.Spares root move) :
    Exclusive owners root (contest.after owners root move) := by
  cases move with
  | act party => exact h.advance hspares
  | release party => exact h.leave (by simp)
  | discard party => exact h.leave (by simp)
  | elsewhere change => exact ⟨h.unique, fun i => (h.backed i).aside hspares⟩

end Exclusive

end Contest

end RunLock

end ReleasePublisher
