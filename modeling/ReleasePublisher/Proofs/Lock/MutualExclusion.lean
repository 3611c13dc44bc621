import ReleasePublisher.Proofs.Lock.Exclusive

/-!
At most one party holds the lock of a project at a time, in every order of the operations of any
number of parties, as long as no lock gets an hour old. Where a lock file stands from the start
everyone waits for it; else only the locks that the parties make themselves are looked at.
-/
namespace ReleasePublisher

namespace RunLock

open FileSystem

namespace Contest

variable {ι : Type} {owners : ι → LockOwner} {root : Path} {contest : Contest ι} {party : ι}
  {move : Move ι}

/-- A lock file stands that none of the parties has made. -/
structure Awaiting (root : Path) (contest : Contest ι) : Prop where
  exists_taken : ∃ l, contest.disk.place .keep (pathIn root) = .ok (.taken l)
  early : ∀ i, (contest.activity i).isEarly

theorem awaiting_start {fs : FileSystem} {l : Location}
    (h : fs.place .keep (pathIn root) = .ok (.taken l)) :
    Awaiting root (start fs : Contest ι) :=
  ⟨⟨l, h⟩, fun _ => rfl⟩

variable [DecidableEq ι]

/-- A party that has made no lock file leaves everything as it is while one stands. -/
theorem disk_advance_of_isEarly {l : Location} (hearly : (contest.activity party).isEarly)
    (hplace : contest.disk.place .keep (pathIn root) = .ok (.taken l))
    (hevict : ∀ record, contest.activity party ≠ .acquiring (.evict record)) :
    (contest.advance owners root party).disk = contest.disk := by
  cases hactivity : contest.activity party with
  | acquiring stage =>
    rw [advance_of_acquiring hactivity]
    apply Stage.disk_perform_of_place hplace
    cases stage with
    | evict record => exact absurd hactivity (hevict record)
    | fill record handle => simp [hactivity, Activity.isEarly, Stage.hasMade] at hearly
    | _ => rfl
  | departing departure => simp [hactivity, Activity.isEarly] at hearly
  | _ => rw [advance, hactivity]

namespace Awaiting

theorem leave_eq (h : Awaiting root contest) (departure : Departure) :
    contest.leave root party departure = contest := by
  have hearly := h.early party
  rw [leave]
  split
  · next hholding => simp [hholding, Activity.isEarly] at hearly
  · rfl

/-- Without taking the lock file away nobody comes to make one. -/
theorem isEarly_advance (h : Awaiting root contest) (hspares : contest.Spares root (.act party)) :
    ((contest.advance owners root party).activity party).isEarly := by
  obtain ⟨l, hplace⟩ := h.exists_taken
  have hearly := h.early party
  cases hactivity : contest.activity party with
  | acquiring stage =>
    rw [hactivity] at hearly
    rw [advance_of_acquiring hactivity, put_activity_self]
    apply Activity.isEarly_ofProgress
    apply Activity.owns_perform_of_place hplace
    cases stage with
    | evict record => exact absurd hactivity (hspares record)
    | fill record handle => simp [Activity.isEarly, Stage.hasMade] at hearly
    | _ => rfl
  | departing departure => simp [hactivity, Activity.isEarly] at hearly
  | _ =>
    rw [advance, hactivity]
    exact hearly

/-- A lock file that none of the parties has made stays as it is. -/
theorem after (h : Awaiting root contest) (hspares : contest.Spares root move) :
    Awaiting root (contest.after owners root move) ∧
      Stage.recordAt (contest.after owners root move).disk root =
        Stage.recordAt contest.disk root := by
  obtain ⟨l, hplace⟩ := h.exists_taken
  cases move with
  | act party =>
    have hdisk : (contest.advance owners root party).disk = contest.disk :=
      disk_advance_of_isEarly (h.early party) hplace hspares
    refine ⟨⟨⟨l, ?_⟩, fun i => ?_⟩, ?_⟩
    · rw [Contest.after, hdisk]
      exact hplace
    · by_cases hne : i = party
      · subst hne
        exact h.isEarly_advance hspares
      · rw [Contest.after, activity_advance_of_ne hne]
        exact h.early i
    · rw [Contest.after, hdisk]
  | release party =>
    rw [Contest.after, h.leave_eq]
    exact ⟨h, rfl⟩
  | discard party =>
    rw [Contest.after, h.leave_eq]
    exact ⟨h, rfl⟩
  | elsewhere change => exact ⟨⟨⟨l, (hspares.place_iff l).mpr hplace⟩, h.early⟩, hspares.record_eq⟩

end Awaiting

/-- A lock that can be read is not an hour old by its record, and one that cannot be read is not by
the time of its last change. -/
def isYoung (root : Path) (fs : FileSystem) : Bool :=
  match Stage.recordAt fs root with
  | some record => !record.isStale fs.clock
  | none => !Stage.isAbandoned fs root

/-- A history of a contest in which only the parties touch the lock and no lock gets an hour old, the
first one neither nor any that is made on the way. -/
structure Timely (owners : ι → LockOwner) (root : Path) (fs : FileSystem)
    (moves : List (Move ι)) : Prop where
  others : ∀ past change rest, moves = past ++ .elsewhere change :: rest →
    Aside root ((start fs).play owners root past).disk
      (change ((start fs).play owners root past).disk)
  young : ∀ past rest, moves = past ++ rest → isYoung root ((start fs).play owners root past).disk
  made : (∀ l, fs.place .keep (pathIn root) ≠ .ok (.taken l)) → ∀ past rest,
    moves = past ++ rest → Stage.isAbandoned ((start fs).play owners root past).disk root = false

/-- One party at a time holds the lock, its file stands as long, and whoever is refused has left
everything as it was while a lock file stood. -/
structure Guarded (owners : ι → LockOwner) (root : Path) (fs : FileSystem)
    (moves : List (Move ι)) : Prop where
  unique : ∀ past rest i j, moves = past ++ rest →
    ((start fs).play owners root past).activity i = .holding →
    ((start fs).play owners root past).activity j = .holding → i = j
  stands : ∀ past rest i, moves = past ++ rest →
    ((start fs).play owners root past).activity i = .holding →
    ∃ serial l, Stands (owners i) root serial l ((start fs).play owners root past).disk
  refused : ∀ past rest i error l, moves = past ++ .act i :: rest →
    ((start fs).play owners root moves).activity i = .refused error →
    ((start fs).play owners root past).disk.place .keep (pathIn root) = .ok (.taken l) →
    ((start fs).play owners root (past ++ [.act i])).disk =
      ((start fs).play owners root past).disk

def NoneEvicts (contest : Contest ι) : Prop :=
  ∀ i record, contest.activity i ≠ .acquiring (.evict record)

/-- All wait for a lock file that none of them has made, and judge it by its age only if it cannot be
read. -/
structure Waiting (root : Path) (contest : Contest ι) : Prop extends Awaiting root contest where
  noneEvicts : contest.NoneEvicts
  unread : ∀ i record, contest.activity i = .acquiring (.age record) →
    Stage.recordAt contest.disk root = none

theorem isStale_of_isYoung {fs : FileSystem} (h : isYoung root fs) (found : LockRecord)
    (hfound : Stage.recordAt fs root = some found) : found.isStale fs.clock = false := by
  simpa [isYoung, hfound] using h

/-- As long as the lock is young, nobody comes to take it away. -/
theorem NoneEvicts.after (h : contest.NoneEvicts) (hyoung : isYoung root contest.disk)
    (hage : ∀ i record, contest.activity i = .acquiring (.age record) →
      Stage.isAbandoned contest.disk root = false) :
    (contest.after owners root move).NoneEvicts := fun i =>
  (follows_after owners root contest move i).ne_evict (isStale_of_isYoung hyoung) (hage i) (h i)

namespace Timely

variable {fs : FileSystem} {past rest moves : List (Move ι)}

theorem of_append (h : Timely owners root fs (past ++ rest)) : Timely owners root fs past := by
  constructor
  · rintro before change rest' rfl
    exact h.others before change (rest' ++ rest) (by simp)
  · rintro before rest' rfl
    exact h.young before (rest' ++ rest) (by simp)
  · rintro hfree before rest' rfl
    exact h.made hfree before (rest' ++ rest) (by simp)

theorem spares (h : Timely owners root fs (past ++ move :: rest))
    (hnone : ((start fs).play owners root past).NoneEvicts) :
    ((start fs).play owners root past).Spares root move := by
  cases move with
  | act party => exact hnone party
  | elsewhere change => exact h.others past change rest rfl
  | _ => trivial

/-- A lock file that stands from the start stays, and if it cannot be read at first it never can. -/
theorem waiting (h : Timely owners root fs moves) {l : Location}
    (hplace : fs.place .keep (pathIn root) = .ok (.taken l)) :
    Waiting root ((start fs).play owners root moves) := by
  refine play_invariant ⟨awaiting_start hplace, by simp [NoneEvicts, start], by simp [start]⟩ ?_
  rintro past move rest rfl ⟨hawaiting, hnone, hunread⟩
  have hyoung := h.young past (move :: rest) rfl
  obtain ⟨hawaiting', hrecord⟩ := hawaiting.after (h.spares hnone)
  refine ⟨hawaiting', hnone.after hyoung fun i record hi => ?_, fun i record hi => ?_⟩
  · simpa [isYoung, hunread i record hi] using hyoung
  · rw [hrecord]
    exact (follows_after owners root _ move i).record_eq_none hi (hunread i record)

/-- In a timely contest no lock is ever taken away as stale. -/
theorem noneEvicts (h : Timely owners root fs moves) :
    ((start fs).play owners root moves).NoneEvicts := by
  by_cases hplace : ∃ l, fs.place .keep (pathIn root) = .ok (.taken l)
  · obtain ⟨l, hplace⟩ := hplace
    exact (h.waiting hplace).noneEvicts
  · have hfree : ∀ l, fs.place .keep (pathIn root) ≠ .ok (.taken l) := fun l hl => hplace ⟨l, hl⟩
    refine play_invariant (by simp [NoneEvicts, start]) ?_
    intro past move rest hmoves hnone
    exact hnone.after (h.young past (move :: rest) hmoves)
      fun _ _ _ => h.made hfree past (move :: rest) hmoves

/-- In a timely contest the parties are kept apart throughout. -/
theorem exclusive (h : Timely owners root fs moves) :
    Exclusive owners root ((start fs).play owners root moves) := by
  refine play_invariant (exclusive_start owners root fs) ?_
  rintro past move rest rfl hexclusive
  exact hexclusive.after (h.spares h.of_append.noneEvicts)

end Timely

/-- As long as no lock gets an hour old, at most one party holds the lock, in every order of the
operations of any number of parties. -/
theorem mutual_exclusion {fs : FileSystem} {moves : List (Move ι)}
    (h : Timely owners root fs moves) : Guarded owners root fs moves := by
  constructor
  · rintro past rest i j rfl hi hj
    exact h.of_append.exclusive.eq_of_holding hi hj
  · rintro past rest i rfl hi
    exact h.of_append.exclusive.exists_stands hi
  · rintro past rest i error l rfl hrefused hplace
    rw [play_append] at hrefused
    have hend : (((((start fs).play owners root past).play owners root
        (.act i :: rest))).activity i).isEarly := by
      rw [hrefused]
      rfl
    rw [play_concat]
    exact disk_advance_of_isEarly (isEarly_of_play hend) hplace (h.of_append.noneEvicts i)

namespace Sample

def project : Path := .ofString "/work"

def owner (party : Bool) : LockOwner := ⟨"host", if party then 8 else 7, by cases party <;> decide⟩

def disk (entries : List (Bytes × Node)) : FileSystem where
  root := .directory ⟨0o755, .epoch⟩ [(Bytes.ofString "work", .directory ⟨0o755, .epoch⟩ entries)]
  workingDirectory := { location := [] }
  clock := .ofEpoch (2 * LockRecord.staleAge)
  nextSerial := 1

def tick : Move Bool :=
  .elsewhere fun fs => { fs with clock := .ofEpoch (fs.clock.sinceEpoch + 1800 * 1000000000) }

def overtaken : List (Move Bool) :=
  [.act false, .act true, .act false, .act true, .act true, tick, .act false, .act true, .act true,
    .release false, .act false]

/-- The parts of a history are those of some length. -/
theorem of_forall_take {α : Type} {P : List α → Prop} {moves past rest : List α}
    (h : ∀ n < moves.length + 1, P (moves.take n)) (hmoves : moves = past ++ rest) : P past := by
  subst hmoves
  have hpast := h past.length (by simp only [List.length_append]; omega)
  rwa [List.take_left] at hpast

theorem timely_overtaken : Timely owner project (disk []) overtaken := by
  constructor
  · intro past change rest hmoves
    have hmem : Move.elsewhere change ∈ overtaken := by simp [hmoves]
    obtain rfl : change = fun fs =>
        { fs with clock := .ofEpoch (fs.clock.sinceEpoch + 1800 * 1000000000) } := by
      simpa [overtaken, tick] using hmem
    exact aside_clock ..
  · intro past rest
    have hall : ∀ n < overtaken.length + 1, isYoung project
        ((start (disk [])).play owner project (overtaken.take n)).disk := by decide +kernel
    exact of_forall_take (P := fun past => isYoung project
      ((start (disk [])).play owner project past).disk = true) hall
  · intro _ past rest
    have hall : ∀ n < overtaken.length + 1, Stage.isAbandoned
        ((start (disk [])).play owner project (overtaken.take n)).disk project = false := by
      decide +kernel
    exact of_forall_take (P := fun past => Stage.isAbandoned
      ((start (disk [])).play owner project past).disk project = false) hall

end Sample

/-- The first party holds the lock, and the second one is refused before the first gives it back. -/
theorem mutual_exclusion_overtaken :
    Timely Sample.owner Sample.project (Sample.disk []) Sample.overtaken ∧
      Guarded Sample.owner Sample.project (Sample.disk []) Sample.overtaken ∧
      ((start (Sample.disk [])).play Sample.owner Sample.project
        (Sample.overtaken.take 7)).activity false = .holding ∧
      ((start (Sample.disk [])).play Sample.owner Sample.project Sample.overtaken).activity true =
        .refused (Stage.contention (some ⟨Sample.owner false, (Sample.disk []).clock⟩)) :=
  ⟨Sample.timely_overtaken, mutual_exclusion Sample.timely_overtaken, by decide +kernel,
    by decide +kernel⟩

end Contest

end RunLock

end ReleasePublisher
