import ReleasePublisher.Proofs.Lock.MutualExclusion

/-!
Taking over a stale lock. A party looks at the lock first and takes it away later, so that what it
takes away need not be what it has looked at: two parties that have found the same lock stale can
both come to hold one. When no more than one party takes a lock away, the parties exclude each other
all the same.
-/
namespace ReleasePublisher

namespace RunLock

open FileSystem

namespace Activity

def evicts : Activity → Bool
  | .acquiring (.evict _) => true
  | _ => false

def mayEvict : Activity → Bool
  | .acquiring stage => 3 ≤ stage.rank
  | _ => false

theorem mayEvict_of_evicts {activity : Activity} (h : activity.evicts) : activity.mayEvict := by
  cases activity with
  | acquiring stage =>
    cases stage with
    | evict record => simp [mayEvict, Stage.rank]
    | _ => simp [evicts] at h
  | _ => simp [evicts] at h

theorem Follows.mayEvict {owner : LockOwner} {root : Path} {fs : FileSystem}
    {activity next : Activity} (h : Follows owner root fs activity next)
    (hactivity : activity.mayEvict = false) : next.mayEvict = false := by
  cases h with
  | stayed => exact hactivity
  | performed stage =>
    cases hprogress : (stage.perform owner root fs).progress with
    | next following =>
      have hrank := Stage.rank_lt_of_perform hprogress
      simp only [Activity.mayEvict, decide_eq_false_iff_not, ofProgress] at hactivity ⊢
      omega
    | _ => rfl
  | left departure => cases departure <;> rfl
  | departed _ departure => cases departure <;> rfl

/-- A party takes a lock away once. -/
theorem mayEvict_perform {owner : LockOwner} {root : Path} {fs : FileSystem} (record : LockRecord) :
    (ofProgress ((Stage.evict record).perform owner root fs).progress).mayEvict = false ∧
      (ofProgress ((Stage.evict record).perform owner root fs).progress).owns = false := by
  simp only [Stage.perform]
  split <;> exact ⟨rfl, rfl⟩

end Activity

namespace Contest

variable {ι : Type} [DecidableEq ι] {owners : ι → LockOwner} {root : Path} {contest : Contest ι}
  {party : ι} {move : Move ι} {fs : FileSystem} {moves : List (Move ι)}

/-- The parties exclude each other, and until `party` has taken the lock away they all wait. -/
structure Contended (owners : ι → LockOwner) (root : Path) (party : ι) (contest : Contest ι) :
    Prop where
  exclusive : Exclusive owners root contest
  waiting : Awaiting root contest ∨ (contest.activity party).mayEvict = false

theorem Contended.advance (h : Contended owners root party contest)
    (hevicts : (contest.activity party).evicts) :
    Contended owners root party (contest.advance owners root party) := by
  have hmay := Activity.mayEvict_of_evicts hevicts
  rcases h.waiting with hawaiting | hnot
  · cases hactivity : contest.activity party with
    | acquiring stage =>
      cases stage with
      | evict record =>
        have hparty := h.exclusive.backed party
        rw [hactivity] at hparty
        have hnone : ∀ j, j ≠ party → (contest.activity j).owns = false := fun j _ =>
          Activity.owns_eq_false_of_isEarly (hawaiting.early j)
        rw [advance_of_acquiring hactivity]
        refine ⟨h.exclusive.put (Activity.backed_perform hparty rfl) (Or.inr hnone), Or.inr ?_⟩
        rw [put_activity_self]
        exact (Activity.mayEvict_perform record).1
      | _ => simp [hactivity, Activity.evicts] at hevicts
    | _ => simp [hactivity, Activity.evicts] at hevicts
  · simp [hnot] at hmay

theorem Contended.after (h : Contended owners root party contest)
    (hspares : contest.Spares root move) :
    Contended owners root party (contest.after owners root move) := by
  refine ⟨h.exclusive.after hspares, ?_⟩
  rcases h.waiting with hawaiting | hnot
  · exact Or.inl (hawaiting.after hspares).1
  · exact Or.inr ((follows_after owners root contest move party).mayEvict hnot)

/-- As long as only one party comes to take the old lock away, the parties are kept apart. -/
theorem contended_play {l : Location} (party : ι)
    (hplace : fs.place .keep (pathIn root) = .ok (.taken l))
    (hothers : ∀ past change rest, moves = past ++ .elsewhere change :: rest →
      Aside root ((start fs).play owners root past).disk
        (change ((start fs).play owners root past).disk))
    (hsole : ∀ past i rest, moves = past ++ .act i :: rest →
      (((start fs).play owners root past).activity i).evicts → i = party) :
    Contended owners root party ((start fs).play owners root moves) := by
  refine play_invariant ⟨exclusive_start owners root fs, Or.inl (awaiting_start hplace)⟩ ?_
  intro past move rest hmoves hcontended
  cases move with
  | act i =>
    by_cases hevicts : (((start fs).play owners root past).activity i).evicts
    · obtain rfl := hsole past i rest hmoves hevicts
      exact hcontended.advance hevicts
    · refine hcontended.after fun record hrecord => ?_
      simp [hrecord, Activity.evicts] at hevicts
  | elsewhere change => exact hcontended.after (hothers past change rest hmoves)
  | _ => exact hcontended.after trivial

/-- When only one party takes a lock away as stale, at most one party holds the lock. -/
theorem exclusion_of_sole_eviction {l : Location} (party : ι)
    (hplace : fs.place .keep (pathIn root) = .ok (.taken l))
    (hothers : ∀ past change rest, moves = past ++ .elsewhere change :: rest →
      Aside root ((start fs).play owners root past).disk
        (change ((start fs).play owners root past).disk))
    (hsole : ∀ past i rest, moves = past ++ .act i :: rest →
      (((start fs).play owners root past).activity i).evicts → i = party) :
    (∀ i j, ((start fs).play owners root moves).activity i = .holding →
        ((start fs).play owners root moves).activity j = .holding → i = j) ∧
      ∀ i, ((start fs).play owners root moves).activity i = .holding →
        ∃ serial l, Stands (owners i) root serial l ((start fs).play owners root moves).disk := by
  have hexclusive := (contended_play party hplace hothers hsole).exclusive
  exact ⟨fun _ _ => hexclusive.eq_of_holding, fun _ => hexclusive.exists_stands⟩

namespace Sample

def staleLock : Bytes × Node :=
  (Bytes.ofString ".shipwright", .directory ⟨0o755, .epoch⟩
    [(Bytes.ofString "publish.lock", .file 0 ⟨0o644, .epoch⟩
      (LockRecord.fileText ⟨⟨"gone", 1, by decide⟩, .epoch⟩))])

def takenOver : List (Move Bool) :=
  List.replicate 6 (.act false) ++ List.replicate 4 (.act true)

/-- Both parties look at the lock before either takes it away. -/
def takenOverTwice : List (Move Bool) :=
  List.replicate 3 (.act false) ++ List.replicate 3 (.act true) ++
    List.replicate 3 (.act false) ++ List.replicate 3 (.act true)

end Sample

/-- The second party finds the new lock of the first one, which has taken the stale lock over. -/
theorem exclusion_of_sole_eviction_taken_over :
    let contest := (start (Sample.disk [Sample.staleLock])).play Sample.owner Sample.project
      Sample.takenOver
    contest.activity false = .holding ∧
      contest.activity true =
        .refused (Stage.contention (some ⟨Sample.owner false, (Sample.disk []).clock⟩)) ∧
      (∀ i j, contest.activity i = .holding → contest.activity j = .holding → i = j) ∧
      ∀ i, contest.activity i = .holding →
        ∃ serial l, Stands (Sample.owner i) Sample.project serial l contest.disk := by
  have hplace : (Sample.disk [Sample.staleLock]).place .keep (pathIn Sample.project) = .ok (.taken
      [Bytes.ofString "work", Bytes.ofString ".shipwright", Bytes.ofString "publish.lock"]) :=
    eq_ok_of_toOption (by decide +kernel)
  have hall : ∀ n < Sample.takenOver.length + 1, (((start (Sample.disk [Sample.staleLock])).play
      Sample.owner Sample.project (Sample.takenOver.take n)).activity true).evicts = false := by
    decide +kernel
  refine ⟨by decide +kernel, by decide +kernel,
    exclusion_of_sole_eviction false hplace ?_ ?_⟩
  · intro past change rest hmoves
    have hmem : Move.elsewhere change ∈ Sample.takenOver := by simp [hmoves]
    simp [Sample.takenOver] at hmem
  · intro past i rest hmoves hevicts
    cases i with
    | false => rfl
    | true =>
      have hnot := Sample.of_forall_take (P := fun past => (((start (Sample.disk
        [Sample.staleLock])).play Sample.owner Sample.project past).activity true).evicts = false)
        hall hmoves
      simp [hnot] at hevicts

/-- Two parties that find the same lock stale can both come to hold one. -/
theorem not_exclusion_of_stale :
    ¬ ∀ (owners : Bool → LockOwner) (root : Path) (fs : FileSystem) (moves : List (Move Bool))
      (record : LockRecord), Stage.recordAt fs root = some record → record.isStale fs.clock →
      (∀ move ∈ moves, ∃ party, move = .act party) →
      ∀ i j, ((start fs).play owners root moves).activity i = .holding →
        ((start fs).play owners root moves).activity j = .holding → i = j := by
  intro h
  have hmoves : ∀ move ∈ Sample.takenOverTwice, ∃ party, move = .act party := by
    simp [Sample.takenOverTwice]
  have heq := h Sample.owner Sample.project (Sample.disk [Sample.staleLock]) Sample.takenOverTwice
    ⟨⟨"gone", 1, by decide⟩, .epoch⟩ (by decide +kernel) (by decide +kernel) hmoves false true
    (by decide +kernel) (by decide +kernel)
  simp at heq

end Contest

end RunLock

end ReleasePublisher
