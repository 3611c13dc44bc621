import ReleasePublisher.Proofs.Lock.MutualExclusion
import ReleasePublisher.Proofs.Lock.Refusal

/-!
Locks that are held for a long time. Parties take the lock and give it back one after another while
time passes. A lock that gets an hour old can be taken over while its holder still has it, and when
that holder gives it back it takes away the lock file of the party that has taken it over. As long
as every lock is given back before it gets an hour old, a lock is held by one party at a time.
-/
namespace ReleasePublisher

namespace RunLock

open FileSystem

inductive Deed (ι : Type)
  | acquire (party : ι)
  | release (party : ι)
  | discard (party : ι)
  | wait (time : Timestamp)

structure Tenure (ι : Type) where
  disk : FileSystem
  since : ι → Option Timestamp

def Deed.giver? {ι : Type} : Deed ι → Option ι
  | .release party => some party
  | .discard party => some party
  | _ => none

namespace Tenure

variable {ι : Type}

def start (fs : FileSystem) : Tenure ι := ⟨fs, fun _ => none⟩

def Young (tenure : Tenure ι) (party : ι) (time : Timestamp) : Prop :=
  tenure.since party = some time ∧ tenure.disk.clock.since time < LockRecord.staleAge

/-- At most one party holds a lock that is not an hour old, and its file stands. -/
structure Kept (owners : ι → LockOwner) (root : Path) (tenure : Tenure ι) : Prop where
  alone : ∀ i j s t, tenure.Young i s → tenure.Young j t → i = j
  signed : ∀ i t, tenure.Young i t → Signed ⟨owners i, t⟩ root tenure.disk

variable {owners : ι → LockOwner} {root : Path} {tenure : Tenure ι} {party : ι}

theorem kept_of_forall_not_young (h : ∀ i t, ¬ tenure.Young i t) : Kept owners root tenure :=
  ⟨fun i _ s _ hi _ => absurd hi (h i s), fun i t hi => absurd hi (h i t)⟩

theorem isStale_of_young {time : Timestamp} (h : tenure.Young party time) (owner : LockOwner) :
    LockRecord.isStale ⟨owner, time⟩ tenure.disk.clock = false := by
  rw [LockRecord.isStale, decide_eq_false_iff_not]
  exact Int.not_le.mpr h.2

/-- A lock that is young when some time has passed was young before. -/
theorem Kept.wait (h : Kept owners root tenure) {time : Timestamp}
    (htime : 0 ≤ time.since tenure.disk.clock) :
    Kept owners root { tenure with disk := { tenure.disk with clock := time } } := by
  have hbefore : ∀ {i t}, Young { tenure with disk := { tenure.disk with clock := time } } i t →
      tenure.Young i t := by
    rintro i t ⟨hi, hyoung⟩
    refine ⟨hi, ?_⟩
    simp only [Timestamp.since] at htime hyoung ⊢
    omega
  refine ⟨fun i j s t hi hj => h.alone i j s t (hbefore hi) (hbefore hj), fun i t hi => ?_⟩
  obtain ⟨hplace, hface, hmodified⟩ := h.signed i t (hbefore hi)
  exact .intro hplace hface hmodified

variable [DecidableEq ι]

def put (tenure : Tenure ι) (party : ι) (since : Option Timestamp) (disk : FileSystem) : Tenure ι :=
  ⟨disk, fun other => if other = party then since else tenure.since other⟩

def acquire (owners : ι → LockOwner) (root : Path) (tenure : Tenure ι) (party : ι) : Tenure ι :=
  match tenure.since party with
  | some _ => tenure
  | none =>
    match RunLock.acquire (owners party) root { disk := tenure.disk } with
    | (.ok _, site) => tenure.put party (some tenure.disk.clock) site.disk
    | (.error _, site) => { tenure with disk := site.disk }

def giveBack (tenure : Tenure ι) (party : ι) (disk : FileSystem) : Tenure ι :=
  match tenure.since party with
  | some _ => tenure.put party none disk
  | none => tenure

def after (owners : ι → LockOwner) (root : Path) (tenure : Tenure ι) : Deed ι → Tenure ι
  | .acquire party => tenure.acquire owners root party
  | .release party =>
    tenure.giveBack party (RunLock.release ⟨root⟩ { disk := tenure.disk }).2.disk
  | .discard party =>
    tenure.giveBack party (RunLock.discard ⟨root⟩ { disk := tenure.disk }).disk
  | .wait time => { tenure with disk := { tenure.disk with clock := time } }

def play (owners : ι → LockOwner) (root : Path) (tenure : Tenure ι) (deeds : List (Deed ι)) :
    Tenure ι :=
  deeds.foldl (after owners root) tenure

theorem play_concat (owners : ι → LockOwner) (root : Path) (tenure : Tenure ι)
    (past : List (Deed ι)) (deed : Deed ι) : tenure.play owners root (past ++ [deed]) =
      (tenure.play owners root past).after owners root deed := by
  rw [play, List.foldl_append]
  rfl

def Forward (owners : ι → LockOwner) (root : Path) (fs : FileSystem) (deeds : List (Deed ι)) :
    Prop :=
  ∀ past time rest, deeds = past ++ .wait time :: rest →
    0 ≤ time.since ((start fs).play owners root past).disk.clock

/-- A party takes the lock only when all locks that are held have been held for an hour. -/
def Succeeds (owners : ι → LockOwner) (root : Path) (fs : FileSystem) (deeds : List (Deed ι)) :
    Prop :=
  ∀ past rest i, deeds = past ++ .acquire i :: rest →
    ((start fs).play owners root past).since i = none →
    ((start fs).play owners root (past ++ [.acquire i])).since i ≠ none →
    ∀ j time, ((start fs).play owners root past).since j = some time →
      LockRecord.staleAge ≤ ((start fs).play owners root past).disk.clock.since time

def Prompt (owners : ι → LockOwner) (root : Path) (fs : FileSystem) (deeds : List (Deed ι)) :
    Prop :=
  ∀ past deed rest i time, deeds = past ++ deed :: rest → deed.giver? = some i →
    ((start fs).play owners root past).since i = some time →
    ((start fs).play owners root past).disk.clock.since time < LockRecord.staleAge

/-- Whoever gives a lock back takes away a lock file that has their own record in it. -/
def GivesOwn (owners : ι → LockOwner) (root : Path) (fs : FileSystem) (deeds : List (Deed ι)) :
    Prop :=
  ∀ past deed rest i time, deeds = past ++ deed :: rest → deed.giver? = some i →
    ((start fs).play owners root past).since i = some time →
    ((start fs).play owners root past).disk.read (pathIn root) =
      .ok (LockRecord.fileText ⟨owners i, time⟩)

variable {fs : FileSystem} {deeds past rest : List (Deed ι)}

theorem since_put_self {since : Option Timestamp} {disk : FileSystem} :
    (tenure.put party since disk).since party = since :=
  if_pos rfl

theorem since_put_of_ne {other : ι} (h : other ≠ party) {since : Option Timestamp}
    {disk : FileSystem} : (tenure.put party since disk).since other = tenure.since other :=
  if_neg h

namespace Kept

/-- A lock that is not an hour old keeps everyone else out, and without one a new lock is alone. -/
theorem acquire (h : Kept owners root tenure) (party : ι) :
    Kept owners root (tenure.acquire owners root party) ∧
      (tenure.since party = none → (tenure.acquire owners root party).since party ≠ none →
        ∀ j t, ¬ tenure.Young j t) := by
  rw [Tenure.acquire]
  cases hsince : tenure.since party with
  | some time => exact ⟨h, by simp⟩
  | none =>
    by_cases hyoung : ∃ j t, tenure.Young j t
    · obtain ⟨j, t, hj⟩ := hyoung
      have hsigned : Signed ⟨owners j, t⟩ root ({ disk := tenure.disk } : Site).disk :=
        h.signed j t hj
      obtain ⟨n, hrefused⟩ :=
        hsigned.acquire_eq_refused (owners party) (isStale_of_young hj (owners j))
      simp only [hrefused]
      exact ⟨h, fun _ hsome => absurd hsince hsome⟩
    · have hnone : ∀ j t, ¬ tenure.Young j t := fun j t hj => hyoung ⟨j, t, hj⟩
      refine ⟨?_, fun _ _ => hnone⟩
      have hclock := clock_acquireFrom (owners party) root .enter { disk := tenure.disk }
      cases hacquire : RunLock.acquire (owners party) root { disk := tenure.disk } with
      | mk result site =>
        rw [RunLock.acquire] at hacquire
        rw [hacquire] at hclock
        simp only at hclock
        cases result with
        | error e =>
          apply kept_of_forall_not_young
          rintro i t ⟨hi, hyoung⟩
          exact hnone i t ⟨hi, hclock ▸ hyoung⟩
        | ok lock =>
          have hsigned := signed_of_acquire hacquire
          have hnew : ∀ i t, Young (tenure.put party (some tenure.disk.clock) site.disk) i t →
              i = party ∧ t = tenure.disk.clock := by
            rintro i t ⟨hi, hyoung⟩
            by_cases hne : i = party
            · subst hne
              rw [since_put_self] at hi
              exact ⟨rfl, by simpa using hi.symm⟩
            · rw [since_put_of_ne hne] at hi
              exact absurd ⟨hi, hclock ▸ hyoung⟩ (hnone i t)
          refine ⟨fun i j s t hi hj => ?_, fun i t hi => ?_⟩
          · rw [(hnew i s hi).1, (hnew j t hj).1]
          · obtain ⟨rfl, rfl⟩ := hnew i t hi
            exact hsigned

/-- Whoever gives back a young lock gives back the only one. -/
theorem giveBack (h : Kept owners root tenure) {disk : FileSystem}
    (hclock : disk.clock = tenure.disk.clock)
    (hprompt : ∀ time, tenure.since party = some time → tenure.Young party time) :
    Kept owners root (tenure.giveBack party disk) := by
  rw [Tenure.giveBack]
  cases hsince : tenure.since party with
  | none => exact h
  | some time =>
    apply kept_of_forall_not_young
    rintro i t ⟨hi, hyoung⟩
    by_cases hne : i = party
    · subst hne
      rw [since_put_self] at hi
      simp at hi
    · rw [since_put_of_ne hne] at hi
      exact hne (h.alone i party t time ⟨hi, hclock ▸ hyoung⟩ (hprompt time hsince))

end Kept

theorem Forward.of_append (h : Forward owners root fs (past ++ rest)) :
    Forward owners root fs past := by
  rintro before time after rfl
  exact h before time (after ++ rest) (by simp)

theorem Prompt.of_append (h : Prompt owners root fs (past ++ rest)) :
    Prompt owners root fs past := by
  rintro before deed after i time rfl
  exact h before deed (after ++ rest) i time (by simp)

/-- When time goes forward and every lock is given back in time, one party at most holds a lock. -/
theorem kept_play (hforward : Forward owners root fs deeds)
    (hprompt : Prompt owners root fs deeds) :
    Kept owners root ((start fs).play owners root deeds) := by
  refine foldl_invariant (kept_of_forall_not_young (by simp [Young, start])) ?_
  rintro past deed rest rfl hkept
  have hyoung : ∀ party, deed.giver? = some party → ∀ time,
      ((start fs).play owners root past).since party = some time →
        ((start fs).play owners root past).Young party time :=
    fun party hgiver time hsince => ⟨hsince, hprompt past deed rest party time rfl hgiver hsince⟩
  cases deed with
  | acquire party => exact (hkept.acquire party).1
  | release party =>
    have hclock := clock_discard ⟨root⟩ { disk := ((start fs).play owners root past).disk }
    rw [← release_eq_discard] at hclock
    exact hkept.giveBack hclock (hyoung party rfl)
  | discard party => exact hkept.giveBack (clock_discard _ _) (hyoung party rfl)
  | wait time => exact hkept.wait (hforward past time rest rfl)

/-- As long as every lock is given back before it gets an hour old, no lock is taken over while it
is held, and nobody takes away the lock file of someone else. -/
theorem succeeds_of_prompt (hforward : Forward owners root fs deeds)
    (hprompt : Prompt owners root fs deeds) :
    Succeeds owners root fs deeds ∧ GivesOwn owners root fs deeds := by
  constructor
  · rintro past rest i rfl hnone hsome j time hj
    have hkept := kept_play hforward.of_append hprompt.of_append
    rw [play_concat] at hsome
    have hold := (hkept.acquire i).2 hnone hsome j time
    exact Int.not_lt.mp fun hlt => hold ⟨hj, hlt⟩
  · rintro past deed rest i time rfl hgiver hsince
    have hkept := kept_play hforward.of_append hprompt.of_append
    have hyoung := hprompt past deed rest i time rfl hgiver hsince
    exact (hkept.signed i time ⟨hsince, hyoung⟩).read_eq

namespace Sample

def owner (party : Fin 3) : LockOwner :=
  ⟨"host", party.val + 1, by have := party.isLt; decide +revert⟩

theorem half_lt : 30 < 60 := by decide

def soon : Timestamp :=
  { (Contest.Sample.disk []).clock with minute := 30, minute_lt := half_lt }

def later : Timestamp := { Timestamp.epoch with hour := 4, hour_lt := by decide }

def handedOn : List (Deed (Fin 3)) :=
  [.acquire 0, .wait soon, .acquire 1, .release 0, .acquire 1]

def outlived : List (Deed (Fin 3)) :=
  [.acquire 0, .wait later, .acquire 1, .release 0, .acquire 2]

/-- Time passes once, after the first party has come. -/
theorem forward_cons {later : Timestamp} {rest : List (Deed (Fin 3))}
    (hlater : 0 ≤ later.since (((start (Contest.Sample.disk [])).play owner Contest.Sample.project
      [.acquire 0]).disk.clock)) (hrest : ∀ time, Deed.wait time ∉ rest) :
    Forward owner Contest.Sample.project (Contest.Sample.disk [])
      (.acquire 0 :: .wait later :: rest) := by
  intro past time after hdeeds
  rcases past with _ | ⟨first, _ | ⟨second, past⟩⟩
  · simp at hdeeds
  · obtain ⟨rfl, rfl, -⟩ : first = .acquire 0 ∧ time = later ∧ _ := by
      simpa [eq_comm] using hdeeds
    exact hlater
  · have hmem : Deed.wait time ∈ rest := by
      simp only [List.cons_append, List.cons.injEq] at hdeeds
      simp [hdeeds.2.2]
    exact absurd hmem (hrest time)

theorem prompt_handedOn :
    Prompt owner Contest.Sample.project (Contest.Sample.disk []) handedOn := by
  have hall : ∀ n < handedOn.length, ∀ i, (handedOn.drop n).head?.bind Deed.giver? = some i →
      (((start (Contest.Sample.disk [])).play owner Contest.Sample.project
          (handedOn.take n)).since i).all fun time =>
        ((start (Contest.Sample.disk [])).play owner Contest.Sample.project
          (handedOn.take n)).disk.clock.since time < LockRecord.staleAge := by
    decide +kernel
  intro past deed rest i time hdeeds hgiver hsince
  have hpast := hall past.length (by simp [hdeeds]) i
  rw [hdeeds, List.drop_left, List.take_left, hsince] at hpast
  simpa using hpast hgiver

end Sample

/-- The second party comes twice while the first one holds the lock and after it. -/
theorem succeeds_of_prompt_handed_on :
    Forward Sample.owner Contest.Sample.project (Contest.Sample.disk []) Sample.handedOn ∧
      Prompt Sample.owner Contest.Sample.project (Contest.Sample.disk []) Sample.handedOn ∧
      (Succeeds Sample.owner Contest.Sample.project (Contest.Sample.disk []) Sample.handedOn ∧
        GivesOwn Sample.owner Contest.Sample.project (Contest.Sample.disk []) Sample.handedOn) ∧
      ((start (Contest.Sample.disk [])).play Sample.owner Contest.Sample.project
        (Sample.handedOn.take 3)).since 1 = none ∧
      ((start (Contest.Sample.disk [])).play Sample.owner Contest.Sample.project
        Sample.handedOn).since 1 = some Sample.soon := by
  have hforward :
      Forward Sample.owner Contest.Sample.project (Contest.Sample.disk []) Sample.handedOn :=
    Sample.forward_cons (by decide +kernel) (by simp)
  exact ⟨hforward, Sample.prompt_handedOn, succeeds_of_prompt hforward Sample.prompt_handedOn,
    by decide +kernel, by decide +kernel⟩

/-- A lock that has just been taken over goes away with the one that it has replaced: the third
party takes the lock when the second one has held it for no time at all. -/
theorem not_succeeds_of_outlived :
    ¬ ∀ (owners : Fin 3 → LockOwner) (root : Path) (fs : FileSystem) (deeds : List (Deed (Fin 3))),
      Forward owners root fs deeds → Succeeds owners root fs deeds := by
  intro h
  have hforward :
      Forward Sample.owner Contest.Sample.project (Contest.Sample.disk []) Sample.outlived :=
    Sample.forward_cons (by decide +kernel) (by simp)
  have hsince := h Sample.owner Contest.Sample.project (Contest.Sample.disk []) Sample.outlived
    hforward [.acquire 0, .wait Sample.later, .acquire 1, .release 0] [] 2 rfl
    (by decide +kernel) (by decide +kernel) 1 Sample.later (by decide +kernel)
  exact absurd hsince (by decide +kernel)

end Tenure

end RunLock

end ReleasePublisher
