import ReleasePublisher.Proofs.Lock.Contention

/-!
Several parties that want the lock of one project. Each goes through the stages of taking the lock,
and whoever has got it gives it back; their file operations come in any order, with other changes of
the files between them. A party that nobody disturbs does at once what `acquire`, `release` and
`discard` do.
-/
namespace ReleasePublisher

namespace RunLock

inductive Departure
  /-- Take the file away, or else discard the lock. -/
  | release
  /-- Take the file away if it can be. -/
  | discard
  /-- Take the directory away if nothing else is in it. -/
  | tidy
  deriving DecidableEq, Repr

def Departure.perform (root : Path) (departure : Departure) (fs : FileSystem) :
    Option Departure × FileSystem :=
  match departure with
  | .release =>
    match fs.removeFile (pathIn root) with
    | .ok disk => (some .tidy, disk)
    | .error (.system .notFound) => (some .tidy, fs)
    | .error _ => (some .discard, fs)
  | .discard =>
    match fs.removeFile (pathIn root) with
    | .ok disk => (some .tidy, disk)
    | .error _ => (some .tidy, fs)
  | .tidy =>
    match fs.removeDirectory (directoryIn root) with
    | .ok disk => (none, disk)
    | .error _ => (none, fs)

inductive Activity
  | acquiring (stage : Stage)
  | holding
  | refused (error : PublishError)
  | departing (departure : Departure)
  | gone
  deriving DecidableEq, Repr

namespace Activity

def ofProgress : Progress → Activity
  | .next stage => .acquiring stage
  | .held => .holding
  | .refused error => .refused error

def ofDeparture : Option Departure → Activity
  | some departure => .departing departure
  | none => .gone

def ofResult : Except PublishError RunLock → Activity
  | .ok _ => .holding
  | .error error => .refused error

end Activity

inductive Move (ι : Type)
  /-- A party does its next operation. -/
  | act (party : ι)
  /-- A party that holds the lock begins to give it back. -/
  | release (party : ι)
  /-- A party that holds the lock begins to give it back without an answer. -/
  | discard (party : ι)
  /-- The files change otherwise. -/
  | elsewhere (change : FileSystem → FileSystem)

structure Contest (ι : Type) where
  disk : FileSystem
  activity : ι → Activity

/-- What every step of a history keeps, with the state as it is then, holds at the end. -/
theorem foldl_invariant {σ α : Type} {step : σ → α → σ} {P : σ → Prop} {history : List α} {s : σ}
    (hstart : P s) (hstep : ∀ past a rest, history = past ++ a :: rest →
      P (past.foldl step s) → P (step (past.foldl step s) a)) : P (history.foldl step s) := by
  induction history generalizing s with
  | nil => exact hstart
  | cons a rest ih =>
    refine ih (hstep [] a rest rfl hstart) ?_
    rintro past next rest' rfl
    exact hstep (a :: past) next rest' rfl

namespace Contest

variable {ι : Type} [DecidableEq ι]

def start (fs : FileSystem) : Contest ι := ⟨fs, fun _ => .acquiring .enter⟩

def put (contest : Contest ι) (party : ι) (activity : Activity) (disk : FileSystem) : Contest ι :=
  ⟨disk, fun other => if other = party then activity else contest.activity other⟩

def depart (root : Path) (contest : Contest ι) (party : ι) (departure : Departure) : Contest ι :=
  let (left, disk) := departure.perform root contest.disk
  contest.put party (.ofDeparture left) disk

def advance (owners : ι → LockOwner) (root : Path) (contest : Contest ι) (party : ι) : Contest ι :=
  match contest.activity party with
  | .acquiring stage =>
    let performed := stage.perform (owners party) root contest.disk
    contest.put party (.ofProgress performed.progress) performed.disk
  | .departing departure => contest.depart root party departure
  | _ => contest

def leave (root : Path) (contest : Contest ι) (party : ι) (departure : Departure) : Contest ι :=
  match contest.activity party with
  | .holding => contest.depart root party departure
  | _ => contest

def after (owners : ι → LockOwner) (root : Path) (contest : Contest ι) : Move ι → Contest ι
  | .act party => contest.advance owners root party
  | .release party => contest.leave root party .release
  | .discard party => contest.leave root party .discard
  | .elsewhere change => { contest with disk := change contest.disk }

def play (owners : ι → LockOwner) (root : Path) (contest : Contest ι) (moves : List (Move ι)) :
    Contest ι :=
  moves.foldl (after owners root) contest

variable {owners : ι → LockOwner} {root : Path} {contest : Contest ι} {party other : ι}
  {activity : Activity} {disk : FileSystem}

@[simp] theorem put_disk : (contest.put party activity disk).disk = disk := rfl

@[simp] theorem put_activity_self : (contest.put party activity disk).activity party = activity :=
  if_pos rfl

theorem put_activity_of_ne (h : other ≠ party) :
    (contest.put party activity disk).activity other = contest.activity other :=
  if_neg h

@[simp] theorem put_put (activity' : Activity) (disk' : FileSystem) :
    (contest.put party activity disk).put party activity' disk' =
      contest.put party activity' disk' := by
  simp only [put, Contest.mk.injEq, true_and]
  funext other
  split <;> rfl

@[simp] theorem play_nil : contest.play owners root [] = contest := rfl

@[simp] theorem play_cons (move : Move ι) (rest : List (Move ι)) :
    contest.play owners root (move :: rest) =
      (contest.after owners root move).play owners root rest := rfl

theorem play_append (past rest : List (Move ι)) :
    contest.play owners root (past ++ rest) =
      (contest.play owners root past).play owners root rest :=
  List.foldl_append

theorem play_concat (past : List (Move ι)) (move : Move ι) :
    contest.play owners root (past ++ [move]) =
      (contest.play owners root past).after owners root move :=
  play_append past [move]

/-- What each move keeps, with the contest as it is then, holds at the end. -/
theorem play_invariant {P : Contest ι → Prop} {moves : List (Move ι)} (hstart : P contest)
    (hstep : ∀ past move rest, moves = past ++ move :: rest → P (contest.play owners root past) →
      P ((contest.play owners root past).after owners root move)) :
    P (contest.play owners root moves) :=
  foldl_invariant hstart hstep

theorem advance_of_acquiring {stage : Stage} (h : contest.activity party = .acquiring stage) :
    contest.advance owners root party =
      contest.put party (.ofProgress (stage.perform (owners party) root contest.disk).progress)
        (stage.perform (owners party) root contest.disk).disk := by
  rw [advance, h]

theorem advance_of_departing {departure : Departure}
    (h : contest.activity party = .departing departure) :
    contest.advance owners root party = contest.depart root party departure := by
  rw [advance, h]

theorem activity_advance_of_ne (h : other ≠ party) :
    (contest.advance owners root party).activity other = contest.activity other := by
  rw [advance]
  split
  · exact put_activity_of_ne h
  · exact put_activity_of_ne h
  · rfl

theorem leave_of_holding (h : contest.activity party = .holding) (departure : Departure) :
    contest.leave root party departure = contest.depart root party departure := by
  rw [leave, h]

/-- A party that nobody disturbs takes the lock, or is refused, as `acquireFrom` says. -/
theorem exists_play_acquireFrom {contest : Contest ι} {stage : Stage} {site : Site}
    (h : contest.activity party = .acquiring stage) (hdisk : contest.disk = site.disk) :
    ∃ n, contest.play owners root (List.replicate n (.act party)) =
      contest.put party (.ofResult (acquireFrom (owners party) root stage site).1)
        (acquireFrom (owners party) root stage site).2.disk := by
  have hadvance : contest.advance owners root party = _ := advance_of_acquiring h
  rw [hdisk] at hadvance
  rw [acquireFrom]
  split
  · next next hnext =>
    rw [hnext] at hadvance
    generalize hsite : Site.mk _ _ _ = following
    have hnext' : (contest.advance owners root party).activity party = .acquiring next := by
      rw [hadvance]
      exact put_activity_self
    have hdisk' : (contest.advance owners root party).disk = following.disk := by
      rw [hadvance, ← hsite]
      rfl
    obtain ⟨n, hplay⟩ := exists_play_acquireFrom hnext' hdisk'
    refine ⟨n + 1, ?_⟩
    rw [List.replicate_succ, play_cons, after, hplay, hadvance, put_put]
  · next hheld =>
    rw [hheld] at hadvance
    exact ⟨1, hadvance⟩
  · next error hrefused =>
    rw [hrefused] at hadvance
    exact ⟨1, hadvance⟩
termination_by stage.rank
decreasing_by exact Stage.rank_lt_of_perform ‹_›

theorem depart_tidy {site : Site} (hdisk : contest.disk = site.disk) :
    contest.depart root party .tidy = contest.put party .gone (RunLock.tidy ⟨root⟩ site).disk := by
  rw [depart, hdisk, tidy]
  simp only [Departure.perform]
  cases h : site.disk.removeDirectory (directoryIn root) with
  | ok disk =>
    rw [Site.attempt_of_ok (·.removeDirectory (directoryIn root)) h]
    rfl
  | error fault =>
    rw [Site.attempt_of_error (·.removeDirectory (directoryIn root)) h]
    rfl

theorem depart_discard {site : Site} (hdisk : contest.disk = site.disk) :
    contest.depart root party .discard = contest.put party (.departing .tidy)
      (site.attempt (·.removeFile (pathIn root))).2.disk := by
  rw [depart, hdisk]
  simp only [Departure.perform]
  cases h : site.disk.removeFile (pathIn root) with
  | ok disk =>
    rw [Site.attempt_of_ok (·.removeFile (pathIn root)) h]
    rfl
  | error fault =>
    rw [Site.attempt_of_error (·.removeFile (pathIn root)) h]
    rfl

/-- A party that nobody disturbs discards the lock as `discard` says. -/
theorem play_depart_discard {site : Site} (hdisk : contest.disk = site.disk) :
    (contest.depart root party .discard).play owners root [.act party] =
      contest.put party .gone (RunLock.discard ⟨root⟩ site).disk := by
  rw [depart_discard hdisk, play_cons, play_nil, after, advance_of_departing put_activity_self,
    depart_tidy put_disk, put_put]
  rfl

/-- Even when the file cannot be removed, in which case the lock is discarded after all. -/
theorem exists_play_release {site : Site} (h : contest.activity party = .holding)
    (hdisk : contest.disk = site.disk) :
    ∃ n, contest.play owners root (.release party :: List.replicate n (.act party)) =
      contest.put party .gone (RunLock.release ⟨root⟩ site).2.disk := by
  rw [release_eq_discard]
  by_cases hsame : Departure.perform root .release contest.disk =
      Departure.perform root .discard contest.disk
  · refine ⟨1, ?_⟩
    rw [play_cons, after, leave_of_holding h, depart, hsame]
    exact play_depart_discard hdisk
  -- the file cannot be removed, so that the lock is discarded after all
  · have hrelease : contest.depart root party .release =
        contest.put party (.departing .discard) contest.disk := by
      rw [depart]
      simp only [Departure.perform] at hsame ⊢
      split at hsame <;> simp_all
      rfl
    refine ⟨2, ?_⟩
    rw [play_cons, after, leave_of_holding h, hrelease, List.replicate_succ, play_cons, after,
      advance_of_departing put_activity_self]
    have hdiscarding : (contest.put party (.departing .discard) contest.disk).disk = site.disk :=
      hdisk
    refine (play_depart_discard hdiscarding).trans ?_
    rw [put_put]

/-- What a party does from some files on, operation by operation, is what the lock's own functions
do at once. -/
structure Undisturbed (owners : ι → LockOwner) (root : Path) (contest : Contest ι) (party : ι)
    (site : Site) : Prop where
  acquired : ∀ stage, contest.activity party = .acquiring stage →
    ∃ n, contest.play owners root (List.replicate n (.act party)) =
      contest.put party (.ofResult (acquireFrom (owners party) root stage site).1)
        (acquireFrom (owners party) root stage site).2.disk
  released : contest.activity party = .holding →
    ∃ n, contest.play owners root (.release party :: List.replicate n (.act party)) =
      contest.put party .gone (RunLock.release ⟨root⟩ site).2.disk
  discarded : contest.activity party = .holding →
    contest.play owners root [.discard party, .act party] =
      contest.put party .gone (RunLock.discard ⟨root⟩ site).disk

/-- The operations that come in any order in a contest are those of the lock: whoever is not
disturbed between them takes the lock and gives it back as if there were no contest. -/
theorem undisturbed {site : Site} (hdisk : contest.disk = site.disk) :
    Undisturbed owners root contest party site where
  acquired _ h := exists_play_acquireFrom h hdisk
  released h := exists_play_release h hdisk
  discarded h := by
    rw [play_cons, after, leave_of_holding h]
    exact play_depart_discard hdisk

end Contest

end RunLock

end ReleasePublisher
