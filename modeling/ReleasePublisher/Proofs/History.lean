import ReleasePublisher.Site

/-!
Histories: the files after some moments, the calls among them, calls that follow each other, and
operations that are tried.
-/
namespace ReleasePublisher

/-- A member of two lists in a row is in the first one or in the second. -/
theorem split_of_append {α : Type} {first second past rest : List α} {x : α}
    (h : first ++ second = past ++ x :: rest) :
    (∃ rest', first = past ++ x :: rest' ∧ rest = rest' ++ second) ∨
      ∃ past', past = first ++ past' ∧ second = past' ++ x :: rest := by
  rcases List.append_eq_append_iff.mp h with ⟨past', hpast, hsecond⟩ | ⟨middle, hfirst, hrest⟩
  · exact Or.inr ⟨past', hpast, hsecond⟩
  · cases middle with
    | nil =>
      refine Or.inr ⟨[], ?_, ?_⟩
      · simpa using hfirst.symm
      · simpa using hrest.symm
    | cons y middle =>
      simp only [List.cons_append, List.cons.injEq] at hrest
      obtain ⟨rfl, hrest⟩ := hrest
      exact Or.inl ⟨middle, hfirst, hrest⟩

theorem mem_of_append_eq {α : Type} {front past rest : List α} {x y : α}
    (h : front ++ [y] = past ++ x :: rest) : y ∈ x :: rest := by
  have hlast : (x :: rest).getLast? = some y := by
    have hboth := congrArg List.getLast? h
    simpa [List.getLast?_append, List.getLast?_cons] using hboth.symm
  exact List.mem_of_getLast? hlast

def diskAfter (start : FileSystem) (moments : List Moment) : FileSystem :=
  moments.foldl (fun _ moment => moment.disk) start

@[simp] theorem diskAfter_nil (start : FileSystem) : diskAfter start [] = start := rfl

@[simp] theorem diskAfter_cons (start : FileSystem) (moment : Moment) (rest : List Moment) :
    diskAfter start (moment :: rest) = diskAfter moment.disk rest := rfl

@[simp] theorem diskAfter_append (start : FileSystem) (first rest : List Moment) :
    diskAfter start (first ++ rest) = diskAfter (diskAfter start first) rest :=
  List.foldl_append

def exchangesIn (moments : List Moment) : List Exchange := moments.filterMap Moment.exchange?

@[simp] theorem exchangesIn_nil : exchangesIn [] = [] := rfl

@[simp] theorem exchangesIn_append (first rest : List Moment) :
    exchangesIn (first ++ rest) = exchangesIn first ++ exchangesIn rest :=
  List.filterMap_append

@[simp] theorem exchangesIn_changed (disk : FileSystem) (rest : List Moment) :
    exchangesIn (.changed disk :: rest) = exchangesIn rest := rfl

@[simp] theorem exchangesIn_called (calls : List Exchange) :
    exchangesIn (calls.map .called) = calls := by
  induction calls with
  | nil => rfl
  | cons e calls ih => exact congrArg (e :: ·) ih

theorem exchangesIn_map_changed (disks : List FileSystem) :
    exchangesIn (disks.map .changed) = [] := by
  induction disks with
  | nil => rfl
  | cons d disks ih => exact ih

def Linked : FileSystem → List Exchange → FileSystem → Prop
  | start, [], stop => stop = start
  | start, exchange :: rest, stop => exchange.before = start ∧ Linked exchange.after rest stop

namespace Linked

theorem append {start middle stop : FileSystem} {first rest : List Exchange}
    (h : Linked start first middle) (h' : Linked middle rest stop) :
    Linked start (first ++ rest) stop := by
  induction first generalizing start with
  | nil =>
    cases h
    exact h'
  | cons e first ih => exact ⟨h.1, ih h.2⟩

theorem stop_eq {start stop : FileSystem} {past : List Exchange} {last : Exchange}
    (h : Linked start (past ++ [last]) stop) : stop = last.after := by
  induction past generalizing start with
  | nil => exact h.2
  | cons e past ih => exact ih h.2

/-- What no call changes is at the start of a call what it was at the start of all. -/
theorem eq_before {α : Type} (view : FileSystem → α) {start stop : FileSystem}
    {past rest : List Exchange} {exchange : Exchange}
    (h : Linked start (past ++ exchange :: rest) stop)
    (hview : ∀ e ∈ past, view e.after = view e.before) : view exchange.before = view start := by
  induction past generalizing start with
  | nil => rw [h.1]
  | cons e past ih =>
    obtain ⟨hfirst, hnext⟩ := h
    rw [ih hnext fun e he => hview e (List.mem_cons_of_mem _ he), hview e List.mem_cons_self,
      hfirst]

/-- What each call keeps holds at both ends of every call and when all are over. -/
theorem invariant (good : FileSystem → Prop) {start stop : FileSystem} {calls : List Exchange}
    (h : Linked start calls stop) (hstart : good start)
    (hkeep : ∀ e ∈ calls, good e.before → good e.after) :
    good stop ∧ ∀ e ∈ calls, good e.before ∧ good e.after := by
  induction calls generalizing start with
  | nil =>
    cases h
    exact ⟨hstart, by simp⟩
  | cons e calls ih =>
    obtain ⟨hfirst, hnext⟩ := h
    have hbefore : good e.before := hfirst ▸ hstart
    have hafter := hkeep e List.mem_cons_self hbefore
    obtain ⟨hstop, hall⟩ := ih hnext hafter fun e he => hkeep e (List.mem_cons_of_mem _ he)
    refine ⟨hstop, fun e' he' => ?_⟩
    rcases List.mem_cons.mp he' with rfl | he'
    · exact ⟨hbefore, hafter⟩
    · exact hall e' he'

theorem diskAfter_eq {start stop : FileSystem} {calls : List Exchange}
    (h : Linked start calls stop) : diskAfter start (calls.map .called) = stop := by
  induction calls generalizing start with
  | nil => exact h.symm
  | cons e calls ih => exact ih h.2

end Linked

def Exchange.answer (exchange : Exchange) : EngineCall × CallEnding :=
  (exchange.call, exchange.ending)

structure Exchange.Alike (related : FileSystem → FileSystem → Prop) (first second : Exchange) :
    Prop where
  call_eq : second.call = first.call
  ending_eq : second.ending = first.ending
  before : related first.before second.before
  after : related first.after second.after

/-- A file operation that was tried: what it did, if it did anything. -/
inductive Attempt (operation : FileSystem → Except FileFault FileSystem) (before : FileSystem) :
    List Moment → FileSystem → Prop
  | done {after : FileSystem} (step : operation before = .ok after) :
      Attempt operation before [.changed after] after
  | failed {fault : FileFault} (step : operation before = .error fault) :
      Attempt operation before [] before

namespace Site

theorem attempt_of_ok (operation : FileSystem → Except FileFault FileSystem) {site : Site}
    {disk : FileSystem} (h : operation site.disk = .ok disk) :
    site.attempt operation = (none, site.change disk) := by
  rw [attempt, h]

theorem attempt_of_error (operation : FileSystem → Except FileFault FileSystem) {site : Site}
    {fault : FileFault} (h : operation site.disk = .error fault) :
    site.attempt operation = (some fault, site) := by
  rw [attempt, h]

/-- What an operation does is told by the history, and there is nothing else in it. -/
theorem exists_attempt (site : Site) (operation : FileSystem → Except FileFault FileSystem) :
    ∃ moments, (site.attempt operation).2.history = site.history ++ moments ∧
      Attempt operation site.disk moments (site.attempt operation).2.disk := by
  cases h : operation site.disk with
  | ok disk =>
    rw [attempt_of_ok _ h]
    exact ⟨_, rfl, .done h⟩
  | error fault =>
    rw [attempt_of_error _ h]
    exact ⟨[], by simp, .failed h⟩

end Site

theorem Attempt.diskAfter_eq {operation : FileSystem → Except FileFault FileSystem}
    {before after : FileSystem} {moments : List Moment}
    (h : Attempt operation before moments after) : diskAfter before moments = after := by
  cases h <;> rfl

/-- The only change among what was tried is the first thing that happened. -/
theorem Attempt.step_eq {operation : FileSystem → Except FileFault FileSystem}
    {before after next : FileSystem} {moments past rest : List Moment}
    (h : Attempt operation before moments after)
    (hsplit : moments = past ++ .changed next :: rest) :
    past = [] ∧ operation before = .ok next := by
  cases h with
  | done step =>
    cases past with
    | nil =>
      simp only [List.nil_append, List.cons.injEq, Moment.changed.injEq] at hsplit
      exact ⟨rfl, hsplit.1 ▸ step⟩
    | cons moment past => simp at hsplit
  | failed step => simp at hsplit

theorem Attempt.exchangesIn_eq {operation : FileSystem → Except FileFault FileSystem}
    {before after : FileSystem} {moments : List Moment}
    (h : Attempt operation before moments after) : exchangesIn moments = [] := by
  cases h <;> rfl

end ReleasePublisher
