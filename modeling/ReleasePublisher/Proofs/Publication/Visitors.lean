import ReleasePublisher.Proofs.Publication.Answers
import ReleasePublisher.Proofs.Publication.Exclusion
import ReleasePublisher.Proofs.Lock.Refusal

/-!
Other runs that come while a run makes its calls. The engine works in stretches, and between any two
of them others may try to publish the same project. As long as the lock is younger than an hour they
are told who holds it and go away, and the run never notices.
-/
namespace ReleasePublisher

namespace RunLock

open FileSystem

def LeftAlone (root : Path) (before after : FileSystem) : Prop :=
  ∀ l, before.place .keep (pathIn root) = .ok (.taken l) →
    after.place .keep (pathIn root) = .ok (.taken l) ∧ after.face? l = before.face? l

instance (root : Path) (before after : FileSystem) : Decidable (LeftAlone root before after) :=
  decidableAtPlace

namespace Signed

variable {root path : Path} {record : LockRecord} {before after : FileSystem}

theorem leftAlone (h : Signed record root before) (hleft : LeftAlone root before after) :
    Signed record root after := by
  obtain ⟨hplace, hface, hmodified⟩ := h
  obtain ⟨hplace', hface'⟩ := hleft _ hplace
  exact .intro hplace' (hface'.trans hface) hmodified

theorem written {x : Location} {content : Bytes} (h : Signed record root before)
    (hapart : Apart root path before) (hwritten : Written path x content before after) :
    Signed record root after := by
  obtain @⟨l, serial, attributes, hplace, hface, hmodified⟩ := h
  have hne : l ≠ x := by
    rintro rfl
    exact hapart l (Or.inl hplace) hwritten.mem_trail
  exact .intro (hwritten.place_taken hplace).1 ((hwritten.changes.face?_eq l hne).trans hface)
    hmodified

end Signed

end RunLock

namespace Publication

open FileSystem

structure Visitor where
  {τ : Type}
  palette : Palette
  engine : Engine τ
  owner : LockOwner
  project : Project
  plan : Plan
  state : τ

namespace Visitor

def run (visitor : Visitor) (disk : FileSystem) : Run visitor.τ :=
  Publication.run visitor.palette visitor.engine visitor.owner visitor.project visitor.plan
    visitor.state { disk }

/-- The path of the visitor's lock leads where the path of the lock of another project does. -/
def WantsLock (root : Path) (visitor : Visitor) (disk : FileSystem) : Prop :=
  ∀ l, disk.place .keep (RunLock.pathIn root) = .ok (.taken l) →
    disk.place .keep (RunLock.pathIn visitor.project.root) = .ok (.taken l)

instance (root : Path) (visitor : Visitor) (disk : FileSystem) :
    Decidable (visitor.WantsLock root disk) :=
  decidableAtPlace

/-- The visitor is told who holds the lock and since when, makes no call and never changes the
files. -/
structure Refused (record : LockRecord) (visitor : Visitor) (disk : FileSystem) : Prop where
  result_eq : (visitor.run disk).result =
    .failed (.locked record.owner.describe record.acquired.display)
  exchanges_eq : (visitor.run disk).site.exchanges = []
  history_eq : ∀ m ∈ (visitor.run disk).site.history, m.disk = disk
  disk_eq : (visitor.run disk).site.disk = disk

/-- Whoever comes upon a signed lock that is young is refused. -/
theorem refused_of_signed {record : LockRecord} {root : Path} {visitor : Visitor}
    {disk : FileSystem} (hsigned : RunLock.Signed record root disk)
    (hrange : record.acquired.date.inRange) (hyoung : record.isStale disk.clock = false)
    (hwants : visitor.WantsLock root disk) : visitor.Refused record disk := by
  obtain ⟨hplace, hface, hmodified⟩ := hsigned
  have hsigned' : RunLock.Signed record visitor.project.root ({ disk } : Site).disk :=
    .intro (hwants _ hplace) hface hmodified
  obtain ⟨n, hacquire⟩ := hsigned'.acquire_eq_refused visitor.owner hyoung
  have hrun : visitor.run disk = ⟨_, visitor.state, _⟩ :=
    run_of_refused visitor.palette visitor.engine visitor.project visitor.plan visitor.owner
      visitor.state hacquire
  constructor
  · rw [hrun, if_pos hrange]
    rfl
  · exact exchanges_of_refused visitor.palette visitor.engine visitor.project visitor.plan
      visitor.owner visitor.state hacquire
  · rw [hrun]
    intro m hm
    rw [List.eq_of_mem_replicate hm]
    rfl
  · rw [hrun]

end Visitor

/-- What goes on during a call: the engine works in stretches, each of which finds the files as they
are by then, and others come in between. -/
inductive Work (σ : Type) : Type 1
  | finished (ending : CallEnding) (state : σ) (shown : Transcript)
  | stretch (act : FileSystem → FileSystem) (next : FileSystem → Work σ)
  | visit (visitor : Visitor) (next : Work σ)

namespace Work

variable {σ : Type}

def ofEngine (engine : Engine σ) (call : EngineCall) (state : σ) : Work σ :=
  .stretch (fun disk => (engine call state disk).disk) fun disk =>
    let reply := engine call state disk
    .finished reply.ending reply.state reply.shown

def reply : Work σ → FileSystem → CallReply σ
  | .finished ending state shown, disk => ⟨ending, state, disk, shown⟩
  | .stretch act next, disk => (next disk).reply (act disk)
  | .visit visitor next, disk => next.reply (visitor.run disk).site.disk

def quiet : Work σ → Work σ
  | .finished ending state shown => .finished ending state shown
  | .stretch act next => .stretch act fun disk => (next disk).quiet
  | .visit _ next => next.quiet

def meetings : Work σ → FileSystem → List (Visitor × FileSystem)
  | .finished .., _ => []
  | .stretch act next, disk => (next disk).meetings (act disk)
  | .visit visitor next, disk => (visitor, disk) :: next.meetings (visitor.run disk).site.disk

/-- The work leaves the lock alone, and those who come want the same lock and come within an hour of
its being taken. -/
def Discreet (root : Path) (taken : Timestamp) : Work σ → FileSystem → Prop
  | .finished .., _ => True
  | .stretch act next, disk =>
    RunLock.LeftAlone root disk (act disk) ∧ (next disk).Discreet root taken (act disk)
  | .visit visitor next, disk =>
    visitor.WantsLock root disk ∧ disk.clock.since taken < LockRecord.staleAge ∧
      next.Discreet root taken disk

instance decidableDiscreet (root : Path) (taken : Timestamp) :
    (work : Work σ) → (disk : FileSystem) → Decidable (work.Discreet root taken disk)
  | .finished .., _ => isTrue trivial
  | .stretch act next, disk =>
    have := decidableDiscreet root taken (next disk) (act disk)
    inferInstanceAs (Decidable (_ ∧ _))
  | .visit _ next, disk =>
    have := decidableDiscreet root taken next disk
    inferInstanceAs (Decidable (_ ∧ _ ∧ _))

variable {root : Path} {record : LockRecord} {work : Work σ} {disk : FileSystem}

/-- Discreet work leaves the lock signed. -/
theorem Discreet.signed (h : work.Discreet root record.acquired disk)
    (hsigned : RunLock.Signed record root disk) :
    RunLock.Signed record root (work.quiet.reply disk).disk := by
  induction work generalizing disk with
  | finished ending state shown => exact hsigned
  | stretch act next ih => exact ih disk h.2 (hsigned.leftAlone h.1)
  | visit visitor next ih => exact ih h.2.2 hsigned

/-- Whoever comes upon a lock that stands is refused, so that the work goes on as if nobody came. -/
theorem Discreet.reply_eq (h : work.Discreet root record.acquired disk)
    (hsigned : RunLock.Signed record root disk) (hrange : record.acquired.date.inRange) :
    work.reply disk = work.quiet.reply disk ∧
      ∀ m ∈ work.meetings disk, m.1.Refused record m.2 := by
  induction work generalizing disk with
  | finished ending state shown => exact ⟨rfl, by simp [meetings]⟩
  | stretch act next ih => exact ih disk h.2 (hsigned.leftAlone h.1)
  | visit visitor next ih =>
    obtain ⟨hwants, hearly, hnext⟩ := h
    have hyoung : record.isStale disk.clock = false := by
      simpa [LockRecord.isStale] using hearly
    have hrefused := Visitor.refused_of_signed hsigned hrange hyoung hwants
    obtain ⟨hreply, hmeetings⟩ := ih hnext hsigned
    simp only [reply, meetings, quiet, hrefused.disk_eq, List.forall_mem_cons]
    exact ⟨hreply, hrefused, hmeetings⟩

end Work

def engaged {σ : Type} (work : EngineCall → σ → Work σ) : Engine σ :=
  fun call state disk => (work call state).reply disk

def unvisited {σ : Type} (work : EngineCall → σ → Work σ) : Engine σ :=
  engaged fun call state => (work call state).quiet

/-- Every call finds the lock as it was signed when it was taken. In a debug run this needs that the
configuration file is kept apart from it. -/
theorem signed_at_calls {σ : Type} (palette : Palette) (engine : Engine σ) (owner : LockOwner)
    (project : Project) (plan : Plan) (state : σ) (fs : FileSystem)
    (hsigned : ∀ e ∈ (run palette engine owner project plan state { disk := fs }).site.exchanges,
      RunLock.Signed ⟨owner, fs.clock⟩ project.root e.before →
        RunLock.Signed ⟨owner, fs.clock⟩ project.root e.after)
    (hapart : plan.mode = .debug →
      RunLock.Apart project.root project.configPath (RunLock.entered project.root fs) ∧
        ∀ e ∈ (run palette engine owner project plan state { disk := fs }).site.exchanges,
          RunLock.Apart project.root project.configPath e.after) :
    ∀ e ∈ (run palette engine owner project plan state { disk := fs }).site.exchanges,
      RunLock.Signed ⟨owner, fs.clock⟩ project.root e.before := by
  rcases hacquire : RunLock.acquire owner project.root { disk := fs } with ⟨error | lock, locked⟩
  · rw [exchanges_of_refused palette engine project plan owner state hacquire]
    simp
  · obtain ⟨hroot, -, -, disks, hdisks, -⟩ := RunLock.acquire_ok hacquire
    obtain ⟨steps, moments, hexecuted, hreleased, -, hhistory⟩ :=
      exists_run palette engine project plan owner hacquire (by rw [hroot])
    rw [exchanges_run ⟨disks, hdisks⟩ hreleased hhistory] at hsigned hapart ⊢
    have hlocked : RunLock.Signed ⟨owner, fs.clock⟩ project.root locked.disk :=
      RunLock.signed_of_acquire hacquire
    cases hmode : plan.mode with
    | release =>
      obtain ⟨calls, rfl, hlinked⟩ := hexecuted.linked hmode
      rw [exchangesIn_called] at hsigned ⊢
      intro e he
      exact ((hlinked.invariant _ hlocked hsigned).2 e he).1
    | debug =>
      obtain ⟨hentered, hcalls⟩ := hapart hmode
      have hbegin : RunLock.Apart project.root project.configPath
          (RunLock.entered project.root ({ disk := fs } : Site).disk) := hentered
      obtain ⟨-, -, hall⟩ := hexecuted.invariant
        (fun disk => RunLock.Signed ⟨owner, fs.clock⟩ project.root disk ∧
          RunLock.Apart project.root project.configPath disk)
        ⟨hlocked, hbegin.locked hacquire project.isAbsolute_configPath⟩
        (fun _ _ _ _ hbefore hwritten =>
          ⟨hbefore.1.written hbefore.2 hwritten, hbefore.2.written hwritten⟩)
        (fun e he hbefore => ⟨hsigned e he hbefore.1, hcalls e he⟩)
      intro e he
      exact (hall e he).1.1

/-- Others that try to publish a project while a run makes its calls, within an hour of its taking the
lock, are all told who holds the lock and since when. They change nothing, and the run goes as it
goes without them. -/
theorem run_visited {σ : Type} (palette : Palette) (work : EngineCall → σ → Work σ)
    (owner : LockOwner) (project : Project) (plan : Plan) (state : σ) (fs : FileSystem)
    (hrange : fs.clock.date.inRange)
    (hwork : ∀ o ∈ occasions (unvisited work) state
        (run palette (unvisited work) owner project plan state { disk := fs }).site.exchanges,
      (work o.call o.state).Discreet project.root fs.clock o.disk)
    (hapart : plan.mode = .debug →
      RunLock.Apart project.root project.configPath (RunLock.entered project.root fs) ∧
        ∀ e ∈ (run palette (unvisited work) owner project plan state
            { disk := fs }).site.exchanges,
          RunLock.Apart project.root project.configPath e.after) :
    run palette (engaged work) owner project plan state { disk := fs } =
        run palette (unvisited work) owner project plan state { disk := fs } ∧
      ∀ o ∈ occasions (engaged work) state
          (run palette (engaged work) owner project plan state { disk := fs }).site.exchanges,
        ∀ m ∈ (work o.call o.state).meetings o.disk,
          m.1.Refused ⟨owner, fs.clock⟩ m.2 := by
  have hthrough := through_run palette (unvisited work) owner project plan state fs
  have hdiscreet : ∀ o ∈ occasions (unvisited work) state
        (run palette (unvisited work) owner project plan state { disk := fs }).site.exchanges,
      (work o.call o.state).Discreet project.root
        (⟨owner, fs.clock⟩ : LockRecord).acquired o.disk := hwork
  have hkept : ∀ e ∈ (run palette (unvisited work) owner project plan state
        { disk := fs }).site.exchanges,
      RunLock.Signed ⟨owner, fs.clock⟩ project.root e.before →
        RunLock.Signed ⟨owner, fs.clock⟩ project.root e.after := by
    intro e he hbefore
    obtain ⟨o, ho, heq⟩ := hthrough.answered.exists_occasion he
    rw [heq] at hbefore ⊢
    exact (hdiscreet o ho).signed hbefore
  have hsigned := signed_at_calls palette (unvisited work) owner project plan state fs hkept hapart
  have hreply : ∀ o ∈ occasions (unvisited work) state
        (run palette (unvisited work) owner project plan state { disk := fs }).site.exchanges,
      o.reply (engaged work) = o.reply (unvisited work) ∧
        ∀ m ∈ (work o.call o.state).meetings o.disk, m.1.Refused ⟨owner, fs.clock⟩ m.2 := by
    intro o ho
    exact (hdiscreet o ho).reply_eq (hsigned _ (hthrough.answered.exchange_mem ho)) hrange
  have hsame := hthrough.congr (engaged work) fun o ho => (hreply o ho).1
  refine ⟨hsame, ?_⟩
  rw [hsame, occasions_congr fun o ho => (hreply o ho).1]
  exact fun o ho => (hreply o ho).2

end Publication

namespace Sample

open Publication

/-- Someone else, who writes the same root in another way and wants to publish it without toggling
another configuration file. -/
def visitor : Visitor where
  palette := .plain
  engine := engine
  owner := { host := "elsewhere", pid := 8 }
  project := ⟨.ofString "/work/../work", .ofString "other.toml"⟩
  plan := plan .release
  state := []

/-- The calls of a script, each with someone coming before it and once more half an hour later. -/
def visited (call : EngineCall) (script : Script) : Work Script :=
  .visit visitor (.stretch ({ · with clock := halfPast }) fun _ =>
    .visit visitor (Work.ofEngine engine call script))

def visitedRun (project : Project) (script : Script) : Run Script :=
  Publication.run .plain (engaged visited) owner project (plan .debug) script { disk := disk [] }

def unvisitedRun (project : Project) (script : Script) : Run Script :=
  Publication.run .plain (unvisited visited) owner project (plan .debug) script { disk := disk [] }

end Sample

namespace Publication

/-- Someone comes twice during each of the five calls of a debug run, and is turned away. -/
theorem run_visited_twice_at_each_call :
    let project := Sample.project "Cargo.toml"
    let outcome := Sample.visitedRun project Sample.secondPushFails
    let quiet := Sample.unvisitedRun project Sample.secondPushFails
    (Sample.disk []).clock.date.inRange ∧
      (∀ o ∈ occasions (unvisited Sample.visited) Sample.secondPushFails quiet.site.exchanges,
        (Sample.visited o.call o.state).Discreet project.root (Sample.disk []).clock o.disk) ∧
      (RunLock.Apart project.root project.configPath
          (RunLock.entered project.root (Sample.disk [])) ∧
        ∀ e ∈ quiet.site.exchanges, RunLock.Apart project.root project.configPath e.after) ∧
      outcome = quiet ∧ outcome.site.exchanges.length = 5 ∧
      ∀ o ∈ occasions (engaged Sample.visited) Sample.secondPushFails outcome.site.exchanges,
        ((Sample.visited o.call o.state).meetings o.disk).length = 2 ∧
          ∀ m ∈ (Sample.visited o.call o.state).meetings o.disk,
            m.1.Refused Sample.record m.2 := by
  intro project outcome quiet
  have hrange : (Sample.disk []).clock.date.inRange := by decide
  have hwork : ∀ o ∈ occasions (unvisited Sample.visited) Sample.secondPushFails
        quiet.site.exchanges,
      (Sample.visited o.call o.state).Discreet project.root (Sample.disk []).clock o.disk := by
    decide +kernel
  have hapart : ∀ e ∈ quiet.site.exchanges,
      RunLock.Apart project.root project.configPath e.after := by
    decide +kernel
  have hlength : quiet.site.exchanges.length = 5 := by decide +kernel
  obtain ⟨hsame, hrefused⟩ := run_visited .plain Sample.visited Sample.owner project
    (Sample.plan .debug) Sample.secondPushFails (Sample.disk []) hrange hwork
    fun _ => ⟨Sample.apart, hapart⟩
  have hlength' : outcome.site.exchanges.length = 5 :=
    (congrArg (·.site.exchanges.length) hsame).trans hlength
  exact ⟨hrange, hwork, ⟨Sample.apart, hapart⟩, hsame, hlength',
    fun o ho => ⟨rfl, hrefused o ho⟩⟩

/-- When the configuration file of a debug run is its own lock file, nobody can tell from it who
holds the lock. -/
theorem not_refused_of_own_lock :
    let project := Sample.project ".shipwright/publish.lock"
    let outcome := Sample.visitedRun project []
    let quiet := Sample.unvisitedRun project []
    (Sample.disk []).clock.date.inRange ∧
      (∀ o ∈ occasions (unvisited Sample.visited) [] quiet.site.exchanges,
        (Sample.visited o.call o.state).Discreet project.root (Sample.disk []).clock o.disk) ∧
      ¬ ∀ o ∈ occasions (engaged Sample.visited) [] outcome.site.exchanges,
        ∀ m ∈ (Sample.visited o.call o.state).meetings o.disk, m.1.Refused Sample.record m.2 := by
  intro project outcome quiet
  have hfirst : ∃ o ∈ occasions (engaged Sample.visited) [] outcome.site.exchanges,
      ∃ m ∈ (Sample.visited o.call o.state).meetings o.disk,
        (m.1.run m.2).result = .failed (.locked "another run" "just now") := by
    decide +kernel
  refine ⟨by decide, by decide +kernel, fun h => ?_⟩
  obtain ⟨o, ho, m, hm, hresult⟩ := hfirst
  have hrefused := (h o ho m hm).result_eq
  rw [hresult] at hrefused
  exact absurd hrefused (by decide)

end Publication

end ReleasePublisher
