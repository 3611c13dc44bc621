import ReleasePublisher.Proofs.Publication.Configuration
import ReleasePublisher.Proofs.Publication.Steps

/-!
The lock during a run and after it. The lock file of a run stands while it makes calls and as long as
it has altered the configuration file; when the lock has been given back, nothing is left of it.
-/
namespace ReleasePublisher

namespace Publication

open FileSystem

variable {path : Path}

/-- The run itself has changed what a file holds, and the file has not held `saved` since. -/
def Altered (path : Path) (saved : Bytes) (start : FileSystem) (moments : List Moment) : Prop :=
  ∃ past next rest, moments = past ++ .changed next :: rest ∧
    (∃ content, next.read path = .ok content ∧
      (diskAfter start past).read path ≠ .ok content) ∧
    ∀ m ∈ Moment.changed next :: rest, m.disk.read path ≠ .ok saved

/-- The run has altered a file only in states in which the lock is held: not while the lock is
taken, since the file is as before, and not while it is given back, since the file has been given
back by then and stays. -/
theorem good_of_altered (good : FileSystem → Prop) {saved : Bytes} {fs ended : FileSystem}
    {acquired steps released : List Moment}
    (hacquired : ∀ m ∈ acquired, m.disk.read path = .ok saved)
    (hsteps : ∀ m ∈ steps, good m.disk)
    (hback : ∀ past next rest, steps = past ++ .changed next :: rest →
      ∃ m ∈ Moment.changed next :: rest, m.disk.read path = .ok saved)
    (hended : diskAfter fs (acquired ++ steps) = ended)
    (hreleased : ∀ past next rest content, released = past ++ .changed next :: rest →
      next.read path = .ok content → (diskAfter ended past).read path = .ok content)
    {front tail : List Moment} {m : Moment}
    (hsplit : acquired ++ steps ++ released = front ++ m :: tail)
    (haltered : Altered path saved fs (front ++ [m])) : good m.disk := by
  obtain ⟨past, next, rest, hprefix, ⟨content, hread, hbefore⟩, hsince⟩ := haltered
  have hlast : m ∈ Moment.changed next :: rest := mem_of_append_eq hprefix
  -- the state belongs to the steps, or to the time when the lock is given back
  rcases split_of_append hsplit with ⟨tail', hfirst, -⟩ | ⟨front', rfl, hsecond⟩
  · have hmem : m ∈ acquired ++ steps := by simp [hfirst]
    rcases List.mem_append.mp hmem with hmem | hmem
    · exact absurd (hacquired m hmem) (hsince m hlast)
    · exact hsteps m hmem
  · rw [List.append_assoc] at hprefix
    rcases split_of_append hprefix with ⟨rest', hfirst, hrest⟩ | ⟨past', rfl, hpast⟩
    -- a change made by then has been undone since
    · rcases split_of_append hfirst with ⟨rest'', hfirst', -⟩ | ⟨past'', rfl, hsteps'⟩
      · have hmem : Moment.changed next ∈ acquired := by simp [hfirst']
        exact absurd (hacquired _ hmem) (hsince _ List.mem_cons_self)
      · obtain ⟨m', hmem, hread'⟩ := hback past'' next rest' hsteps'
        refine absurd hread' (hsince m' ?_)
        rw [hrest, ← List.cons_append]
        exact List.mem_append_left _ hmem
    -- giving the lock back is no change to the file
    · have hreleased' : released = past' ++ .changed next :: (rest ++ tail) := by
        rw [hsecond, ← List.singleton_append, ← List.append_assoc, hpast]
        simp
      rw [diskAfter_append, hended] at hbefore
      exact absurd (hreleased past' next _ content hreleased' hread) hbefore

/-- What the calls of a run may do: they leave the lock alone, they do not make a file the lock file,
and builds leave the file so that it can be written. -/
structure LeavesLock (root path : Path) (exchanges : List Exchange) : Prop where
  file_place : ∀ e ∈ exchanges,
    e.after.place .keep (RunLock.pathIn root) = e.before.place .keep (RunLock.pathIn root)
  directory_place : ∀ e ∈ exchanges, e.after.place .keep (RunLock.directoryIn root) =
    e.before.place .keep (RunLock.directoryIn root)
  face_eq : ∀ e ∈ exchanges, ∀ l, e.before.place .keep (RunLock.pathIn root) = .ok (.taken l) →
    e.after.face? l = e.before.face? l
  apart : ∀ e ∈ exchanges, RunLock.Apart root path e.after
  at_build : ∀ e ∈ exchanges, ∀ step, e.call = .build step →
    ∃ content disk, e.after.write path content = .ok disk

/-- A call that leaves the lock alone leaves it to its holder. -/
theorem LeavesLock.holding {owner : LockOwner} {root path : Path} {serial : Serial}
    {d l : Location} {exchanges : List Exchange} (h : LeavesLock root path exchanges)
    {e : Exchange} (he : e ∈ exchanges)
    (hbefore : RunLock.Holding owner root path serial d l e.before) :
    RunLock.Holding owner root path serial d l e.after := by
  have hplace := hbefore.stands.place_eq
  constructor
  · constructor
    · rw [h.file_place e he, hplace]
    · rw [h.face_eq e he l hplace]
      exact hbefore.stands.shows
  · rw [h.directory_place e he, hbefore.directory]
  · exact hbefore.location_eq
  · exact h.apart e he

/-- While the steps of a run are done, the lock is held. -/
theorem exists_held {σ : Type} (palette : Palette) (engine : Engine σ) (owner : LockOwner)
    (project : Project) (plan : Plan) (state : σ) {fs : FileSystem} {lock : RunLock} {locked : Site}
    (henter : RunLock.Enterable project.root fs)
    (hapart : RunLock.Apart project.root project.configPath (RunLock.entered project.root fs))
    (hcalls : LeavesLock project.root project.configPath
      (run palette engine owner project plan state { disk := fs }).site.exchanges)
    (hacquire : RunLock.acquire owner project.root { disk := fs } = (.ok lock, locked)) :
    ∃ steps moments d l,
      Executed project.configPath plan locked.disk steps
        (execute palette engine project plan state locked).result
        (execute palette engine project plan state locked).site.disk ∧
      RunLock.Released project.root (execute palette engine project plan state locked).site.disk
        moments (run palette engine owner project plan state { disk := fs }).site.disk ∧
      (run palette engine owner project plan state { disk := fs }).site.history =
        locked.history ++ steps ++ moments ∧
      (run palette engine owner project plan state { disk := fs }).site.exchanges =
        exchangesIn steps ∧
      RunLock.Holding owner project.root project.configPath fs.nextSerial d l
        (execute palette engine project plan state locked).site.disk ∧
      (∀ m ∈ steps,
        RunLock.Holding owner project.root project.configPath fs.nextSerial d l m.disk) ∧
      ∀ e ∈ exchangesIn steps,
        RunLock.Holding owner project.root project.configPath fs.nextSerial d l e.before ∧
        RunLock.Holding owner project.root project.configPath fs.nextSerial d l e.after := by
  obtain ⟨hroot, -, -, disks, hdisks, -⟩ := RunLock.acquire_ok hacquire
  obtain ⟨d, l, hlocked⟩ :=
    RunLock.holding_of_acquire hacquire henter hapart project.isAbsolute_configPath
  obtain ⟨steps, moments, hexecuted, hreleased, -, hhistory⟩ :=
    exists_run palette engine project plan owner hacquire (by rw [hroot])
  have hexchanges := exchanges_run ⟨disks, hdisks⟩ hreleased hhistory
  rw [hexchanges] at hcalls
  obtain ⟨hended, hsteps, hheld⟩ := hexecuted.invariant
    (RunLock.Holding owner project.root project.configPath fs.nextSerial d l) hlocked
    (fun _ _ _ _ hbefore hwritten => hbefore.written hwritten)
    (fun e he hbefore => hcalls.holding he hbefore)
  exact ⟨steps, moments, d, l, hexecuted, hreleased, hhistory, hexchanges, hended, hsteps, hheld⟩

/-- When a run that began with the files `fs` has its own lock file: during its calls, and as long
as it has altered the configuration file. -/
structure Guarded (owner : LockOwner) (root path : Path) (fs : FileSystem) (site : Site) : Prop where
  at_calls : ∀ e ∈ site.exchanges, (∃ l, RunLock.Stands owner root fs.nextSerial l e.before) ∧
    ∃ l, RunLock.Stands owner root fs.nextSerial l e.after
  at_changes : ∀ saved, fs.read path = .ok saved → ∀ front m tail,
    site.history = front ++ m :: tail → Altered path saved fs (front ++ [m]) →
    ∃ l, RunLock.Stands owner root fs.nextSerial l m.disk

/-- A run has its lock whenever it has something to guard. When it has had the lock it leaves no
trace of it, and else it has at most made the directory and removed a stale lock. -/
theorem run_guarded {σ : Type} (palette : Palette) (engine : Engine σ) (owner : LockOwner)
    (project : Project) (plan : Plan) (state : σ) (fs : FileSystem)
    (henter : RunLock.Enterable project.root fs)
    (hapart : RunLock.Apart project.root project.configPath (RunLock.entered project.root fs))
    (hcalls : LeavesLock project.root project.configPath
      (run palette engine owner project plan state { disk := fs }).site.exchanges) :
    Guarded owner project.root project.configPath fs
        (run palette engine owner project plan state { disk := fs }).site ∧
      (∀ lock locked,
        RunLock.acquire owner project.root { disk := fs } = (.ok lock, locked) →
        RunLock.Vacated project.root
          (execute palette engine project plan state locked).site.disk
          (run palette engine owner project plan state { disk := fs }).site.disk) ∧
      ∀ error refused,
        RunLock.acquire owner project.root { disk := fs } = (.error error, refused) →
        RunLock.Cleared project.root (RunLock.entered project.root fs)
          (run palette engine owner project plan state { disk := fs }).site.disk := by
  let held (disk : FileSystem) : Prop :=
    ∃ l, RunLock.Stands owner project.root fs.nextSerial l disk
  obtain ⟨-, herror, disks, hdisks, htouched, hlast⟩ :=
    RunLock.acquire_touched owner project.root { disk := fs }
  -- while the lock is taken, the configuration file stays as it is
  have hacquired : ∀ saved, fs.read project.configPath = .ok saved →
      ∀ m ∈ disks.map Moment.changed, m.disk.read project.configPath = .ok saved := by
    intro saved hread m hm
    obtain ⟨disk, hdisk, rfl⟩ := List.mem_map.mp hm
    exact (htouched disk hdisk).read_eq hapart hread
  rcases hacquire : RunLock.acquire owner project.root { disk := fs } with ⟨error | lock, locked⟩
  · rw [hacquire] at herror
    have hhistory : locked.history = disks.map .changed := by simpa [hacquire] using hdisks
    have hrun := run_of_refused palette engine project plan owner state hacquire
    have hnone := exchanges_of_refused palette engine project plan owner state hacquire
    refine ⟨⟨by simp [hnone], ?_⟩, by simp, ?_⟩
    · intro saved hread front m tail hsplit haltered
      have hsplit' : disks.map Moment.changed ++ [] ++ [] = front ++ m :: tail := by
        simpa [hrun, hhistory] using hsplit
      exact good_of_altered held (hacquired saved hread) (by simp) (by simp) rfl (by simp)
        hsplit' haltered
    · rintro error' refused heq
      rw [hrun]
      exact herror error rfl
  · rw [hacquire] at hdisks hlast
    obtain ⟨steps, moments, d, l, hexecuted, hreleased, hhistory, hexchanges, hended, hsteps, hheld⟩ :=
      exists_held palette engine owner project plan state henter hapart hcalls hacquire
    rw [hexchanges] at hcalls
    refine ⟨⟨?_, ?_⟩, ?_, by simp⟩
    · intro e he
      rw [hexchanges] at he
      obtain ⟨hbefore, hafter⟩ := hheld e he
      exact ⟨⟨l, hbefore.stands⟩, l, hafter.stands⟩
    · intro saved hread front m tail hsplit haltered
      rw [hhistory, hdisks] at hsplit
      have hread' : locked.disk.read project.configPath = .ok saved := by
        obtain ⟨-, htouched', -⟩ := RunLock.acquire_ok hacquire
        exact htouched'.read_eq hapart hread
      have hafter : diskAfter fs (disks.map .changed ++ steps) =
          (execute palette engine project plan state locked).site.disk := by
        rw [diskAfter_append, hlast, hexecuted.diskAfter_eq]
      refine good_of_altered held (hacquired saved hread) ?_ ?_ hafter ?_ hsplit haltered
      · intro m' hm'
        exact ⟨l, (hsteps m' hm').stands⟩
      · intro past next rest hpast
        exact hexecuted.exists_given_back hread' hcalls.at_build hpast
      · intro past next rest content hpast hnext
        exact hended.read_back project.isAbsolute_configPath hreleased hpast hnext
    · intro lock' locked' heq
      cases heq
      exact hended.vacated hreleased

end Publication

namespace Sample

/-- The first build puts a file beside the lock file, takes the configuration file away and panics. -/
def firstBuildPanics : Script :=
  [(fun disk => act (·.removeFile configPath)
    (act (·.write (.ofString "/work/.shipwright/note") []) disk), .panicked)]

def longRoot : Path := ⟨Path.dot ++ List.replicate 4080 Bytes.slash⟩

def isEmptyDirectory : Option Node → Bool
  | some (.directory _ []) => true
  | _ => false

theorem exists_of_isEmptyDirectory {node : Option Node} (h : isEmptyDirectory node) :
    ∃ attributes, node = some (.directory attributes []) := by
  unfold isEmptyDirectory at h
  split at h
  · exact ⟨_, rfl⟩
  · simp at h

end Sample

namespace Publication

/-- The run panics in its first build. -/
theorem run_guarded_first_build_panics :
    let project := Sample.project "Cargo.toml"
    let locked := (RunLock.acquire Sample.owner project.root { disk := Sample.disk [] }).2
    let outcome := Sample.run project .debug [] Sample.firstBuildPanics
    RunLock.Enterable project.root (Sample.disk []) ∧
      RunLock.Apart project.root project.configPath
        (RunLock.entered project.root (Sample.disk [])) ∧
      LeavesLock project.root project.configPath outcome.site.exchanges ∧
      outcome.result = .panicked ∧ outcome.site.exchanges.length = 1 ∧
      Guarded Sample.owner project.root project.configPath (Sample.disk []) outcome.site ∧
      RunLock.Vacated project.root
        (execute .plain Sample.engine project (Sample.plan .debug) Sample.firstBuildPanics
          locked).site.disk outcome.site.disk := by
  intro project locked outcome
  have henter : RunLock.Enterable project.root (Sample.disk []) :=
    ⟨[Bytes.ofString "work", Bytes.ofString ".shipwright"],
      Or.inl (eq_ok_of_toOption (by decide +kernel))⟩
  let directory : Location := [Bytes.ofString "work", Bytes.ofString ".shipwright"]
  let file : Location := directory ++ [Bytes.ofString "publish.lock"]
  have hplaces : ∀ e ∈ outcome.site.exchanges,
      (e.before.place .keep (RunLock.pathIn project.root)).toOption = some (.taken file) ∧
      (e.after.place .keep (RunLock.pathIn project.root)).toOption = some (.taken file) ∧
      (e.before.place .keep (RunLock.directoryIn project.root)).toOption =
        some (.taken directory) ∧
      (e.after.place .keep (RunLock.directoryIn project.root)).toOption =
        some (.taken directory) := by
    decide +kernel
  have hfiles : ∀ e ∈ outcome.site.exchanges, e.after.face? file = e.before.face? file ∧
      RunLock.Apart project.root project.configPath e.after ∧
      (e.after.write project.configPath []).toOption.isSome := by
    decide +kernel
  have hcalls : LeavesLock project.root project.configPath outcome.site.exchanges := by
    constructor
    · intro e he
      obtain ⟨hbefore, hafter, -, -⟩ := hplaces e he
      rw [eq_ok_of_toOption hbefore, eq_ok_of_toOption hafter]
    · intro e he
      obtain ⟨-, -, hbefore, hafter⟩ := hplaces e he
      rw [eq_ok_of_toOption hbefore, eq_ok_of_toOption hafter]
    · intro e he l hl
      rw [eq_ok_of_toOption (hplaces e he).1] at hl
      cases hl
      exact (hfiles e he).1
    · intro e he
      exact (hfiles e he).2.1
    · intro e he step hcall
      obtain ⟨disk, hdisk⟩ := Option.isSome_iff_exists.mp (hfiles e he).2.2
      exact ⟨[], disk, eq_ok_of_toOption hdisk⟩
  obtain ⟨hguarded, hvacated, -⟩ := run_guarded .plain Sample.engine Sample.owner project
    (Sample.plan .debug) Sample.firstBuildPanics (Sample.disk []) henter Sample.apart hcalls
  exact ⟨henter, Sample.apart, hcalls, by decide +kernel, by decide +kernel, hguarded,
    hvacated _ _ Sample.acquire_eq⟩

/-- A run that cannot make its lock file leaves the empty directory that it has made for it. -/
theorem not_directory_gone_of_long_root :
    let project : Project := ⟨Sample.longRoot, Sample.configPath⟩
    let outcome := Sample.run project .debug [] []
    RunLock.Enterable project.root (Sample.disk []) ∧
      RunLock.Apart project.root project.configPath
        (RunLock.entered project.root (Sample.disk [])) ∧
      LeavesLock project.root project.configPath outcome.site.exchanges ∧
      ¬ ∀ d attributes,
        outcome.site.disk.place .keep (RunLock.directoryIn project.root) = .ok (.taken d) →
        outcome.site.disk.root.at? d ≠ some (.directory attributes []) := by
  intro project outcome
  let directory : Location := [Bytes.ofString ".shipwright"]
  obtain ⟨hfree, hapart, hnone, hplace, hnode⟩ :
      ((Sample.disk []).place .keep (RunLock.directoryIn project.root)).toOption =
          some (.free directory) ∧
        RunLock.Apart project.root project.configPath
          (RunLock.entered project.root (Sample.disk [])) ∧
        outcome.site.exchanges.length = 0 ∧
        (outcome.site.disk.place .keep (RunLock.directoryIn project.root)).toOption =
          some (.taken directory) ∧
        Sample.isEmptyDirectory (outcome.site.disk.root.at? directory) := by
    decide +kernel
  have henter : RunLock.Enterable project.root (Sample.disk []) :=
    ⟨directory, Or.inl (eq_ok_of_toOption hfree)⟩
  refine ⟨henter, hapart, ?_, ?_⟩
  · rw [List.eq_nil_of_length_eq_zero hnone]
    constructor <;> simp
  · intro h
    obtain ⟨attributes, hat⟩ := Sample.exists_of_isEmptyDirectory hnode
    exact h directory attributes (eq_ok_of_toOption hplace) hat

end Publication

end ReleasePublisher
