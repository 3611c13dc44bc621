import ReleasePublisher.Lock.Record
import ReleasePublisher.PublishError
import ReleasePublisher.Site

/-!
Taking and giving back the lock of a project, a file that only its holder can have made. Taking it
is a sequence of stages, each a single operation on the files, so that several parties can be
interleaved stage by stage; a party that nobody disturbs goes through its stages at once. A stale
lock is taken away once and the file made again.
-/
namespace ReleasePublisher

structure RunLock where
  root : Path
  deriving DecidableEq, Repr

namespace RunLock

def directoryName : String := ".shipwright"

def directoryIn (root : Path) : Path := root / .ofString directoryName

def pathIn (root : Path) : Path := directoryIn root / .ofString "publish.lock"

/-- What is left to do for a party that wants the lock. -/
inductive Stage
  /-- Make the directory of the lock. -/
  | enter
  /-- Make the file. -/
  | create (record : LockRecord)
  /-- Read who holds the lock. -/
  | inspect (record : LockRecord)
  /-- See how old an unreadable lock is. -/
  | age (record : LockRecord)
  /-- Take a stale lock away. -/
  | evict (record : LockRecord)
  /-- Make the file once more. -/
  | recreate (record : LockRecord)
  /-- Write the record into the file. -/
  | fill (record : LockRecord) (handle : Handle)
  /-- Read for the answer who holds the lock. -/
  | contend
  deriving DecidableEq, Repr

inductive Progress
  | next (stage : Stage)
  | held
  | refused (error : PublishError)
  deriving DecidableEq, Repr

namespace Stage

def rank : Stage → Nat
  | .enter => 7
  | .create _ => 6
  | .inspect _ => 5
  | .age _ => 4
  | .evict _ => 3
  | .recreate _ => 2
  | .fill .. => 1
  | .contend => 1

structure Performed where
  progress : Progress
  disk : FileSystem
  shown : Transcript := {}

def recordAt (fs : FileSystem) (root : Path) : Option LockRecord :=
  match fs.read (pathIn root) with
  | .ok content => LockRecord.parse? content
  | .error _ => none

def contention : Option LockRecord → PublishError
  | some record => .locked record.owner.describe record.acquired.display
  | none => .locked "another run" "just now"

/-- Makes the file, or goes on with `taken` when there is one. -/
def makeFile (root : Path) (record : LockRecord) (taken : Stage) (fs : FileSystem) : Performed :=
  match fs.createNew (pathIn root) with
  | .ok (disk, handle) => ⟨.next (.fill record handle), disk, {}⟩
  | .error (.system .alreadyExists) => ⟨.next taken, fs, {}⟩
  | .error fault => ⟨.refused (.io fault), fs, {}⟩

/-- Whether a lock that cannot be read was left behind. A file that was just made is not. -/
def isAbandoned (fs : FileSystem) (root : Path) : Bool :=
  match fs.modified? (pathIn root) with
  | some time => LockRecord.staleAge ≤ fs.clock.since time
  | none => false

def perform (owner : LockOwner) (root : Path) (stage : Stage) (fs : FileSystem) : Performed :=
  match stage with
  | .enter =>
    match fs.ensureDirectories (directoryIn root) with
    | (disk, none) => ⟨.next (.create ⟨owner, disk.clock⟩), disk, {}⟩
    | (disk, some fault) => ⟨.refused (.io fault), disk, {}⟩
  | .create record => makeFile root record (.inspect record) fs
  | .inspect record =>
    match recordAt fs root with
    | some found =>
      if found.isStale fs.clock then
        ⟨.next (.evict record), fs,
          .logged .warning ("Removing stale publish lock from " ++ found.owner.describe)⟩
      else ⟨.next .contend, fs, {}⟩
    | none => ⟨.next (.age record), fs, {}⟩
  | .age record =>
    if isAbandoned fs root then
      ⟨.next (.evict record), fs, .logged .warning "Removing unreadable stale publish lock"⟩
    else ⟨.next .contend, fs, {}⟩
  | .evict record =>
    match fs.removeFile (pathIn root) with
    | .ok disk => ⟨.next (.recreate record), disk, {}⟩
    | .error (.system .notFound) => ⟨.next (.recreate record), fs, {}⟩
    | .error fault => ⟨.refused (.io fault), fs, {}⟩
  | .recreate record => makeFile root record .contend fs
  | .fill record handle => ⟨.held, fs.writeTo handle record.fileText, {}⟩
  | .contend => ⟨.refused (contention (recordAt fs root)), fs, {}⟩

/-- Making the file, or coming upon one, brings a party closer to the end. -/
theorem rank_makeFile {root : Path} {record : LockRecord} {taken stage next : Stage}
    {fs : FileSystem} (taken_lt : taken.rank < stage.rank) (one_lt : 1 < stage.rank)
    (h : (makeFile root record taken fs).progress = .next next) : next.rank < stage.rank := by
  unfold makeFile at h
  split at h <;> simp only [Progress.next.injEq, reduceCtorEq] at h <;> subst h <;> assumption

/-- Every stage leads to a later one. -/
theorem rank_lt_of_perform {owner : LockOwner} {root : Path} {stage next : Stage}
    {fs : FileSystem} (h : (perform owner root stage fs).progress = .next next) :
    next.rank < stage.rank := by
  cases stage with
  | create record => exact rank_makeFile (by simp [rank]) (by simp [rank]) h
  | recreate record => exact rank_makeFile (by simp [rank]) (by simp [rank]) h
  | fill record handle => simp [perform] at h
  | contend => simp [perform] at h
  | _ =>
    simp only [perform] at h
    repeat' split at h
    all_goals simp only [Progress.next.injEq, reduceCtorEq] at h
    all_goals subst h; simp [rank]

end Stage

def acquireFrom (owner : LockOwner) (root : Path) (stage : Stage) (site : Site) :
    Except PublishError RunLock × Site :=
  let performed := stage.perform owner root site.disk
  let site : Site := { site.change performed.disk with shown := site.shown ++ performed.shown }
  match _h : performed.progress with
  | .next next => acquireFrom owner root next site
  | .held => (.ok ⟨root⟩, site)
  | .refused error => (.error error, site)
termination_by stage.rank
decreasing_by exact Stage.rank_lt_of_perform _h

def acquire (owner : LockOwner) (root : Path) (site : Site) :
    Except PublishError RunLock × Site :=
  acquireFrom owner root .enter site

def tidy (lock : RunLock) (site : Site) : Site :=
  (site.attempt (·.removeDirectory (directoryIn lock.root))).2

/-- Gives the lock back without an answer: whatever cannot be removed stays. -/
def discard (lock : RunLock) (site : Site) : Site :=
  lock.tidy (site.attempt (·.removeFile (pathIn lock.root))).2

/-- Gives the lock back. A lock file that is already gone is no failure; after a failure the lock is
discarded. -/
def release (lock : RunLock) (site : Site) : Option PublishError × Site :=
  match site.attempt (·.removeFile (pathIn lock.root)) with
  | (none, site) => (none, lock.tidy site)
  | (some (.system .notFound), site) => (none, lock.tidy site)
  | (some fault, site) => (some (.io fault), lock.discard site)

end RunLock

end ReleasePublisher
