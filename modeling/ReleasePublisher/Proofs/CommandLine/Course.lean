import ReleasePublisher.CommandLine.Program
import ReleasePublisher.Proofs.FileSystem.Places
import ReleasePublisher.Proofs.History

/-!
The course of the program. Either it comes to a publication, with everything that this needs in its
place, or it has ended before; all the ways in which it can end are told here.
-/
namespace ReleasePublisher.CommandLine

variable {δ : Type}

structure Understood (world : World δ) (arguments : List Bytes) where
  given : Arguments
  tag : ReleaseTag
  parse_eq : Arguments.parse world.environment arguments = .ok given
  tag_eq : ReleaseTag.ofArgument? given.tag = some tag

/-- A plan is to be carried out, and its files are there. -/
structure Checked (world : World δ) (arguments : List Bytes) extends
    Understood world arguments where
  root : Path
  real : given.dryRun = false
  root_eq : ProjectRoot.find world.disk world.environment given.projectRoot = .ok root
  clear : obstacle? world.disk ⟨root, given.configFile⟩ (planOf given tag) = none

structure Prepared (world : World δ) (arguments : List Bytes) extends Checked world arguments where
  transport : Transport δ
  connect_eq : world.connect (DaemonSocket.path world.environment) = some transport
  pong : ((world.client transport root).ping world.daemon).1 = none

section

variable {world : World δ} {arguments : List Bytes}

namespace Understood

variable (u : Understood world arguments)

/-- Arguments are understood in one way. -/
theorem eq (u' : Understood world arguments) : u' = u := by
  obtain ⟨given, tag, hparse, htag⟩ := u
  obtain ⟨given', tag', hparse', htag'⟩ := u'
  cases hparse.symm.trans hparse'
  cases htag.symm.trans htag'
  rfl

def plan : Plan := planOf u.given u.tag

theorem run_eq :
    run world arguments =
      if u.given.dryRun then finished world 0 (dryRunText world.palette u.plan) ""
      else publish world u.given u.plan := by
  simp only [run, u.parse_eq, runWith, u.tag_eq]
  rfl

end Understood

namespace Checked

variable (c : Checked world arguments)

def project : Project := ⟨c.root, c.given.configFile⟩

def opening : String :=
  introduction world.palette c.root c.plan ++ connectingText world.palette

theorem run_eq : run world arguments = connectAndRun world c.project c.plan c.opening := by
  rw [c.toUnderstood.run_eq, c.real, publish, c.root_eq]
  have hclear : obstacle? world.disk ⟨c.root, c.given.configFile⟩ c.plan = none := c.clear
  simp only [hclear]
  rfl

end Checked

theorem leaves_carryOut (world : World δ) (client : DaemonClient δ) (project : Project) (plan : Plan)
    (output : String) :
    let publication := Publication.run world.palette client.engine world.owner project plan
      world.daemon { disk := world.disk }
    (carryOut world client project plan output).disk = publication.site.disk ∧
      (carryOut world client project plan output).daemon = publication.state := by
  rw [carryOut]
  split <;> exact ⟨rfl, rfl⟩

namespace Prepared

variable (p : Prepared world arguments)

def client : DaemonClient δ := world.client p.transport p.root

def daemon : DaemonState δ := (p.client.ping world.daemon).2

def publication : Publication.Run (DaemonState δ) :=
  Publication.run world.palette p.client.engine world.owner p.project p.plan p.daemon
    { disk := world.disk }

def answers : List (EngineCall × CallEnding) :=
  p.publication.site.exchanges.map Exchange.answer

theorem run_eq :
    run world arguments =
      carryOut { world with daemon := p.daemon } p.client p.project p.plan p.opening := by
  have hping : (world.client p.transport p.root).ping world.daemon = (none, p.daemon) :=
    Prod.ext p.pong rfl
  rw [p.toChecked.run_eq, connectAndRun, p.connect_eq]
  simp only [Checked.project, hping]
  rfl

/-- However the publication ends, its files and its daemon are what the program leaves. -/
theorem leaves :
    (run world arguments).disk = p.publication.site.disk ∧
      (run world arguments).daemon = p.publication.state := by
  rw [p.run_eq]
  exact leaves_carryOut _ _ _ _ _

end Prepared

inductive Course (world : World δ) (arguments : List Bytes) : Outcome δ → Prop
  | asked {request : RequestOption} {output : String}
      (stopped : Arguments.parse world.environment arguments = .error (.asked request)) :
      Course world arguments (finished world 0 output "")
  | refused {error : ArgumentError}
      (stopped : Arguments.parse world.environment arguments = .error (.refused error)) :
      Course world arguments (finished world 2 "" (notice world.noticePalette error.message))
  | untagged {given : Arguments}
      (parsed : Arguments.parse world.environment arguments = .ok given)
      (untagged : ReleaseTag.ofArgument? given.tag = none) :
      Course world arguments (finished world 1 "" (usageText world.palette))
  | listed (u : Understood world arguments) (dry : u.given.dryRun = true) :
      Course world arguments (finished world 0 (dryRunText world.palette u.plan) "")
  | rootless {error : RootError} (u : Understood world arguments) (real : u.given.dryRun = false)
      (failure : ProjectRoot.find world.disk world.environment u.given.projectRoot =
        .error error) :
      Course world arguments (setupFailed world "" error.userMessage)
  | blocked {root : Path} {text : String} (u : Understood world arguments)
      (real : u.given.dryRun = false)
      (found : ProjectRoot.find world.disk world.environment u.given.projectRoot = .ok root)
      (obstacle : obstacle? world.disk ⟨root, u.given.configFile⟩ u.plan = some text) :
      Course world arguments (setupFailed world (introduction world.palette root u.plan) text)
  | unconnected {fault : DaemonFault} (c : Checked world arguments)
      (failure : world.connect (DaemonSocket.path world.environment) = none) :
      Course world arguments (unreachable world c.opening fault)
  | unanswered {transport : Transport δ} {fault : DaemonFault} {daemon : DaemonState δ}
      (c : Checked world arguments)
      (connected : world.connect (DaemonSocket.path world.environment) = some transport)
      (answer : (world.client transport c.root).ping world.daemon = (some (.fault fault), daemon)) :
      Course world arguments (unreachable { world with daemon } c.opening fault)
  | silent {transport : Transport δ} {daemon : DaemonState δ} (c : Checked world arguments)
      (connected : world.connect (DaemonSocket.path world.environment) = some transport)
      (answer : (world.client transport c.root).ping world.daemon = (some .silence, daemon)) :
      Course world arguments (finished { world with daemon } stoppedStatus c.opening "")
  | carried (p : Prepared world arguments) :
      Course world arguments
        (carryOut { world with daemon := p.daemon } p.client p.project p.plan p.opening)

/-- Behind the check of its files, a publication is either out of reach of its daemon or carried
out. -/
theorem course_of_checked (c : Checked world arguments) :
    Course world arguments (run world arguments) := by
  cases hconnect : world.connect (DaemonSocket.path world.environment) with
  | none =>
    rw [c.run_eq, connectAndRun, hconnect]
    exact .unconnected c hconnect
  | some transport =>
    rcases hping : (world.client transport c.root).ping world.daemon with
      ⟨_ | fault | _, daemon⟩
    · let p : Prepared world arguments := ⟨c, transport, hconnect, congrArg Prod.fst hping⟩
      rw [p.run_eq]
      exact .carried p
    · rw [c.run_eq, connectAndRun, hconnect]
      simp only [Checked.project, hping]
      exact .unanswered c hconnect hping
    · rw [c.run_eq, connectAndRun, hconnect]
      simp only [Checked.project, hping]
      exact .silent c hconnect hping

theorem course_of_understood (u : Understood world arguments) :
    Course world arguments (run world arguments) := by
  cases hdry : u.given.dryRun with
  | true =>
    rw [u.run_eq, hdry]
    exact .listed u hdry
  | false =>
    cases hroot : ProjectRoot.find world.disk world.environment u.given.projectRoot with
    | error error =>
      rw [u.run_eq, hdry, publish, hroot]
      exact .rootless u hdry hroot
    | ok root =>
      cases hobstacle : obstacle? world.disk ⟨root, u.given.configFile⟩ u.plan with
      | some text =>
        rw [u.run_eq, hdry, publish, hroot]
        simp only [hobstacle]
        exact .blocked u hdry hroot hobstacle
      | none => exact course_of_checked ⟨u, root, hdry, hroot, hobstacle⟩

/-- There is no other way for the program to go than those that are listed. -/
theorem course (world : World δ) (arguments : List Bytes) :
    Course world arguments (run world arguments) := by
  cases hparse : Arguments.parse world.environment arguments with
  | error stop =>
    rw [run, hparse]
    cases stop with
    | asked request => cases request <;> exact .asked hparse
    | refused error => exact .refused hparse
  | ok given =>
    cases htag : ReleaseTag.ofArgument? given.tag with
    | none =>
      rw [run, hparse]
      simp only [runWith, htag]
      exact .untagged hparse htag
    | some tag => exact course_of_understood ⟨given, tag, hparse, htag⟩

end

namespace Sample

def directory (entries : List (String × Node)) : Node :=
  .directory ⟨0o755, .epoch⟩ (entries.map fun (name, node) => (Bytes.ofString name, node))

def file (serial : Serial) : Node := .file serial ⟨0o644, .epoch⟩ (Bytes.ofString "FROM scratch\n")

def service (name : String) (serial : Serial) : String × Node :=
  (name, directory [("Dockerfile", file serial)])

def project : Node :=
  directory [(".shipwright", directory []), ("Cargo.toml", file 0),
    ("Dockerfile.useCurrentArch", file 1),
    ("crates", directory [service "bonfire" 2,
      ("daemons", directory [service "crond" 3, service "pushd" 4]), service "delta" 5,
      ("services", directory [service "autumn" 6, service "gifbox" 7, service "january" 8])])]

def disk (project : Node) : FileSystem where
  root := directory [("work", project)]
  workingDirectory := { location := [Bytes.ofString "work"] }
  clock := .ofEpoch (2 * LockRecord.staleAge)
  nextSerial := 9

theorem pid_lt : 7 < UInt32.size := by decide

def world (project : Node) (daemon : Transport Unit) : World Unit where
  environment := ⟨[]⟩
  disk := disk project
  palette := .plain
  noticePalette := .plain
  pid := 7
  pid_lt := pid_lt
  helpers := fun _ => none
  connect := fun _ => some daemon
  daemon := { daemon := () }

def daemon (status : Nat) (text : String) : Transport Unit
  | .ping, s => (.reply 200 [], s)
  | .inspect _, s => (.reply 200 (Bytes.ofString "\x7b\x7d"), s)
  | _, s => (.reply status (Bytes.ofString text), s)

def words (arguments : List String) : List Bytes := arguments.map Bytes.ofString

def given (debugBuild : Option String) (dryRun : Bool) : Arguments where
  tag := some "1.0"
  debugBuild := debugBuild
  projectRoot := none
  configFile := Arguments.Reading.defaultConfigFile
  registry := none
  noCache := false
  pull := false
  dryRun := dryRun

theorem tag_ne_empty : "1.0" ≠ "" := by decide

def tag : ReleaseTag := ⟨"1.0", tag_ne_empty⟩

theorem ofArgument?_tag : ReleaseTag.ofArgument? (some "1.0") = some tag := by decide

theorem find_work : ProjectRoot.find (disk project) ⟨[]⟩ none = .ok (.ofString "/work") :=
  eq_ok_of_toOption (by decide +kernel)

theorem parse_release : Arguments.parse ⟨[]⟩ (words ["1.0"]) = .ok (given none false) :=
  eq_ok_of_toOption (by decide +kernel)

def prepared (status : Nat) (text : String) :
    Prepared (world project (daemon status text)) (words ["1.0"]) where
  given := given none false
  tag := tag
  parse_eq := parse_release
  tag_eq := ofArgument?_tag
  root := .ofString "/work"
  real := rfl
  root_eq := find_work
  clear := by
    change obstacle? (disk project) _ _ = none
    decide +kernel
  transport := daemon status text
  connect_eq := rfl
  pong := rfl

end Sample

end ReleasePublisher.CommandLine
