import ReleasePublisher.Proofs.CommandLine.Setup
import ReleasePublisher.Proofs.Context.Dockerfile
import ReleasePublisher.Proofs.Publication.Requests

/-!
The check of all sources before anything is built. It passes exactly if the files of every build are
there and tells of the first build that lacks some. What it has seen is enough: as long as these
files stay, no build of the plan fails because its Dockerfile or its context is not to be found, or
because the one is outside the other.
-/
namespace ReleasePublisher

section Traversal

variable {ε α β : Type} {f : α → Except ε β} {g : α → β}

theorem mapM_of_forall_ok {xs : List α} (h : ∀ x ∈ xs, f x = .ok (g x)) :
    xs.mapM f = .ok (xs.map g) := by
  induction xs with
  | nil => rfl
  | cons x xs ih =>
    obtain ⟨hx, hxs⟩ := List.forall_mem_cons.mp h
    rw [List.mapM_cons, hx, ih hxs]
    rfl

/-- A traversal stops at the first element that fails. -/
theorem mapM_of_first_error {before after : List α} {x : α} {error : ε}
    (h : ∀ y ∈ before, f y = .ok (g y)) (hx : f x = .error error) :
    (before ++ x :: after).mapM f = .error error := by
  induction before with
  | nil =>
    rw [List.nil_append, List.mapM_cons, hx]
    rfl
  | cons y before ih =>
    obtain ⟨hy, hbefore⟩ := List.forall_mem_cons.mp h
    rw [List.cons_append, List.mapM_cons, hy, ih hbefore]
    rfl

end Traversal

namespace BuildSource

variable {fs later : FileSystem} {root : Path} {step : BuildStep} {plan : Plan}
  {error : BuildError}

def dockerfileIn (root : Path) (step : BuildStep) : Path := root / .ofString step.dockerfile

def sourceIn (root : Path) (step : BuildStep) : BuildSource where
  dockerfile := dockerfileIn root step
  context :=
    match step.context with
    | .projectRoot => some root
    | .definitionOnly => none

structure Provided (fs : FileSystem) (root : Path) (step : BuildStep) : Prop where
  isFile : fs.isFile (dockerfileIn root step) = true
  isDirectory : step.context = .projectRoot → fs.isDirectory root = true

instance (fs : FileSystem) (root : Path) (step : BuildStep) : Decidable (Provided fs root step) :=
  decidable_of_iff
    (fs.isFile (dockerfileIn root step) = true ∧
      (step.context = .projectRoot → fs.isDirectory root = true))
    ⟨fun ⟨hfile, hdirectory⟩ => ⟨hfile, hdirectory⟩, fun ⟨hfile, hdirectory⟩ => ⟨hfile, hdirectory⟩⟩

/-- What a build lacks, by the error that tells of it. The Dockerfile comes first. -/
inductive Lacks (fs : FileSystem) (root : Path) (step : BuildStep) : BuildError → Prop
  | dockerfile (missing : fs.isFile (dockerfileIn root step) = false) :
      Lacks fs root step (.dockerfileNotFound (dockerfileIn root step))
  | context (found : fs.isFile (dockerfileIn root step) = true)
      (needed : step.context = .projectRoot) (missing : fs.leads root = false) :
      Lacks fs root step (.contextNotFound root)
  | directory (found : fs.isFile (dockerfileIn root step) = true)
      (needed : step.context = .projectRoot) (leads : fs.leads root = true)
      (other : fs.isDirectory root = false) :
      Lacks fs root step
        (.invalidConfig ("Build context is not a directory: " ++ root.display))

theorem Lacks.not_provided (h : Lacks fs root step error) : ¬ Provided fs root step := by
  rintro ⟨hfile, hdirectory⟩
  cases h with
  | dockerfile missing => simp [hfile] at missing
  | context found needed missing =>
    have hroot := hdirectory needed
    unfold FileSystem.leads at missing
    unfold FileSystem.isDirectory at hroot
    cases hnode : fs.find? root <;> simp_all
  | directory found needed leads other => simp [hdirectory needed] at other

theorem findDockerfile_of_isFile (h : fs.isFile (dockerfileIn root step) = true) :
    findDockerfile fs root step.dockerfile = .ok (dockerfileIn root step) :=
  if_pos h

theorem findContext_of_isDirectory (h : fs.isDirectory root = true) :
    findContext fs root = .ok root := by
  unfold FileSystem.isDirectory at h
  unfold findContext
  cases hnode : fs.find? root with
  | none => simp [hnode] at h
  | some node =>
    have hdirectory : node.isDirectory = true := by simpa [hnode] using h
    simp only [hdirectory, if_true]

theorem resolve_of_provided (h : Provided fs root step) :
    resolve fs root step = .ok (sourceIn root step) := by
  obtain ⟨hfile, hdirectory⟩ := h
  unfold resolve sourceIn
  rw [findDockerfile_of_isFile hfile]
  cases hcontext : step.context with
  | definitionOnly => rfl
  | projectRoot =>
    simp only [findContext_of_isDirectory (hdirectory hcontext)]
    rfl

/-- A build that lacks something is not resolved, and the error tells what it is. -/
theorem exists_lacks (h : ¬ Provided fs root step) :
    ∃ error, Lacks fs root step error ∧ resolve fs root step = .error error := by
  cases hfile : fs.isFile (dockerfileIn root step) with
  | false =>
    have hfind : findDockerfile fs root step.dockerfile =
        .error (.dockerfileNotFound (dockerfileIn root step)) :=
      if_neg (by simpa [dockerfileIn] using hfile)
    refine ⟨_, .dockerfile hfile, ?_⟩
    unfold resolve
    rw [hfind]
    rfl
  | true =>
    have hneeded : step.context = .projectRoot := by
      by_contra hother
      exact h ⟨hfile, fun hcontext => absurd hcontext hother⟩
    have hdirectory : fs.isDirectory root = false := by
      by_contra hroot
      exact h ⟨hfile, fun _ => by simpa using hroot⟩
    have hresolve : resolve fs root step =
        (findContext fs root).map fun context => ⟨dockerfileIn root step, some context⟩ := by
      unfold resolve
      rw [findDockerfile_of_isFile hfile, hneeded]
      cases findContext fs root <;> rfl
    cases hnode : fs.find? root with
    | none =>
      have hleads : fs.leads root = false := by simp [FileSystem.leads, hnode]
      refine ⟨_, .context hfile hneeded hleads, ?_⟩
      simp [hresolve, findContext, hnode, Except.map]
    | some node =>
      have hleads : fs.leads root = true := by simp [FileSystem.leads, hnode]
      have hother : node.isDirectory = false := by
        simpa [FileSystem.isDirectory, hnode] using hdirectory
      refine ⟨_, .directory hfile hneeded hleads hdirectory, ?_⟩
      simp [hresolve, findContext, hnode, hother, Except.map]

/-- The error of a build says what it lacks, and says so of every build that lacks it. -/
theorem resolve_eq_error_iff : resolve fs root step = .error error ↔ Lacks fs root step error := by
  constructor
  · intro herror
    have hlacking : ¬ Provided fs root step := by
      intro hprovided
      simp [resolve_of_provided hprovided] at herror
    obtain ⟨error', hlacks, herror'⟩ := exists_lacks hlacking
    cases herror.symm.trans herror'
    exact hlacks
  · intro hlacks
    obtain ⟨error', hlacks', herror'⟩ := exists_lacks hlacks.not_provided
    have hsame : error' = error := by
      cases hlacks <;> cases hlacks' <;> simp_all
    rw [herror', hsame]

def FirstLacks (fs : FileSystem) (root : Path) (plan : Plan) (error : BuildError) : Prop :=
  ∃ before step after, plan.builds = before ++ step :: after ∧
    (∀ other ∈ before, Provided fs root other) ∧ Lacks fs root step error

theorem preflight_of_provided (h : ∀ step ∈ plan.builds, Provided fs root step) :
    preflight fs root plan = .ok (plan.builds.map (sourceIn root)) :=
  mapM_of_forall_ok fun step hstep => resolve_of_provided (h step hstep)

/-- The error of the check is the one of the first build that lacks something. -/
theorem preflight_of_firstLacks (h : FirstLacks fs root plan error) :
    preflight fs root plan = .error error := by
  obtain ⟨before, step, after, hbuilds, hbefore, hlacks⟩ := h
  unfold preflight
  rw [hbuilds]
  exact mapM_of_first_error (fun other hother => resolve_of_provided (hbefore other hother))
    (resolve_eq_error_iff.mpr hlacks)

theorem provided_or_firstLacks (fs : FileSystem) (root : Path) (plan : Plan) :
    (∀ step ∈ plan.builds, Provided fs root step) ∨ ∃ error, FirstLacks fs root plan error := by
  cases hfind : plan.builds.find? fun step => ! decide (Provided fs root step) with
  | none =>
    rw [List.find?_eq_none] at hfind
    exact Or.inl fun step hstep => by simpa using hfind step hstep
  | some step =>
    obtain ⟨hstep, before, after, hbuilds, hbefore⟩ := List.find?_eq_some_iff_append.mp hfind
    obtain ⟨error, hlacks, -⟩ := exists_lacks (by simpa using hstep)
    exact Or.inr ⟨error, before, step, after, hbuilds, fun other hother => by
      simpa using hbefore other hother, hlacks⟩

structure Checks (fs : FileSystem) (root : Path) (plan : Plan)
    (result : Except BuildError (List BuildSource)) : Prop where
  ok_iff : (∃ sources, result = .ok sources) ↔
    (∀ step ∈ plan.builds, fs.isFile (dockerfileIn root step) = true) ∧
      ((∃ step ∈ plan.builds, step.context = .projectRoot) → fs.isDirectory root = true)
  /-- One source for each build, in the order of the plan. -/
  sources_eq : ∀ sources, result = .ok sources → sources = plan.builds.map (sourceIn root)
  error_iff : ∀ error, result = .error error ↔ FirstLacks fs root plan error

theorem forall_provided_iff : (∀ step ∈ plan.builds, Provided fs root step) ↔
    (∀ step ∈ plan.builds, fs.isFile (dockerfileIn root step) = true) ∧
      ((∃ step ∈ plan.builds, step.context = .projectRoot) → fs.isDirectory root = true) := by
  constructor
  · intro h
    refine ⟨fun step hstep => (h step hstep).isFile, ?_⟩
    rintro ⟨step, hstep, hcontext⟩
    exact (h step hstep).isDirectory hcontext
  · rintro ⟨hfile, hdirectory⟩ step hstep
    exact ⟨hfile step hstep, fun hcontext => hdirectory ⟨step, hstep, hcontext⟩⟩

/-- The check of a plan passes if all builds are provided for, and else names what the first one
lacks. -/
theorem checks_preflight (fs : FileSystem) (root : Path) (plan : Plan) :
    Checks fs root plan (preflight fs root plan) := by
  rcases provided_or_firstLacks fs root plan with hall | ⟨error, hfirst⟩
  · have hok := preflight_of_provided hall
    refine ⟨⟨fun _ => forall_provided_iff.mp hall, fun _ => ⟨_, hok⟩⟩, ?_, ?_⟩
    · intro sources hsources
      exact (Except.ok.inj (hok.symm.trans hsources)).symm
    · intro error
      constructor
      · intro herror
        cases hok.symm.trans herror
      · rintro hfirst
        cases hok.symm.trans (preflight_of_firstLacks hfirst)
  · have herror := preflight_of_firstLacks hfirst
    refine ⟨⟨?_, ?_⟩, ?_, ?_⟩
    · rintro ⟨sources, hok⟩
      cases hok.symm.trans herror
    · intro hall
      obtain ⟨before, step, after, hbuilds, -, hlacks⟩ := hfirst
      have hstep : step ∈ plan.builds := by simp [hbuilds]
      exact absurd (forall_provided_iff.mpr hall step hstep) hlacks.not_provided
    · intro sources hok
      cases hok.symm.trans herror
    · intro error'
      constructor
      · intro herror'
        cases herror.symm.trans herror'
        exact hfirst
      · exact preflight_of_firstLacks

/-- The files of a build are found in another file system as they are in this one. -/
structure Kept (fs later : FileSystem) (root : Path) (step : BuildStep) : Prop where
  isFile_eq : later.isFile (dockerfileIn root step) = fs.isFile (dockerfileIn root step)
  isDirectory_eq : step.context = .projectRoot → later.isDirectory root = fs.isDirectory root

/-- A build stays provided for as long as its files are found as before. -/
theorem Kept.provided (h : Kept fs later root step) (hprovided : Provided fs root step) :
    Provided later root step where
  isFile := h.isFile_eq.trans hprovided.isFile
  isDirectory hcontext := (h.isDirectory_eq hcontext).trans (hprovided.isDirectory hcontext)

end BuildSource

namespace BuildError

inductive IsMisplaced : BuildError → Prop
  | dockerfile (path : Path) : IsMisplaced (.dockerfileNotFound path)
  | context (path : Path) : IsMisplaced (.contextNotFound path)
  | outside (dockerfile context : Path) :
      IsMisplaced (.invalidConfig ("Dockerfile " ++ dockerfile.display ++
        " is outside the build context " ++ context.display))

end BuildError

namespace BuildContext

open BuildSource (Provided dockerfileIn sourceIn)

variable {fs : FileSystem} {root : Path} {step : BuildStep} {error : BuildError}

theorem exists_read_of_isFile {path : Path} (h : fs.isFile path = true) :
    ∃ content, fs.read path = .ok content := by
  unfold FileSystem.isFile FileSystem.find? at h
  unfold FileSystem.read
  cases hfind : fs.find .follow path with
  | error fault => simp [hfind, Except.toOption] at h
  | ok node =>
    have hfile : node.isFile = true := by simpa [hfind, Except.toOption] using h
    cases node with
    | file serial attributes content => exact ⟨content, rfl⟩
    | _ => simp [Node.isFile] at hfile

theorem exists_directory_of_isDirectory {path : Path} (h : fs.isDirectory path = true) :
    ∃ attributes entries, fs.find? path = some (.directory attributes entries) := by
  unfold FileSystem.isDirectory at h
  cases hfind : fs.find? path with
  | none => simp [hfind] at h
  | some node =>
    have hdirectory : node.isDirectory = true := by simpa [hfind] using h
    cases node with
    | directory attributes entries => exact ⟨attributes, entries, rfl⟩
    | _ => simp [Node.isDirectory] at hdirectory

/-- An entry that cannot be made is told of by its own text. -/
theorem not_misplaced_of_dockerfileEntry {name : String} {content : Bytes}
    (h : dockerfileEntry name content = .error error) : ¬ error.IsMisplaced := by
  unfold dockerfileEntry at h
  split at h
  · cases h
  · intro hmisplaced
    cases h
    generalize htext : "Failed to set path " ++ name ++ ": " ++ _ = text at hmisplaced
    cases hmisplaced with
    | outside dockerfile context =>
      have hchars := congrArg String.toList htext
      simp at hchars

/-- A Dockerfile that is named from the root is below it. -/
theorem exists_below?_dockerfileIn (hroot : root.text ≠ [])
    (hrelative : (Path.ofString step.dockerfile).isAbsolute = false) :
    ∃ relative, (dockerfileIn root step).below? root = some relative :=
  Path.exists_below? (Path.components_div_of_relative hroot hrelative)

/-- A context whose sources are there can only fail for what stands in it. -/
theorem not_misplaced_of_create (hprovided : Provided fs root step)
    (hrelative : (Path.ofString step.dockerfile).isAbsolute = false)
    (h : create fs (sourceIn root step).context (dockerfileIn root step) = .error error) :
    ¬ error.IsMisplaced := by
  obtain ⟨content, hread⟩ := exists_read_of_isFile hprovided.isFile
  unfold create at h
  rw [hread] at h
  cases hcontext : step.context with
  | definitionOnly =>
    have hnone : (sourceIn root step).context = none := by simp [sourceIn, hcontext]
    simp only [hnone, ofDockerfile] at h
    cases hentry : dockerfileEntry loneDockerfile content with
    | ok entry => simp [hentry, Except.map] at h
    | error fault =>
      simp only [hentry, Except.map, Except.error.injEq] at h
      exact h ▸ not_misplaced_of_dockerfileEntry hentry
  | projectRoot =>
    have hsome : (sourceIn root step).context = some root := by simp [sourceIn, hcontext]
    obtain ⟨attributes, entries, hfind⟩ :=
      exists_directory_of_isDirectory (hprovided.isDirectory hcontext)
    have hroot : root.text ≠ [] := text_ne_nil_of_find (eq_ok_of_toOption hfind)
    obtain ⟨relative, hbelow⟩ := exists_below?_dockerfileIn hroot hrelative
    simp only [hsome, ofDirectory, hfind, hbelow] at h
    split at h
    · cases h
      intro hmisplaced
      cases hmisplaced
    · split at h
      · cases h
      · cases hentry : dockerfileEntry (slashed relative.display) content with
        | ok entry => simp [hentry, Except.map] at h
        | error fault =>
          simp only [hentry, Except.map, Except.error.injEq] at h
          exact h ▸ not_misplaced_of_dockerfileEntry hentry

end BuildContext

/-- A stream ends a build for a fault of the daemon or for a failure that it tells of. -/
theorem BuildStream.failure_of_consume {palette : Palette} {items : List StreamItem}
    {error : BuildError} {shown : Transcript} (h : consume palette items = (some error, shown)) :
    (∃ fault, error = .daemon fault) ∨ ∃ text, error = .buildFailed text := by
  induction items generalizing shown with
  | nil => cases h
  | cons item rest ih =>
    cases item with
    | fault fault =>
      cases h
      exact Or.inl ⟨fault, rfl⟩
    | message message =>
      unfold consume at h
      split at h
      · cases h
        exact Or.inr ⟨_, rfl⟩
      · cases hrest : consume palette rest with
        | mk failure remark =>
          simp only [hrest, Prod.mk.injEq] at h
          exact ih (hrest.trans (by rw [h.1]))

namespace DaemonClient

variable {δ : Type} (client : DaemonClient δ)

/-- Sending a context fails for the daemon or by its answer, and never for a misplaced file. -/
theorem failure_of_buildContext {step : BuildStep} {context : BuildContext} {s : DaemonState δ}
    {error : BuildError} (h : (client.buildContext step context s).ending = .failed error) :
    (∃ fault, error = .daemon fault) ∨ ∃ text, error = .buildFailed text := by
  simp only [buildContext] at h
  split at h
  · cases h
  · split at h
    · next hconsume =>
      cases h
      exact BuildStream.failure_of_consume hconsume
    · cases h

/-- A build fails for its files or for what the daemon makes of them. -/
theorem failure_of_build {step : BuildStep} {fs : FileSystem} {s : DaemonState δ}
    {error : BuildError} (h : (client.build step fs s).ending = .failed error) :
    BuildContext.ofStep fs client.root step = .error error ∨ (∃ fault, error = .daemon fault) ∨
      ∃ text, error = .buildFailed text := by
  unfold BuildContext.ofStep
  unfold build at h
  cases hresolve : BuildSource.resolve fs client.root step with
  | error fault =>
    simp only [hresolve] at h
    cases h
    exact Or.inl rfl
  | ok source =>
    simp only [hresolve] at h
    simp only [Except.bind]
    cases hcreate : BuildContext.create fs source.context source.dockerfile with
    | error fault =>
      simp only [hcreate] at h
      cases h
      exact Or.inl rfl
    | ok context =>
      simp only [hcreate] at h
      exact Or.inr (client.failure_of_buildContext h)

end DaemonClient

namespace BuildSource

open CommandLine (publish setupFailed introduction)

variable {fs later : FileSystem} {root : Path} {step : BuildStep} {plan : Plan}
  {error : BuildError}

theorem not_misplaced_of_ofStep (hprovided : Provided later root step)
    (hrelative : (Path.ofString step.dockerfile).isAbsolute = false)
    (h : BuildContext.ofStep later root step = .error error) : ¬ error.IsMisplaced := by
  unfold BuildContext.ofStep at h
  rw [resolve_of_provided hprovided] at h
  exact BuildContext.not_misplaced_of_create hprovided hrelative h

/-- No build fails because its files are misplaced, neither when they are resolved and archived nor
when it is carried out as a whole. -/
structure Settled (fs : FileSystem) (root : Path) (step : BuildStep) : Prop where
  resolve_eq : resolve fs root step = .ok (sourceIn root step)
  archived : ∀ error, BuildContext.ofStep fs root step = .error error → ¬ error.IsMisplaced
  built : ∀ {δ : Type} (client : DaemonClient δ) (s : DaemonState δ) (error : BuildError),
    client.root = root → (client.build step fs s).ending = .failed error → ¬ error.IsMisplaced

/-- What the check has found holds for every later build that finds the files as they were. -/
theorem Provided.settled (h : Provided fs root step)
    (hrelative : (Path.ofString step.dockerfile).isAbsolute = false) : Settled fs root step where
  resolve_eq := resolve_of_provided h
  archived _ := not_misplaced_of_ofStep h hrelative
  built := by
    rintro δ client s error rfl hfailed
    rcases client.failure_of_build hfailed with hcontext | ⟨fault, rfl⟩ | ⟨text, rfl⟩
    · exact not_misplaced_of_ofStep h hrelative hcontext
    · intro hmisplaced
      cases hmisplaced
    · intro hmisplaced
      cases hmisplaced

/-- The check tells exactly whether all files of a plan are there, and a program that fails at it
leaves everything as it was. When it has passed, a build whose Dockerfile is named from the root
does not fail later for want of files that are still there, even if the name has `..` in it. -/
theorem preflight_vouches (fs : FileSystem) (root : Path) (plan : Plan) :
    Checks fs root plan (preflight fs root plan) ∧
      (∀ {δ : Type} (world : World δ) (arguments : Arguments) (error : BuildError),
        ProjectRoot.find world.disk world.environment arguments.projectRoot = .ok root →
        preflight world.disk root plan = .error error →
          (publish world arguments plan).exitCode = 1 ∧
            (publish world arguments plan).disk = world.disk ∧
            (publish world arguments plan).daemon = world.daemon) ∧
      ∀ sources later, preflight fs root plan = .ok sources →
        ∀ step ∈ plan.builds, (Path.ofString step.dockerfile).isAbsolute = false →
          Kept fs later root step → Settled later root step := by
  have hchecks := checks_preflight fs root plan
  refine ⟨hchecks, ?_, ?_⟩
  · intro δ world arguments error hroot herror
    have hpublish : publish world arguments plan =
        setupFailed world (introduction world.palette root plan) error.userMessage := by
      simp only [publish, hroot, CommandLine.obstacle?, herror]
    rw [hpublish]
    exact ⟨rfl, rfl, rfl⟩
  · intro sources later hok step hstep hrelative hkept
    have hprovided := forall_provided_iff.mpr (hchecks.ok_iff.mp ⟨sources, hok⟩) step hstep
    exact (hkept.provided hprovided).settled hrelative

/-- What has been checked is still there when another run has the lock. Without the Dockerfile of a
service the program ends, and all is as it was. -/
theorem preflight_vouches_beside_lock :
    let root := Path.ofString "/work"
    let given := CommandLine.Sample.given none false
    let plan := CommandLine.planOf given CommandLine.Sample.tag
    let world := CommandLine.Sample.deserted (CommandLine.Sample.disk CommandLine.Sample.incomplete)
    preflight (CommandLine.Sample.disk CommandLine.Sample.project) root plan =
        .ok (plan.builds.map (sourceIn root)) ∧
      (∀ step ∈ plan.builds, (Path.ofString step.dockerfile).isAbsolute = false ∧
        Kept (CommandLine.Sample.disk CommandLine.Sample.project)
          (CommandLine.Sample.locked CommandLine.Sample.project) root step ∧
        Settled (CommandLine.Sample.locked CommandLine.Sample.project) root step) ∧
      preflight world.disk root plan =
        .error (.dockerfileNotFound (.ofString "/work/crates/delta/Dockerfile")) ∧
      (publish world given plan).disk = world.disk := by
  intro root given plan world
  have hok : preflight (CommandLine.Sample.disk CommandLine.Sample.project) root plan =
      .ok (plan.builds.map (sourceIn root)) :=
    preflight_of_provided (by decide +kernel)
  have hfound : ProjectRoot.find world.disk world.environment given.projectRoot = .ok root :=
    eq_ok_of_toOption (by decide +kernel)
  have herror : preflight world.disk root plan =
      .error (.dockerfileNotFound (.ofString "/work/crates/delta/Dockerfile")) := by
    decide +kernel
  have hrelative : ∀ step ∈ plan.builds, (Path.ofString step.dockerfile).isAbsolute = false := by
    decide +kernel
  have hfiles : ∀ step ∈ plan.builds,
      (CommandLine.Sample.locked CommandLine.Sample.project).isFile (dockerfileIn root step) =
        (CommandLine.Sample.disk CommandLine.Sample.project).isFile (dockerfileIn root step) := by
    decide +kernel
  have hroot : (CommandLine.Sample.locked CommandLine.Sample.project).isDirectory root =
      (CommandLine.Sample.disk CommandLine.Sample.project).isDirectory root := by
    decide +kernel
  obtain ⟨-, hfails, hsettled⟩ :=
    preflight_vouches (CommandLine.Sample.disk CommandLine.Sample.project) root plan
  refine ⟨hok, ?_, herror, (hfails world given _ hfound herror).2.1⟩
  intro step hstep
  have hkept : Kept (CommandLine.Sample.disk CommandLine.Sample.project)
      (CommandLine.Sample.locked CommandLine.Sample.project) root step :=
    ⟨hfiles step hstep, fun _ => hroot⟩
  exact ⟨hrelative step hstep, hkept, hsettled _ _ hok step hstep (hrelative step hstep) hkept⟩

end BuildSource

end ReleasePublisher
