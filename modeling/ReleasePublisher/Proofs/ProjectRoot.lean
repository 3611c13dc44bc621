import Mathlib.Data.List.Find
import ReleasePublisher.Proofs.CommandLine.Course
import ReleasePublisher.Proofs.Path.Ancestors
import ReleasePublisher.Proofs.Text.Encoding

/-!
Which project is found. A search ends at the lowest project at or above the path where it starts,
and of the sources that may name a project the first that is given decides alone.
-/
namespace ReleasePublisher

namespace ProjectRoot

variable {fs : FileSystem} {env : Environment} {start path dir : Path} {explicit : Option Path}
  {result other : Except RootError Path}

structure IsProject (fs : FileSystem) (dir : Path) : Prop where
  manifest : fs.isFile (dir / .ofString "Cargo.toml") = true
  dockerfile : fs.isFile (dir / .ofString "Dockerfile.useCurrentArch") = true

theorem isRoot_iff : isRoot fs dir = true ↔ IsProject fs dir := by
  unfold isRoot markers
  rw [List.all_cons, List.all_cons, List.all_nil, Bool.and_true, Bool.and_eq_true]
  exact ⟨fun h => ⟨h.1, h.2⟩, fun h => ⟨h.manifest, h.dockerfile⟩⟩

/-- How a search from a path upwards ends: at a project with no other one further down, or nowhere
when there is none. -/
inductive Searched (fs : FileSystem) (start : Path) : Except RootError Path → Prop
  | nearest {dir : Path} (atOrAbove : dir.AtOrAbove start) (project : IsProject fs dir)
      (closest : ∀ lower : Path, lower.AtOrAbove start → dir.Above lower → ¬ IsProject fs lower) :
      Searched fs start (.ok dir)
  | nowhere (none : ∀ dir : Path, dir.AtOrAbove start → ¬ IsProject fs dir) :
      Searched fs start (.error (.notFound start))

/-- A search can end in one way only. -/
theorem Searched.eq (h : Searched fs start result) (h' : Searched fs start other) :
    result = other := by
  cases h with
  | nearest atOrAbove project closest =>
    cases h' with
    | nearest atOrAbove' project' closest' =>
      rcases atOrAbove.trichotomy atOrAbove' with rfl | hlower | hupper
      · rfl
      · exact absurd project' (closest _ atOrAbove' hlower)
      · exact absurd project (closest' _ atOrAbove hupper)
    | nowhere none => exact absurd project (none _ atOrAbove)
  | nowhere none =>
    cases h' with
    | nearest atOrAbove' project' => exact absurd project' (none _ atOrAbove')
    | nowhere => rfl

/-- The search stops at the nearest project. -/
theorem searched_findFrom (fs : FileSystem) (start : Path) :
    Searched fs start (findFrom fs start) := by
  unfold findFrom
  cases hfind : start.ancestors.find? (isRoot fs) with
  | none =>
    apply Searched.nowhere
    intro dir hdir hproject
    have hnone := List.find?_eq_none.mp hfind dir (Path.mem_ancestors_iff.mpr hdir)
    exact hnone (isRoot_iff.mpr hproject)
  | some dir =>
    have hdir := Path.mem_ancestors_iff.mp (List.mem_of_find?_eq_some hfind)
    refine .nearest hdir (isRoot_iff.mp (List.find?_some hfind)) ?_
    intro lower hlower habove hproject
    obtain ⟨-, before, after, hancestors, hbefore⟩ := List.find?_eq_some_iff_append.mp hfind
    have hmem : lower ∈ before ++ dir :: after :=
      hancestors ▸ Path.mem_ancestors_iff.mpr hlower
    have hsorted := Path.pairwise_ancestors start
    rw [hancestors] at hsorted
    have hlt := habove.length_lt
    -- whatever comes behind the found directory has fewer components
    rcases List.mem_append.mp hmem with hfirst | hrest
    · have hpassed := hbefore lower hfirst
      rw [isRoot_iff.mpr hproject] at hpassed
      cases hpassed
    · rcases List.mem_cons.mp hrest with rfl | hlast
      · omega
      · have hless := List.rel_of_pairwise_cons (List.pairwise_append.mp hsorted).2.1 hlast
        omega

theorem findFrom_eq_iff : findFrom fs start = result ↔ Searched fs start result := by
  constructor
  · rintro rfl
    exact searched_findFrom fs start
  · exact (searched_findFrom fs start).eq

inductive Taken (fs : FileSystem) (path : Path) : Except RootError Path → Prop
  | directory (directory : fs.isDirectory path = true) : Taken fs path (.ok path)
  | missing (missing : fs.isDirectory path = false) : Taken fs path (.error (.missing path))

theorem existing_eq_iff : existing fs path = result ↔ Taken fs path result := by
  unfold existing
  split
  · next hdirectory =>
    constructor
    · rintro rfl
      exact .directory hdirectory
    · rintro (_ | hmissing)
      · rfl
      · rw [hdirectory] at hmissing
        cases hmissing
  · next hmissing =>
    constructor
    · rintro rfl
      exact .missing (Bool.eq_false_of_not_eq_true hmissing)
    · rintro (hdirectory | _)
      · exact absurd hdirectory hmissing
      · rfl

/-- The variable for the project is set to a text, which may be empty. -/
def Named (env : Environment) (text : String) : Prop :=
  env.value? rootVariable = some (Bytes.ofString text)

theorem text?_eq_some_iff {text : String} :
    env.text? rootVariable = some text ↔ Named env text := by
  unfold Environment.text? Named
  cases env.value? rootVariable with
  | none => simp
  | some value =>
    rw [Option.bind_some, Option.some.injEq, Utf8.decode?_eq_some_iff]

inductive Decided (fs : FileSystem) (env : Environment) : Option Path → Except RootError Path → Prop
  | given {path : Path} {result : Except RootError Path} (taken : Taken fs path result) :
      Decided fs env (some path) result
  | named {text : String} {result : Except RootError Path} (named : Named env text)
      (taken : Taken fs (.ofString text) result) : Decided fs env none result
  | searched {here : Path} {result : Except RootError Path} (unnamed : ∀ text, ¬ Named env text)
      (stands : fs.currentDirectory = .ok here) (searched : Searched fs here result) :
      Decided fs env none result
  /-- The working directory has been removed. -/
  | astray {fault : FileFault} (unnamed : ∀ text, ¬ Named env text)
      (removed : fs.currentDirectory = .error fault) : Decided fs env none (.error (.io fault))

/-- The first source that is given decides, whatever it says. -/
theorem decided_find (fs : FileSystem) (env : Environment) (explicit : Option Path) :
    Decided fs env explicit (find fs env explicit) := by
  unfold find
  cases explicit with
  | some path => exact .given (existing_eq_iff.mp rfl)
  | none =>
    cases htext : env.text? rootVariable with
    | some text => exact .named (text?_eq_some_iff.mp htext) (existing_eq_iff.mp rfl)
    | none =>
      have hunnamed : ∀ text, ¬ Named env text := by
        intro text hnamed
        rw [← text?_eq_some_iff, htext] at hnamed
        cases hnamed
      cases hhere : fs.currentDirectory with
      | ok here => exact .searched hunnamed hhere (searched_findFrom fs here)
      | error fault => exact .astray hunnamed hhere

theorem Decided.find_eq (h : Decided fs env explicit result) : find fs env explicit = result := by
  have hunread (hunnamed : ∀ text, ¬ Named env text) : env.text? rootVariable = none := by
    rw [Option.eq_none_iff_forall_not_mem]
    intro text htext
    exact hunnamed text (text?_eq_some_iff.mp htext)
  unfold find
  cases h with
  | given taken => exact existing_eq_iff.mpr taken
  | named named taken =>
    rw [text?_eq_some_iff.mpr named]
    exact existing_eq_iff.mpr taken
  | searched unnamed stands searched =>
    rw [hunread unnamed, stands]
    exact findFrom_eq_iff.mpr searched
  | astray unnamed removed => rw [hunread unnamed, removed]

/-- On every file system the first source that is given decides on the project, and from every path
the search finds the lowest project at or above it. When the working directory is to be searched
from and has been removed, there is no path to start at. -/
theorem find_decided (fs : FileSystem) (env : Environment) (explicit : Option Path) (start : Path)
    (result : Except RootError Path) :
    (find fs env explicit = result ↔ Decided fs env explicit result) ∧
      (findFrom fs start = result ↔ Searched fs start result) := by
  refine ⟨⟨?_, Decided.find_eq⟩, findFrom_eq_iff⟩
  rintro rfl
  exact decided_find fs env explicit

/-- A process that was in a directory of a project when it was removed does not find the project
above, nor does it say that there is none. -/
theorem not_searched_of_removed_directory :
    let fs : FileSystem :=
      { CommandLine.Sample.disk CommandLine.Sample.project with
        workingDirectory := ⟨[Bytes.ofString "work"], 1⟩ }
    IsProject fs (.ofString "/work") ∧
      find fs ⟨[]⟩ none = .error (.io (.system .notFound)) ∧
      ∀ start, ¬ Searched fs start (find fs ⟨[]⟩ none) := by
  intro fs
  have hfind : find fs ⟨[]⟩ none = .error (.io (.system .notFound)) := rfl
  refine ⟨isRoot_iff.mp (by decide +kernel), hfind, ?_⟩
  intro start hsearched
  rw [hfind] at hsearched
  cases hsearched

end ProjectRoot

end ReleasePublisher
