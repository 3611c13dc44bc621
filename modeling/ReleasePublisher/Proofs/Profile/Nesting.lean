import Mathlib.Logic.Function.Basic
import Mathlib.Logic.Relation
import ReleasePublisher.Proofs.Profile.Activation

/-!
Guards within guards. Any number of files are activated, each any number of times and through
whatever paths lead to it, and the guards go away in the opposite order, each restored or dropped.
While there is a guard for a file, that file may be overwritten, taken away and made anew. The first
of the guards for a file decides in the end, and it has what the file held at first.
-/
namespace ReleasePublisher

namespace DebugProfile

open FileSystem

structure Pending where
  guard : ProfileGuard
  location : Location

/-- What the first of the guards for a file has saved, where the last guard stands in front. -/
def firstSaved? (l : Location) : List Pending → Option Bytes
  | [] => none
  | p :: earlier =>
    (firstSaved? l earlier).or (if p.location = l then some p.guard.saved else none)

structure Scene where
  site : Site
  /-- The guards that there are, the last one in front. -/
  pending : List Pending
  /-- What the files that have been activated held before that happened for the first time. A file
  that was changed while there was no guard for it begins anew. -/
  original : Location → Option Bytes

namespace Scene

def start (site : Site) : Scene := ⟨site, [], fun _ => none⟩

def guarded (scene : Scene) (l : Location) : Prop := ∃ p ∈ scene.pending, p.location = l

inductive Step : Scene → Scene → Prop
  | activated {site after : Site} {pending : List Pending} {original : Location → Option Bytes}
      {path : Path} {guard : ProfileGuard} {l : Location} {content : Bytes}
      (step : activate path site = (.ok guard, after))
      (place_eq : site.disk.place .follow path = .ok (.taken l))
      (holds : Holds l content site.disk) :
      Step ⟨site, pending, original⟩ ⟨after, ⟨guard, l⟩ :: pending,
        Function.update original l ((original l).or (some content))⟩
  | refused {site after : Site} {pending : List Pending} {original : Location → Option Bytes}
      {path : Path} {error : PublishError} (step : activate path site = (.error error, after)) :
      Step ⟨site, pending, original⟩ ⟨after, pending, original⟩
  | restored (site : Site) (p : Pending) (earlier : List Pending)
      (original : Location → Option Bytes) :
      Step ⟨site, p :: earlier, original⟩ ⟨(p.guard.restore site).2, earlier, original⟩
  | dropped (site : Site) (p : Pending) (earlier : List Pending)
      (original : Location → Option Bytes) :
      Step ⟨site, p :: earlier, original⟩ ⟨p.guard.discard site, earlier, original⟩
  /-- A file is changed while there is a guard for it. -/
  | altered {scene : Scene} {l : Location} {disk : FileSystem} (guarded : scene.guarded l)
      (change : Altered l scene.site.disk disk) :
      Step scene { scene with site := { scene.site with disk } }
  /-- A file is changed for which there is no guard, not yet or not any more. -/
  | renewed {scene : Scene} {l : Location} {disk : FileSystem} (free : ¬ scene.guarded l)
      (change : Altered l scene.site.disk disk) :
      Step scene ⟨{ scene.site with disk }, scene.pending, Function.update scene.original l none⟩

/-- What holds of a scene: every guard can write its file, and each file holds what it held at first
or there is a guard to write that back in the end. -/
structure Sound (scene : Scene) : Prop where
  here : scene.site.disk.turns scene.site.disk.workingDirectory.location = some .enter
  aims : ∀ p ∈ scene.pending, Aims p.guard.path p.location scene.site.disk
  known : ∀ l, scene.guarded l → scene.original l ≠ none
  owed : ∀ l content, scene.original l = some content →
    firstSaved? l scene.pending = some content ∨
      firstSaved? l scene.pending = none ∧ Holds l content scene.site.disk

end Scene

variable {l : Location} {path : Path} {content : Bytes} {before after : FileSystem}
  {pending earlier : List Pending} {p : Pending} {site : Site} {guard : ProfileGuard}
  {original : Location → Option Bytes} {scene next : Scene}

theorem firstSaved?_eq_none_iff :
    firstSaved? l pending = none ↔ ∀ p ∈ pending, p.location ≠ l := by
  induction pending with
  | nil => simp [firstSaved?]
  | cons p earlier ih => simp [firstSaved?, ih, and_comm]

theorem firstSaved?_cons_of_ne (h : p.location ≠ l) :
    firstSaved? l (p :: earlier) = firstSaved? l earlier := by
  simp [firstSaved?, h]

theorem Activation.exists_altered (h : Activation path before (.ok guard) after) :
    ∃ l content, guard = ⟨path, content⟩ ∧ before.place .follow path = .ok (.taken l) ∧
      Holds l content before ∧ Altered l before after := by
  cases h with
  | @activated l serial attributes saved _ place_eq shows_before shows_after others here_eq _ _ =>
    refine ⟨l, saved, rfl, place_eq, ⟨serial, attributes, shows_before⟩, ?_⟩
    exact ⟨⟨others, fun _ _ => here_eq⟩, here_eq, Or.inr ⟨_, _, _, shows_before⟩,
      Or.inr ⟨_, _, _, shows_after⟩⟩

/-- A guard whose path leads to a file or to where one can be made does not fail. -/
theorem exists_given_back (h : Aims guard.path l site.disk) :
    ∃ after, Written guard.path l guard.saved site.disk after ∧ (guard.restore site).1 = none ∧
      (guard.restore site).2.disk = after ∧ (guard.discard site).disk = after := by
  obtain ⟨after, hwrite, hwritten⟩ := h.exists_write guard.saved
  have hattempt := Site.attempt_of_ok (·.write guard.path guard.saved) hwrite
  refine ⟨after, hwritten, ?_, ?_, ?_⟩
  · rw [guard.restore_of_ok hwrite]
  · rw [guard.restore_of_ok hwrite]
    rfl
  · rw [ProfileGuard.discard, ProfileGuard.writeSaved, hattempt]
    rfl

namespace Scene

theorem sound_start (henter : site.disk.turns site.disk.workingDirectory.location = some .enter) :
    Sound (start site) := by
  refine ⟨henter, ?_, ?_, ?_⟩
  all_goals simp [start, guarded]

namespace Sound

/-- Another guard for a file leaves the first one in place. -/
theorem activated (h : Sound ⟨site, pending, original⟩) {after : Site}
    (hplace : site.disk.place .follow path = .ok (.taken l)) (hholds : Holds l content site.disk)
    (haltered : Altered l site.disk after.disk) :
    Sound ⟨after, ⟨⟨path, content⟩, l⟩ :: pending,
      Function.update original l ((original l).or (some content))⟩ := by
  have haims : Aims path l site.disk := .file hplace hholds
  refine ⟨haltered.turns_here h.here, ?_, ?_, ?_⟩
  · intro p hp
    rcases List.mem_cons.mp hp with rfl | hp
    · exact haims.altered haltered h.here
    · exact (h.aims p hp).altered haltered h.here
  · rintro x ⟨p, hp, rfl⟩
    change Function.update original l _ p.location ≠ none
    by_cases hx : p.location = l
    · simp [hx]
    · rw [Function.update_of_ne hx]
      rcases List.mem_cons.mp hp with rfl | hp
      · exact absurd rfl hx
      · exact h.known _ ⟨p, hp, rfl⟩
  · intro x saved hsaved
    change Function.update original l _ x = some saved at hsaved
    change firstSaved? x (⟨⟨path, content⟩, l⟩ :: pending) = some saved ∨ _
    by_cases hx : x = l
    · subst hx
      rw [Function.update_self] at hsaved
      left
      rw [firstSaved?, if_pos rfl]
      cases horiginal : original x with
      | none =>
        have hnone : firstSaved? x pending = none := by
          refine firstSaved?_eq_none_iff.mpr fun p hp hpx => ?_
          exact h.known x ⟨p, hp, hpx⟩ horiginal
        simpa [hnone, horiginal] using hsaved
      | some first =>
        obtain rfl : first = saved := by simpa [horiginal] using hsaved
        rcases h.owed x first horiginal with hfirst | ⟨hnone, hholds'⟩
        · rw [hfirst, Option.some_or]
        · rw [hnone, Option.none_or, hholds.unique hholds']
    · rw [Function.update_of_ne hx] at hsaved
      have hskip : firstSaved? x (⟨⟨path, content⟩, l⟩ :: pending) = firstSaved? x pending :=
        firstSaved?_cons_of_ne (Ne.symm hx)
      simp only [hskip]
      exact (h.owed x saved hsaved).imp_right fun ⟨hnone, hholds'⟩ =>
        ⟨hnone, hholds'.altered haltered hx⟩

/-- When the first guard for a file goes away, the file holds again what it held at first. -/
theorem givenBack (h : Sound ⟨site, p :: earlier, original⟩) {after : Site}
    (hwritten : Written p.guard.path p.location p.guard.saved site.disk after.disk) :
    Sound ⟨after, earlier, original⟩ := by
  have haltered := altered_of_written hwritten
  refine ⟨haltered.turns_here h.here, ?_, ?_, ?_⟩
  · intro q hq
    exact (h.aims q (List.mem_cons_of_mem p hq)).altered haltered h.here
  · rintro x ⟨q, hq, rfl⟩
    exact h.known _ ⟨q, List.mem_cons_of_mem p hq, rfl⟩
  · intro x content hcontent
    by_cases hx : p.location = x
    · subst hx
      rcases h.owed p.location content hcontent with hfirst | ⟨hnone, -⟩
      · rw [firstSaved?, if_pos rfl] at hfirst
        cases hearlier : firstSaved? p.location earlier with
        | some first =>
          rw [hearlier, Option.some_or] at hfirst
          exact Or.inl hfirst
        | none =>
          rw [hearlier, Option.none_or, Option.some.injEq] at hfirst
          exact Or.inr ⟨rfl, hfirst ▸ hwritten.shows⟩
      · exact absurd rfl (firstSaved?_eq_none_iff.mp hnone p List.mem_cons_self)
    · have howed := h.owed x content hcontent
      rw [firstSaved?_cons_of_ne hx] at howed
      exact howed.imp_right fun ⟨hnone, hholds⟩ => ⟨hnone, hholds.altered haltered (Ne.symm hx)⟩

/-- A file that is guarded may change in any way. -/
theorem altered (h : Sound scene) {disk : FileSystem} (hguarded : scene.guarded l)
    (hchange : Altered l scene.site.disk disk) :
    Sound { scene with site := { scene.site with disk } } := by
  refine ⟨hchange.turns_here h.here, ?_, h.known, ?_⟩
  · intro p hp
    exact (h.aims p hp).altered hchange h.here
  · intro x content hcontent
    refine (h.owed x content hcontent).imp_right fun ⟨hnone, hholds⟩ => ⟨hnone, ?_⟩
    refine hholds.altered hchange ?_
    rintro rfl
    obtain ⟨p, hp, hpx⟩ := hguarded
    exact firstSaved?_eq_none_iff.mp hnone p hp hpx

theorem renewed (h : Sound scene) {disk : FileSystem} (hfree : ¬ scene.guarded l)
    (hchange : Altered l scene.site.disk disk) :
    Sound ⟨{ scene.site with disk }, scene.pending, Function.update scene.original l none⟩ := by
  refine ⟨hchange.turns_here h.here, ?_, ?_, ?_⟩
  · intro p hp
    exact (h.aims p hp).altered hchange h.here
  · intro x hx
    have hne : x ≠ l := by
      rintro rfl
      exact hfree hx
    change Function.update scene.original l none x ≠ none
    rw [Function.update_of_ne hne]
    exact h.known x hx
  · intro x content hcontent
    change Function.update scene.original l none x = some content at hcontent
    have hne : x ≠ l := by
      rintro rfl
      simp at hcontent
    rw [Function.update_of_ne hne] at hcontent
    exact (h.owed x content hcontent).imp_right fun ⟨hnone, hholds⟩ =>
      ⟨hnone, hholds.altered hchange hne⟩

/-- Each step keeps what holds of a scene. -/
theorem step (h : Sound scene) (hstep : Step scene next) : Sound next := by
  cases hstep with
  | @activated site after pending original path guard l content step place_eq holds =>
    have hactivation := activation_activate path site
    rw [step] at hactivation
    obtain ⟨x, saved, rfl, hplace, hholds, haltered⟩ := hactivation.exists_altered
    obtain rfl : l = x := by simpa [place_eq] using hplace
    obtain rfl := holds.unique hholds
    exact h.activated place_eq holds haltered
  | @refused site after pending original path error step =>
    have hactivation := activation_activate path site
    rw [step] at hactivation
    have hdisk : after.disk = site.disk := by
      simp only at hactivation
      generalize after.disk = disk at hactivation
      cases hactivation
      rfl
    refine ⟨?_, ?_, h.known, ?_⟩
    · simpa only [hdisk] using h.here
    · simpa only [hdisk] using h.aims
    · simpa only [hdisk] using h.owed
  | restored site p earlier original =>
    obtain ⟨after, hwritten, -, hdisk, -⟩ := exists_given_back (h.aims p List.mem_cons_self)
    exact h.givenBack (hdisk ▸ hwritten)
  | dropped site p earlier original =>
    obtain ⟨after, hwritten, -, -, hdisk⟩ := exists_given_back (h.aims p List.mem_cons_self)
    exact h.givenBack (hdisk ▸ hwritten)
  | altered hguarded hchange => exact h.altered hguarded hchange
  | renewed hfree hchange => exact h.renewed hfree hchange

theorem run (h : Sound scene) (hrun : Relation.ReflTransGen Step scene next) : Sound next := by
  induction hrun with
  | refl => exact h
  | tail _ hstep ih => exact ih.step hstep

end Sound

end Scene

/-- Activating the profile does everything or nothing. When guards go away in the opposite order, no
one fails, and a file for which there are no more guards holds what it held before the first one. -/
theorem activation_undone (path : Path) (site : Site) :
    Activation path site.disk (activate path site).1 (activate path site).2.disk ∧
    (site.disk.turns site.disk.workingDirectory.location = some .enter →
      ∀ scene, Relation.ReflTransGen Scene.Step (.start site) scene →
        (∀ p earlier, scene.pending = p :: earlier → (p.guard.restore scene.site).1 = none) ∧
        ∀ l content, scene.original l = some content → ¬ scene.guarded l →
          Holds l content scene.site.disk) := by
  refine ⟨activation_activate path site, fun henter scene hrun => ?_⟩
  have hsound := (Scene.sound_start henter).run hrun
  constructor
  · intro p earlier hpending
    obtain ⟨after, -, hrestore, -⟩ := exists_given_back
      (hsound.aims p (hpending ▸ List.mem_cons_self))
    exact hrestore
  · intro l content horiginal hnot
    rcases hsound.owed l content horiginal with hfirst | ⟨-, hholds⟩
    · have hnone : firstSaved? l scene.pending = none :=
        firstSaved?_eq_none_iff.mpr fun p hp hpl => hnot ⟨p, hp, hpl⟩
      rw [hnone] at hfirst
      simp at hfirst
    · exact hholds

namespace Sample

def file : Location := [Bytes.ofString "work", Bytes.ofString "Cargo.toml"]

def manifest : Bytes := Bytes.ofString "[workspace]"

def disk : FileSystem where
  root := .directory ⟨0o755, .epoch⟩ [(Bytes.ofString "work", .directory ⟨0o755, .epoch⟩
    [(Bytes.ofString "Cargo.toml", .file 0 ⟨0o644, .epoch⟩ manifest),
      (Bytes.ofString "link", .link (Bytes.ofString "Cargo.toml"))])]
  workingDirectory := { location := [] }
  clock := .epoch
  nextSerial := 1

def outer : ProfileGuard := ⟨.ofString "/work/Cargo.toml", manifest⟩

def inner : ProfileGuard := ⟨.ofString "/work/link", manifest ++ directive⟩

def once : Site := (activate outer.path { disk }).2

def twice : Site := (activate inner.path once).2

def deleted : Site := { twice with disk := twice.disk.erase file }

def ended : Site := (outer.restore (inner.discard deleted)).2

end Sample

/-- A file is activated, again through a link, and taken away. It is made anew as it was. -/
theorem activation_undone_through_link :
    ∃ scene, Relation.ReflTransGen Scene.Step (.start { disk := Sample.disk }) scene ∧
      scene.site = Sample.ended ∧ scene.pending = [] ∧
      Holds Sample.file Sample.manifest scene.site.disk := by
  have houter : (activate Sample.outer.path { disk := Sample.disk }).1 = .ok Sample.outer :=
    eq_ok_of_toOption (by decide +kernel)
  have hinner : (activate Sample.inner.path Sample.once).1 = .ok Sample.inner :=
    eq_ok_of_toOption (by decide +kernel)
  have hholds : Holds Sample.file Sample.manifest Sample.disk :=
    ⟨0, ⟨0o644, .epoch⟩, by decide +kernel⟩
  have hholds' : Holds Sample.file (Sample.manifest ++ directive) Sample.once.disk :=
    ⟨0, ⟨0o644, .epoch⟩, by decide +kernel⟩
  have honce := @Scene.Step.activated { disk := Sample.disk } Sample.once [] (fun _ => none) _ _
    Sample.file _ (Prod.ext houter rfl) (eq_ok_of_toOption (by decide +kernel)) hholds
  have htwice := @Scene.Step.activated Sample.once Sample.twice [⟨Sample.outer, Sample.file⟩]
    (Function.update (fun _ => none) Sample.file (some Sample.manifest)) _ _ Sample.file _
    (Prod.ext hinner rfl) (eq_ok_of_toOption (by decide +kernel)) hholds'
  have hface : Sample.twice.disk.face? Sample.file = some (.file 0 ⟨0o644, .epoch⟩
      (Sample.manifest ++ directive ++ directive)) := by
    decide +kernel
  have hplace : Sample.twice.disk.place .keep Sample.outer.path = .ok (.taken Sample.file) :=
    eq_ok_of_toOption (by decide +kernel)
  have hdeleted : Altered Sample.file Sample.twice.disk Sample.deleted.disk :=
    altered_of_removeFile (by decide +kernel) hplace ⟨_, _, hface⟩ (removeFile_of_file hplace hface)
  have hrun := (((Relation.ReflTransGen.single honce).tail htwice).tail
    (.altered ⟨_, List.mem_cons_self, rfl⟩ hdeleted)).tail (.dropped _ _ _ _)
  have hended := hrun.tail (.restored _ _ _ _)
  refine ⟨_, hended, rfl, rfl, ?_⟩
  obtain ⟨-, hundone⟩ := activation_undone Sample.outer.path { disk := Sample.disk }
  refine (hundone (by decide +kernel) _ hended).2 Sample.file Sample.manifest ?_ ?_
  · simp
  · simp [Scene.guarded]

end DebugProfile

end ReleasePublisher
