import Mathlib.Data.List.Nodup
import Mathlib.Data.List.TakeWhile
import ReleasePublisher.Plan

/-!
The references of a plan. Images whose names end differently keep different references in every
namespace, since a namespace only goes in front of the last segment. So no step of a plan builds or
pushes over what another one has built: each reference is built by one step, and what is pushed is
what the step of the same service has built before.
-/
namespace ReleasePublisher

theorem mark_notMem_afterLast (mark : Char) (cs : List Char) : mark ∉ afterLast mark cs := by
  intro h
  rw [afterLast, List.mem_reverse] at h
  simpa using List.mem_takeWhile_imp h

theorem afterLast_append {mark : Char} (front : List Char) {rest : List Char}
    (h : mark ∉ rest) : afterLast mark (front ++ mark :: rest) = rest := by
  have hall : ∀ c ∈ rest.reverse, (c != mark) = true := by
    intro c hc
    rw [bne_iff_ne]
    rintro rfl
    exact h (List.mem_reverse.mp hc)
  have hreverse : (front ++ mark :: rest).reverse = rest.reverse ++ mark :: front.reverse := by
    simp
  rw [afterLast, hreverse, List.takeWhile_append_of_pos hall]
  simp

def ImageRef.shortName (image : ImageRef) : String :=
  String.ofList (afterLast '/' image.repository.toList)

/-- References of one tag can be told apart by their texts. -/
theorem ImageRef.text_injective {image other : ImageRef} (htag : image.tag = other.tag)
    (h : image.text = other.text) : image = other := by
  have hrepository : image.repository = other.repository := by
    simpa [text, htag, String.append_assoc, ← String.toList_inj] using h
  cases image
  cases other
  simp_all

namespace Catalog

/-- The images of a catalog have names that end differently. -/
def Distinct (catalog : Catalog) : Prop :=
  ((catalog.base :: catalog.services).map ImageSpec.shortName).Nodup

instance (catalog : Catalog) : Decidable catalog.Distinct :=
  inferInstanceAs (Decidable (List.Nodup _))

end Catalog

namespace Step

def built? : Step → Option ImageRef
  | .build step => some step.image
  | _ => none

def pushed? : Step → Option ImageRef
  | .push step => some step.image
  | _ => none

end Step

namespace Plan

variable {catalog : Catalog}

def baseImage (catalog : Catalog) : ImageRef := ⟨catalog.base.image, Catalog.baseTag⟩

/-- A registry changes the namespace of an image and not what its name ends with. -/
theorem shortName_serviceImage (tag : ReleaseTag) (options : PlanOptions) (spec : ImageSpec) :
    (serviceImage tag options spec).shortName = spec.shortName := by
  cases hregistry : options.registry with
  | none => simp [ImageRef.shortName, serviceImage, ImageSpec.repository, hregistry,
      ImageSpec.shortName]
  | some space =>
    have hlast : '/' ∉ afterLast '/' spec.image.toList := mark_notMem_afterLast _ _
    have hrepository : (serviceImage tag options spec).repository.toList =
        (ImageSpec.trimNamespace space).toList ++ '/' :: afterLast '/' spec.image.toList := by
      simp [serviceImage, ImageSpec.repository, hregistry, ImageSpec.shortName]
    rw [ImageRef.shortName, hrepository, afterLast_append _ hlast, ImageSpec.shortName]

/-- Images that end differently are referred to differently, whatever the tag and the namespace. -/
theorem nodup_references (tag : ReleaseTag) (options : PlanOptions) (h : catalog.Distinct) :
    (baseImage catalog :: catalog.services.map (serviceImage tag options)).Nodup := by
  apply List.Nodup.of_map ImageRef.shortName
  have hnames : (baseImage catalog :: catalog.services.map (serviceImage tag options)).map
      ImageRef.shortName = (catalog.base :: catalog.services).map ImageSpec.shortName := by
    simp only [List.map_cons, List.map_map]
    congr 1
    apply List.map_congr_left
    intro spec _
    exact shortName_serviceImage tag options spec
  rw [hnames]
  exact h

/-- All services carry the release tag, so that their texts are as different as they are. -/
theorem nodup_texts (tag : ReleaseTag) (options : PlanOptions) (h : catalog.Distinct) :
    ((catalog.services.map (serviceImage tag options)).map ImageRef.text).Nodup := by
  apply List.Nodup.map_on _ (List.nodup_cons.mp (nodup_references tag options h)).2
  intro image himage other hother htext
  obtain ⟨spec, -, rfl⟩ := List.mem_map.mp himage
  obtain ⟨spec', -, rfl⟩ := List.mem_map.mp hother
  exact ImageRef.text_injective rfl htext

/-- What the toggles have no part in comes of the builds and then of the pushes. -/
theorem filterMap_steps {α : Type} (plan : Plan) {f : Step → Option α}
    (hon : f .profileOn = none) (hoff : f .profileOff = none) :
    plan.steps.filterMap f =
      plan.builds.filterMap (f ∘ .build) ++ plan.pushes.filterMap (f ∘ .push) := by
  rw [steps]
  cases plan.mode.isDebug <;>
    simp [List.filterMap_append, List.filterMap_map, hon, hoff]

theorem built_steps (plan : Plan) :
    plan.steps.filterMap Step.built? = plan.builds.map (·.image) := by
  have hbuild : Step.built? ∘ .build = some ∘ BuildStep.image := rfl
  have hpush : Step.built? ∘ .push = fun _ => none := rfl
  rw [plan.filterMap_steps rfl rfl, hbuild, hpush, List.filterMap_eq_map]
  simp

theorem pushed_steps (plan : Plan) :
    plan.steps.filterMap Step.pushed? = plan.pushes.map (·.image) := by
  have hbuild : Step.pushed? ∘ .build = fun _ => none := rfl
  have hpush : Step.pushed? ∘ .push = some ∘ PushStep.image := rfl
  rw [plan.filterMap_steps rfl rfl, hbuild, hpush, List.filterMap_eq_map]
  simp

variable {plan : Plan} {i j : Nat}

def building (plan : Plan) : List Step :=
  (if plan.mode.isDebug then [.profileOn] else []) ++ plan.builds.map .build ++
    (if plan.mode.isDebug then [.profileOff] else [])

theorem steps_eq (plan : Plan) : plan.steps = plan.building ++ plan.pushes.map .push := rfl

theorem lt_length_building {step : BuildStep} (h : plan.steps[i]? = some (.build step)) :
    i < plan.building.length := by
  by_contra hle
  rw [steps_eq, List.getElem?_append_right (by omega), List.getElem?_map] at h
  simp at h

theorem length_building_le {step : PushStep} (h : plan.steps[j]? = some (.push step)) :
    plan.building.length ≤ j := by
  by_contra hlt
  rw [steps_eq, List.getElem?_append_left (by omega)] at h
  have hmem := List.mem_of_getElem? h
  rw [building] at hmem
  cases hmode : plan.mode.isDebug <;> simp [hmode] at hmem

/-- Whatever is built at all is built before any push. -/
theorem exists_build_lt {image : ImageRef} {step : PushStep}
    (hbuilt : image ∈ plan.steps.filterMap Step.built?)
    (hpush : plan.steps[j]? = some (.push step)) :
    ∃ i < j, ∃ b : BuildStep, plan.steps[i]? = some (.build b) ∧ b.image = image := by
  obtain ⟨found, hfound, himage⟩ := List.mem_filterMap.mp hbuilt
  cases found with
  | build b =>
    obtain ⟨i, hi⟩ := List.mem_iff_getElem?.mp hfound
    have hlt := lt_length_building hi
    have hle := length_building_le hpush
    exact ⟨i, by omega, b, hi, Option.some.inj himage⟩
  | _ => simp [Step.built?] at himage

/-- The toggles of a debug plan stand at both ends of the builds. -/
theorem getElem?_steps_of_debug (h : plan.mode = .debug) (i : Nat) :
    plan.steps[i]? =
      if i = 0 then some .profileOn
      else if i ≤ plan.builds.length then plan.builds[i - 1]?.map .build
      else if i = plan.builds.length + 1 then some .profileOff
      else plan.pushes[i - (plan.builds.length + 2)]?.map .push := by
  have hsteps : plan.steps =
      .profileOn :: (plan.builds.map .build ++ .profileOff :: plan.pushes.map .push) := by
    simp [steps, h, BuildMode.isDebug]
  cases i with
  | zero => simp [hsteps]
  | succ i =>
    rw [hsteps, List.getElem?_cons_succ, if_neg (by omega)]
    by_cases hbuild : i + 1 ≤ plan.builds.length
    · have hlt : i < plan.builds.length := hbuild
      rw [if_pos hbuild, List.getElem?_append_left (by simpa using hlt), List.getElem?_map]
      rfl
    · have hle : plan.builds.length ≤ i := by omega
      rw [if_neg hbuild, List.getElem?_append_right (by simpa using hle), List.length_map]
      by_cases hoff : i = plan.builds.length
      · simp [hoff]
      · obtain ⟨n, rfl⟩ : ∃ n, i = plan.builds.length + (n + 1) :=
          ⟨i - plan.builds.length - 1, by omega⟩
        rw [if_neg (by omega), Nat.add_sub_cancel_left, List.getElem?_cons_succ,
          List.getElem?_map]
        congr 2
        omega

/-- The profile is on from before the first build until after the last one, and at no other time. -/
theorem toggles_of_debug (h : plan.mode = .debug) :
    (∀ i : Nat, plan.steps[i]? = some .profileOn ↔ i = 0) ∧
      (∀ i : Nat, plan.steps[i]? = some .profileOff ↔ i = plan.builds.length + 1) ∧
      ∀ (i : Nat) (step : BuildStep), plan.steps[i]? = some (.build step) →
        0 < i ∧ i < plan.builds.length + 1 := by
  simp only [getElem?_steps_of_debug h]
  refine ⟨fun i => ?_, fun i => ?_, fun i step hi => ?_⟩
  · split_ifs <;> simp [*]
  · split_ifs <;> simp <;> omega
  · split_ifs at hi with hon hbuild <;> simp at hi
    omega

theorem eq_of_nodup_filterMap {α β : Type} {l : List α} {f : α → Option β} {x y : α} {b : β}
    (h : (l.filterMap f).Nodup) (hi : l[i]? = some x) (hj : l[j]? = some y) (hx : f x = some b)
    (hy : f y = some b) : i = j := by
  have hlt : ∀ {i j : Nat} {x y : α}, l[i]? = some x → l[j]? = some y → f x = some b →
      f y = some b → ¬ i < j := by
    intro i j x y hi hj hx hy hij
    obtain ⟨hil, rfl⟩ := List.getElem?_eq_some_iff.mp hi
    obtain ⟨hjl, rfl⟩ := List.getElem?_eq_some_iff.mp hj
    rw [List.Nodup, List.pairwise_filterMap, List.pairwise_iff_getElem] at h
    exact h i j hil hjl hij b hx b hy rfl
  have h₁ := hlt hi hj hx hy
  have h₂ := hlt hj hi hy hx
  omega

end Plan

structure Plan.Orderly (base : ImageRef) (services : List ImageRef) (mode : BuildMode)
    (steps : List Step) : Prop where
  /-- The base image is built first, and the services after it. -/
  built_eq : steps.filterMap Step.built? = base :: services
  /-- The services alone are pushed, in the order in which they are built. -/
  pushed_eq : steps.filterMap Step.pushed? = services
  built_once : ∀ (i j : Nat) (b c : BuildStep), steps[i]? = some (Step.build b) →
    steps[j]? = some (Step.build c) → b.image = c.image → i = j
  /-- Not even the texts of two pushed references are the same. -/
  pushed_once : ∀ (i j : Nat) (p q : PushStep), steps[i]? = some (Step.push p) →
    steps[j]? = some (Step.push q) → p.image.text = q.image.text → i = j
  built_before : ∀ (j : Nat) (p : PushStep), steps[j]? = some (Step.push p) →
    ∃ i < j, ∃ b : BuildStep, steps[i]? = some (Step.build b) ∧ b.image = p.image
  base_not_pushed : ∀ (j : Nat) (p : PushStep), steps[j]? = some (Step.push p) → p.image ≠ base
  toggled : mode = .debug → ∃ on off : Nat,
    (∀ i : Nat, steps[i]? = some Step.profileOn ↔ i = on) ∧
      (∀ i : Nat, steps[i]? = some Step.profileOff ↔ i = off) ∧
      ∀ (i : Nat) (b : BuildStep), steps[i]? = some (Step.build b) → on < i ∧ i < off

namespace Plan

variable {catalog : Catalog}

/-- No step of a plan touches what another one has built, however the services are tagged and
whatever namespace they are put in. -/
theorem steps_orderly (tag : ReleaseTag) (mode : BuildMode) (options : PlanOptions)
    (h : catalog.Distinct) :
    Orderly ⟨catalog.base.image, "latest"⟩ (catalog.services.map (serviceImage tag options)) mode
      (ofCatalog catalog tag mode options).steps := by
  have hreferences := nodup_references tag options h
  have hbuilt : (ofCatalog catalog tag mode options).steps.filterMap Step.built? =
      baseImage catalog :: catalog.services.map (serviceImage tag options) := by
    rw [built_steps]
    simp [ofCatalog, serviceBuild, baseBuild, baseImage, Function.comp_def]
  have hpushed : (ofCatalog catalog tag mode options).steps.filterMap Step.pushed? =
      catalog.services.map (serviceImage tag options) := by
    rw [pushed_steps]
    simp [ofCatalog, servicePush, Function.comp_def]
  have hmem : ∀ {j : Nat} {p : PushStep},
      (ofCatalog catalog tag mode options).steps[j]? = some (Step.push p) →
      p.image ∈ catalog.services.map (serviceImage tag options) := by
    intro j p hj
    rw [← hpushed]
    exact List.mem_filterMap.mpr ⟨.push p, List.mem_of_getElem? hj, rfl⟩
  constructor
  case built_eq => exact hbuilt
  case pushed_eq => exact hpushed
  case built_once =>
    intro i j b c hi hj himage
    rw [← hbuilt] at hreferences
    exact eq_of_nodup_filterMap hreferences hi hj rfl (by simp [Step.built?, himage])
  case pushed_once =>
    intro i j p q hi hj htext
    have htexts := nodup_texts tag options h
    rw [← hpushed, List.map_filterMap] at htexts
    exact eq_of_nodup_filterMap htexts hi hj rfl (by simp [Step.pushed?, htext])
  case built_before =>
    intro j p hj
    have hbuild : p.image ∈ (ofCatalog catalog tag mode options).steps.filterMap Step.built? := by
      rw [hbuilt]
      exact List.mem_cons_of_mem _ (hmem hj)
    exact exists_build_lt hbuild hj
  case base_not_pushed =>
    intro j p hj himage
    have hpush := hmem hj
    rw [himage] at hpush
    exact (List.nodup_cons.mp hreferences).1 hpush
  case toggled =>
    intro hmode
    exact ⟨_, _, toggles_of_debug hmode⟩

namespace Sample

def image (name repository : String) : ImageSpec :=
  ⟨name, repository, "Dockerfile", .definitionOnly⟩

def team : Catalog where
  base := image "base" "localhost:5000/team/base"
  services := [image "api" "ghcr.io/old/api", image "jobs" "jobs"]

def moved : PlanOptions := { registry := some "localhost:5000/team//" }

def latest : ReleaseTag := ⟨"latest", by decide⟩

end Sample

theorem steps_orderly_beside_base :
    Sample.team.Distinct ∧
      Sample.team.services.map (serviceImage Sample.latest Sample.moved) =
        [⟨"localhost:5000/team/api", "latest"⟩, ⟨"localhost:5000/team/jobs", "latest"⟩] ∧
      Orderly ⟨"localhost:5000/team/base", "latest"⟩
        [⟨"localhost:5000/team/api", "latest"⟩, ⟨"localhost:5000/team/jobs", "latest"⟩] .debug
        (ofCatalog Sample.team Sample.latest .debug Sample.moved).steps := by
  have hdistinct : Sample.team.Distinct := by decide +kernel
  have hservices : Sample.team.services.map (serviceImage Sample.latest Sample.moved) =
      [⟨"localhost:5000/team/api", "latest"⟩, ⟨"localhost:5000/team/jobs", "latest"⟩] := by
    decide +kernel
  have horderly := steps_orderly Sample.latest .debug Sample.moved hdistinct
  rw [hservices] at horderly
  exact ⟨hdistinct, hservices, horderly⟩

end Plan

end ReleasePublisher
