import ReleasePublisher.Proofs.Daemon.PushOutcome

/-!
How a push and a build judge the same answer. The error in a message is the same for both, while
its detail is read by a build alone. So a message that has nothing but the detail fails a build and
goes unnoticed by a push; where no such message comes, the two agree.
-/
namespace ReleasePublisher

theorem getElem?_of_mapM {α β : Type} {f : α → Option β} {xs : List α} {ys : List β}
    (h : xs.mapM f = some ys) (i : Nat) : ys[i]? = xs[i]?.bind f := by
  induction xs generalizing ys i with
  | nil =>
    obtain rfl := Option.some.inj h
    simp
  | cons x xs ih =>
    rw [List.mapM_cons] at h
    obtain ⟨y, hy, h⟩ := Option.bind_eq_some_iff.mp h
    obtain ⟨rest, hrest, h⟩ := Option.bind_eq_some_iff.mp h
    obtain rfl := Option.some.inj h
    cases i with
    | zero => exact hy.symm
    | succ i => exact ih hrest i

/-- What a field is in an object does not depend on where it stands among the names. -/
theorem Json.getElem?_of_fields? {names : List String} {least : Nat}
    {members : List (Bytes × Json)} {fields : List (Option Json)}
    (h : (Json.object members).fields? names least = some fields) :
    ∃ named, namedMembers? members = some named ∧
      ∀ i : Nat, fields[i]? = names[i]?.bind (single? · named) := by
  obtain ⟨named, hnamed, hfields⟩ := Option.bind_eq_some_iff.mp h
  exact ⟨named, hnamed, getElem?_of_mapM hfields⟩

namespace DaemonMessage

def errorIn? (members : List (Bytes × Json)) : Option (Option String) := do
  let named ← Json.namedMembers? members
  let error ← Json.single? "error" named
  Json.optional? Json.text? error

theorem errorIn?_of_ofBuild? {members : List (Bytes × Json)} {m : DaemonMessage}
    (h : ofBuild? (.object members) = some m) : errorIn? members = some m.error := by
  rw [ofBuild?] at h
  split at h
  · next id stream error errorDetail status progress progressDetail aux hfields =>
    obtain ⟨named, hnamed, hfield⟩ := Json.getElem?_of_fields? hfields
    have herror : some error = Json.single? "error" named := hfield 2
    simp only [Option.bind_eq_bind, Option.bind_eq_some_iff, Option.pure_def, Option.some.injEq] at h
    obtain ⟨-, -, -, -, text, htext, -, -, -, -, -, -, -, -, -, -, -, -, -, rfl⟩ := h
    simp only [errorIn?, hnamed, ← herror, htext, Option.bind_eq_bind, Option.bind_some]
  · simp at h

theorem errorIn?_of_ofPush? {members : List (Bytes × Json)} {m : DaemonMessage}
    (h : ofPush? (.object members) = some m) : errorIn? members = some m.error := by
  rw [ofPush?] at h
  split at h
  · next error status progress progressDetail hfields =>
    obtain ⟨named, hnamed, hfield⟩ := Json.getElem?_of_fields? hfields
    have herror : some error = Json.single? "error" named := hfield 0
    obtain ⟨text, htext, h⟩ := Option.bind_eq_some_iff.mp h
    simp only [Option.bind_eq_bind, Option.bind_eq_some_iff, Option.pure_def, Option.some.injEq] at h
    obtain ⟨-, -, -, -, -, -, rfl⟩ := h
    simp only [errorIn?, hnamed, ← herror, htext, Option.bind_eq_bind, Option.bind_some]
  · simp at h

/-- An array is too short for one kind of message or too long for the other. -/
theorem error_eq_of_both {value : Json} {m m' : DaemonMessage} (hbuild : ofBuild? value = some m)
    (hpush : ofPush? value = some m') : m.error = m'.error := by
  cases value with
  | object members =>
    exact Option.some.inj ((errorIn?_of_ofBuild? hbuild).symm.trans (errorIn?_of_ofPush? hpush))
  | array items =>
    by_cases hlength : items.length ≤ 4
    · have hshort : ¬ 8 ≤ items.length := by omega
      simp [ofBuild?, Json.fields?, hshort] at hbuild
    · simp [ofPush?, Json.fields?, hlength] at hpush
  | _ => simp [ofBuild?, Json.fields?] at hbuild

def TellsFailure (value : Json) : Prop := ∃ m ∈ ofBuild? value, m.buildFailure? ≠ none

/-- A message that has the detail of an error and not the error. -/
def LacksError (value : Json) : Prop :=
  ∃ m ∈ ofBuild? value, m.errorDetail ≠ none ∧ m.error = none

instance : DecidablePred TellsFailure := fun value =>
  inferInstanceAs (Decidable (∃ m ∈ ofBuild? value, m.buildFailure? ≠ none))

instance : DecidablePred LacksError := fun value =>
  inferInstanceAs (Decidable (∃ m ∈ ofBuild? value, m.errorDetail ≠ none ∧ m.error = none))

theorem buildFailure?_eq_none_iff {m : DaemonMessage} :
    m.buildFailure? = none ↔ m.error = none ∧ m.errorDetail = none := by
  rw [buildFailure?]
  cases m.error <;> cases m.errorDetail <;> simp

/-- A value that a push takes for clean is no failure for a build, unless it only has the detail. -/
theorem not_tellsFailure {value : Json} (hlacks : ¬ LacksError value) {m' : DaemonMessage}
    (hpush : ofPush? value = some m') (herror : m'.error = none) : ¬ TellsFailure value := by
  rintro ⟨m, hbuild, hfailure⟩
  have hnone : m.error = none := (error_eq_of_both hbuild hpush).trans herror
  have hdetail : m.errorDetail = none :=
    Decidable.byContradiction fun hdetail => hlacks ⟨m, hbuild, hdetail, hnone⟩
  exact hfailure (buildFailure?_eq_none_iff.mpr ⟨hnone, hdetail⟩)

/-- A value that messages of both kinds are read from lets a push go on if it lets a build. -/
theorem clean_iff_passes {value : Json} (hlacks : ¬ LacksError value)
    (hread : (ofBuild? value).isSome = (ofPush? value).isSome) :
    (∃ m, ofPush? value = some m ∧ (StreamItem.message m).IsClean) ↔
      ∃ m, ofBuild? value = some m ∧ (StreamItem.message m).Passes := by
  constructor
  · rintro ⟨m', hpush, herror⟩
    obtain ⟨m, hbuild⟩ := Option.isSome_iff_exists.mp (hread.trans (Option.isSome_of_eq_some hpush))
    refine ⟨m, hbuild, buildFailure?_eq_none_iff.mp ?_⟩
    exact Decidable.byContradiction fun hfailure =>
      not_tellsFailure hlacks hpush herror ⟨m, hbuild, hfailure⟩
  · rintro ⟨m, hbuild, herror, -⟩
    obtain ⟨m', hpush⟩ :=
      Option.isSome_iff_exists.mp (hread.symm.trans (Option.isSome_of_eq_some hbuild))
    exact ⟨m', hpush, (error_eq_of_both hbuild hpush).symm.trans herror⟩

end DaemonMessage

namespace DaemonClient

variable {δ : Type} (client : DaemonClient δ) (image : ImageRef) (fs : FileSystem)
  (s : DaemonState δ)

structure JudgesAsBuild (status : Nat) (body : Bytes) : Prop where
  warned : (client.push image fs s).ending = .succeeded →
    ∀ value ∈ DaemonAnswer.values status body, ¬ DaemonMessage.TellsFailure value
  agreed : (∀ value ∈ DaemonAnswer.values status body,
      (DaemonMessage.ofBuild? value).isSome = (DaemonMessage.ofPush? value).isSome) →
    ((client.push image fs s).ending = .succeeded ↔
      (BuildStream.consume client.palette (DaemonAnswer.items .build status body)).1 = none)

theorem succeeded_iff_of_pushAnswered {status : Nat} {body : Bytes}
    (h : client.PushAnswered image fs s status body) :
    (client.push image fs s).ending = .succeeded ↔
      DaemonAnswer.isSuccess status = true ∧
        StreamBody.fault? (DaemonAnswer.content status body) = none ∧
          ∀ value ∈ DaemonAnswer.values status body,
            ∃ m, DaemonMessage.ofPush? value = some m ∧ (StreamItem.message m).IsClean := by
  rw [client.ending_of_pushAnswered image fs s h, pushEnding_eq_succeeded_iff]
  simp only [DaemonAnswer.sent?, Option.some.injEq, exists_eq_left']
  exact DaemonAnswer.forall_sent_iff .push (fun _ => id) status body

/-- A push is judged as a build would be where every detail of an error comes with the error. -/
theorem push_judges_as_build {status : Nat} {body : Bytes}
    (h : client.PushAnswered image fs s status body)
    (hlacks : ∀ value ∈ DaemonAnswer.values status body, ¬ DaemonMessage.LacksError value) :
    client.JudgesAsBuild image fs s status body where
  warned hsucceeded value hvalue := by
    obtain ⟨-, -, hclean⟩ := (client.succeeded_iff_of_pushAnswered image fs s h).mp hsucceeded
    obtain ⟨m, hpush, herror⟩ := hclean value hvalue
    exact DaemonMessage.not_tellsFailure (hlacks value hvalue) hpush herror
  agreed hread := by
    rw [client.succeeded_iff_of_pushAnswered image fs s h, DaemonAnswer.items_eq,
      BuildStream.consume_eq_none_iff, DaemonAnswer.forall_sent_iff .build (fun _ => id)]
    refine and_congr_right fun _ => and_congr_right fun _ => ?_
    refine forall₂_congr fun value hvalue => ?_
    exact DaemonMessage.clean_iff_passes (hlacks value hvalue) (hread value hvalue)

end DaemonClient

namespace PushStream.Sample

def unexplained : Bytes := Bytes.ofString
  "\x7b\"errorDetail\": \x7b\"message\": \"denied\"\x7d\x7d\n"

end PushStream.Sample

open BuildStream.Sample (workshop) in
open PushStream.Sample in
/-- What comes after the error changes neither judgement. -/
theorem DaemonClient.push_judges_as_build_denied :
    (client denied).PushAnswered image workshop ⟨(), [], []⟩ 200 denied ∧
      (∀ value ∈ DaemonAnswer.values 200 denied, ¬ DaemonMessage.LacksError value) ∧
      (client denied).JudgesAsBuild image workshop ⟨(), [], []⟩ 200 denied := by
  have hanswered : (client denied).PushAnswered image workshop ⟨(), [], []⟩ 200 denied :=
    ⟨none, by decide +kernel, rfl⟩
  have hlacks : ∀ value ∈ DaemonAnswer.values 200 denied, ¬ DaemonMessage.LacksError value := by
    decide +kernel
  exact ⟨hanswered, hlacks, (client denied).push_judges_as_build _ _ _ hanswered hlacks⟩

open BuildStream.Sample (workshop) in
open PushStream.Sample in
/-- The push succeeds, although a build would fail. -/
theorem DaemonClient.not_judges_as_build_of_lone_detail :
    (client unexplained).PushAnswered image workshop ⟨(), [], []⟩ 200 unexplained ∧
      ¬ (client unexplained).JudgesAsBuild image workshop ⟨(), [], []⟩ 200 unexplained := by
  refine ⟨⟨none, by decide +kernel, rfl⟩, fun h => ?_⟩
  have hsucceeded :
      ((client unexplained).push image workshop ⟨(), [], []⟩).ending = .succeeded := by
    decide +kernel
  have htold : ∃ value ∈ DaemonAnswer.values 200 unexplained,
      DaemonMessage.TellsFailure value := by
    decide +kernel
  obtain ⟨value, hvalue, htells⟩ := htold
  exact h.warned hsucceeded value hvalue htells

end ReleasePublisher
