import Mathlib.Data.List.Forall2
import ReleasePublisher.Daemon.Message

/-!
Which values are messages about a push, and which of them report an error. The members of a value
alone tell both: a message has four fields, any of which may be missing, and it reports an error if
the one that is called so is a text.
-/
namespace ReleasePublisher

namespace Json

def IsString (value : Json) : Prop := ∃ text, value.text? = some text

def IsInt64 (value : Json) : Prop := ∃ n, value.int64? = some n

/-- To be missing is to be null. -/
def Fits (P : Json → Prop) (field : Option Json) : Prop :=
  ∀ value, field = some value → value = .null ∨ P value

/-- A value with some fields, each with what it may be besides null: an object in which none occurs
twice, whatever else is in it, or an array of them all in their order. -/
inductive Record (fields : List (String × (Json → Prop))) : Json → Prop
  | object {members : List (Bytes × Json)} {named : List (String × Json)}
      (names : namedMembers? members = some named)
      (once : ∀ field ∈ fields, (named.filter fun m => m.1 == field.1).length ≤ 1)
      (fits : ∀ field ∈ fields, ∀ value, (field.1, value) ∈ named → value = .null ∨ field.2 value) :
      Record fields (.object members)
  | array {items : List Json}
      (fits : List.Forall₂ (fun field value => value = .null ∨ field.2 value) fields items) :
      Record fields (.array items)

/-- A field that may be missing can be read if it is missing, null or what it has to be. -/
theorem exists_optional?_iff {α : Type} {value? : Json → Option α} {field : Option Json} :
    (∃ found, optional? value? field = some found) ↔
      Fits (fun value => ∃ found, value? value = some found) field := by
  unfold Fits
  cases field with
  | none => simp [optional?]
  | some value => cases value <;> simp [optional?, Option.map_eq_some_iff]

/-- The field of a name that occurs at most once is the value it occurs with. -/
theorem eq_some_iff_mem_of_single? {name : String} {named : List (String × Json)}
    {field : Option Json} (h : single? name named = some field) {value : Json} :
    field = some value ↔ (name, value) ∈ named := by
  have hmem : (name, value) ∈ named ↔ (name, value) ∈ named.filter fun m => m.1 == name := by simp
  have hname : ∀ m ∈ named.filter fun m => m.1 == name, m.1 = name := by simp
  unfold single? at h
  rw [hmem]
  generalize named.filter (fun m => m.1 == name) = found at h hname ⊢
  match found, hname with
  | [], _ =>
    obtain rfl := Option.some.inj h
    simp
  | [(first, other)], hname =>
    obtain rfl : first = name := hname _ List.mem_cons_self
    obtain rfl := Option.some.inj h
    simp [eq_comm]
  | _ :: _ :: _, _ => simp at h

/-- A field is found if its name occurs at most once. -/
theorem exists_single?_iff {P : Json → Prop} {name : String} {named : List (String × Json)} :
    (∃ field, single? name named = some field ∧ Fits P field) ↔
      (named.filter fun m => m.1 == name).length ≤ 1 ∧
        ∀ value, (name, value) ∈ named → value = .null ∨ P value := by
  have hmem : ∀ value, (name, value) ∈ named ↔
      (name, value) ∈ named.filter fun m => m.1 == name := by simp
  have hname : ∀ m ∈ named.filter fun m => m.1 == name, m.1 = name := by simp
  unfold single? Fits
  simp only [hmem]
  generalize named.filter (fun m => m.1 == name) = found at hname ⊢
  match found, hname with
  | [], _ => simp
  | [(first, value)], hname =>
    obtain rfl : first = name := hname _ List.mem_cons_self
    simp
  | _ :: _ :: _, _ => simp

theorem exists_mapM_single?_iff {fields : List (String × (Json → Prop))}
    {named : List (String × Json)} :
    (∃ found, (fields.map Prod.fst).mapM (single? · named) = some found ∧
        List.Forall₂ (fun field value => Fits field.2 value) fields found) ↔
      ∀ field ∈ fields, ∃ value, single? field.1 named = some value ∧ Fits field.2 value := by
  induction fields with
  | nil => simp
  | cons first rest ih =>
    rw [List.forall_mem_cons, ← ih, List.map_cons, List.mapM_cons]
    constructor
    · rintro ⟨found, hfound, hfits⟩
      obtain ⟨value, hvalue, hfound⟩ := Option.bind_eq_some_iff.mp hfound
      obtain ⟨values, hvalues, hfound⟩ := Option.bind_eq_some_iff.mp hfound
      obtain rfl := Option.some.inj hfound
      obtain ⟨hfirst, hrest⟩ := List.forall₂_cons.mp hfits
      exact ⟨⟨value, hvalue, hfirst⟩, values, hvalues, hrest⟩
    · rintro ⟨⟨value, hvalue, hfirst⟩, values, hvalues, hrest⟩
      refine ⟨value :: values, ?_, .cons hfirst hrest⟩
      rw [hvalue, Option.bind_eq_bind, Option.bind_some, hvalues]
      rfl

/-- The fields of a value are read where it has them, none of them twice. -/
theorem record_iff {fields : List (String × (Json → Prop))} {value : Json} :
    Record fields value ↔ ∃ found,
      value.fields? (fields.map Prod.fst) fields.length = some found ∧
        List.Forall₂ (fun field value => Fits field.2 value) fields found := by
  constructor
  · intro h
    cases h with
    | object names once fits =>
      rw [fields?, names, Option.bind_some, exists_mapM_single?_iff]
      exact fun field hfield => exists_single?_iff.mpr ⟨once field hfield, fits field hfield⟩
    | @array items fits =>
      have hlength := fits.length_eq
      refine ⟨items.map some, by simp [fields?, hlength], ?_⟩
      rw [List.forall₂_map_right_iff]
      refine fits.imp fun field item h value hvalue => ?_
      obtain rfl := Option.some.inj hvalue
      exact h
  · rintro ⟨found, hfound, hfits⟩
    cases value with
    | object members =>
      obtain ⟨named, hnamed, hfound⟩ := Option.bind_eq_some_iff.mp hfound
      have hsingle := exists_mapM_single?_iff.mp ⟨found, hfound, hfits⟩
      exact .object hnamed (fun field hfield => (exists_single?_iff.mp (hsingle field hfield)).1)
        fun field hfield => (exists_single?_iff.mp (hsingle field hfield)).2
    | array items =>
      rw [fields?] at hfound
      split at hfound
      · next hlength =>
        have heq : fields.length = items.length := by
          rw [List.length_map] at hlength
          omega
        obtain rfl := Option.some.inj hfound
        simp only [List.length_map, heq, Nat.sub_self, List.replicate_zero, List.append_nil,
          List.forall₂_map_right_iff] at hfits
        exact .array (hfits.imp fun field item h => h item rfl)
      · simp at hfound
    | _ => simp [fields?] at hfound

end Json

namespace DaemonMessage

open Json (IsString IsInt64 Record)

def progressFields : List (String × (Json → Prop)) := [("current", IsInt64), ("total", IsInt64)]

def pushFields : List (String × (Json → Prop)) :=
  [("error", IsString), ("status", IsString), ("progress", IsString),
    ("progressDetail", Record progressFields)]

inductive Reports (text : String) : Json → Prop
  | object {members : List (Bytes × Json)} {named : List (String × Json)} {error : Json}
      (names : Json.namedMembers? members = some named) (mem : ("error", error) ∈ named)
      (text_eq : error.text? = some text) : Reports text (.object members)
  | array {error : Json} {rest : List Json} (text_eq : error.text? = some text) :
      Reports text (.array (error :: rest))

theorem exists_progress?_iff {value : Json} :
    (∃ found, progress? value = some found) ↔ Record progressFields value := by
  rw [Json.record_iff]
  unfold progress?
  constructor
  · rintro ⟨found, h⟩
    split at h
    · next current total hfields =>
      obtain ⟨n, hcurrent, h⟩ := Option.bind_eq_some_iff.mp h
      obtain ⟨m, htotal, h⟩ := Option.bind_eq_some_iff.mp h
      exact ⟨_, hfields, .cons (Json.exists_optional?_iff.mp ⟨n, hcurrent⟩)
        (.cons (Json.exists_optional?_iff.mp ⟨m, htotal⟩) .nil)⟩
    · simp at h
  · rintro ⟨found, hfields, hfits⟩
    match found, hfits with
    | [current, total], .cons hcurrent (.cons htotal .nil) =>
      obtain ⟨n, hcurrent⟩ := Json.exists_optional?_iff.mpr hcurrent
      obtain ⟨m, htotal⟩ := Json.exists_optional?_iff.mpr htotal
      have hfields : value.fields? ["current", "total"] 2 = some [current, total] := hfields
      refine ⟨(), ?_⟩
      simp only [hfields, hcurrent, htotal]
      rfl

/-- A message about a push can be read from the values that have its fields, and from no others. -/
theorem exists_ofPush?_iff {value : Json} :
    (∃ m, ofPush? value = some m) ↔ Record pushFields value := by
  have hprogress : ∀ {field : Option Json},
      (∃ found, Json.optional? progress? field = some found) ↔
        Json.Fits (Record progressFields) field := by
    intro field
    rw [Json.exists_optional?_iff]
    simp only [exists_progress?_iff]
  rw [Json.record_iff]
  constructor
  · rintro ⟨m, h⟩
    rw [ofPush?] at h
    split at h
    · next error status progress detail hfields =>
      obtain ⟨_, herror, h⟩ := Option.bind_eq_some_iff.mp h
      obtain ⟨_, hstatus, h⟩ := Option.bind_eq_some_iff.mp h
      obtain ⟨_, hbar, h⟩ := Option.bind_eq_some_iff.mp h
      obtain ⟨_, hdetail, h⟩ := Option.bind_eq_some_iff.mp h
      exact ⟨_, hfields, .cons (Json.exists_optional?_iff.mp ⟨_, herror⟩)
        (.cons (Json.exists_optional?_iff.mp ⟨_, hstatus⟩)
          (.cons (Json.exists_optional?_iff.mp ⟨_, hbar⟩)
            (.cons (hprogress.mp ⟨_, hdetail⟩) .nil)))⟩
    · simp at h
  · rintro ⟨found, hfields, hfits⟩
    match found, hfits with
    | [error, status, progress, detail],
        .cons herror (.cons hstatus (.cons hbar (.cons hdetail .nil))) =>
      obtain ⟨text, herror⟩ := Json.exists_optional?_iff.mpr herror
      obtain ⟨state, hstatus⟩ := Json.exists_optional?_iff.mpr hstatus
      obtain ⟨bar, hbar⟩ := Json.exists_optional?_iff.mpr hbar
      obtain ⟨far, hdetail⟩ := hprogress.mpr hdetail
      have hfields : value.fields? ["error", "status", "progress", "progressDetail"] 4 =
          some [error, status, progress, detail] := hfields
      refine ⟨{ status := state, error := text }, ?_⟩
      simp only [ofPush?, List.length_cons, List.length_nil, hfields, herror, hstatus, hbar, hdetail]
      rfl

theorem optional?_text?_eq_iff {field : Option Json} {found : Option String}
    (h : Json.optional? Json.text? field = some found) {text : String} :
    found = some text ↔ ∃ value, field = some value ∧ value.text? = some text := by
  cases field with
  | none =>
    obtain rfl := Option.some.inj h
    simp
  | some value =>
    cases value with
    | null =>
      obtain rfl := Option.some.inj h
      simp [Json.text?]
    | string literal =>
      obtain ⟨other, hother, rfl⟩ := Option.map_eq_some_iff.mp
        (show (Json.text? (.string literal)).map some = some found from h)
      simp [hother]
    | _ => simp [Json.optional?, Json.text?] at h

/-- What a value reports is the text of its first field, if that is the one for errors. -/
theorem reports_iff_of_fields? {value : Json} {names : List String} {least : Nat}
    {error : Option Json} {others : List (Option Json)}
    (h : value.fields? ("error" :: names) (least + 1) = some (error :: others)) {text : String} :
    Reports text value ↔ ∃ found, error = some found ∧ found.text? = some text := by
  cases value with
  | object members =>
    obtain ⟨named, hnamed, h⟩ := Option.bind_eq_some_iff.mp h
    rw [List.mapM_cons] at h
    obtain ⟨first, hfirst, h⟩ := Option.bind_eq_some_iff.mp h
    obtain ⟨rest, -, hlist⟩ := Option.bind_eq_some_iff.mp h
    obtain rfl : first = error := (List.cons.inj (Option.some.inj hlist)).1
    constructor
    · intro hreports
      cases hreports with
      | @object _ named' found hnamed' hmem htext =>
        obtain rfl := Option.some.inj (hnamed.symm.trans hnamed')
        exact ⟨found, (Json.eq_some_iff_mem_of_single? hfirst).mpr hmem, htext⟩
    · rintro ⟨found, hfound, htext⟩
      exact .object hnamed ((Json.eq_some_iff_mem_of_single? hfirst).mp hfound) htext
  | array items =>
    rw [Json.fields?] at h
    split at h
    · next hlength =>
      cases items with
      | nil => simp at hlength
      | cons first rest =>
        obtain rfl : some first = error := (List.cons.inj (Option.some.inj h)).1
        constructor
        · intro hreports
          cases hreports with
          | array htext => exact ⟨first, rfl, htext⟩
        · rintro ⟨found, hfound, htext⟩
          obtain rfl := Option.some.inj hfound
          exact .array htext
    · simp at h
  | _ => simp [Json.fields?] at h

/-- The error of a message is the one that its value reports. -/
theorem error_eq_some_iff {value : Json} {m : DaemonMessage} (h : ofPush? value = some m)
    {text : String} : m.error = some text ↔ Reports text value := by
  rw [ofPush?] at h
  split at h
  · next error status progress detail hfields =>
    obtain ⟨found, herror, h⟩ := Option.bind_eq_some_iff.mp h
    have hfound : m.error = found := by
      simp only [Option.bind_eq_bind, Option.bind_eq_some_iff, Option.pure_def,
        Option.some.injEq] at h
      obtain ⟨-, -, -, -, -, -, rfl⟩ := h
      rfl
    rw [hfound, optional?_text?_eq_iff herror, reports_iff_of_fields? hfields]
  · simp at h

/-- A message is without an error if its value reports none. -/
theorem error_eq_none_iff {value : Json} {m : DaemonMessage} (h : ofPush? value = some m) :
    m.error = none ↔ ∀ text, ¬ Reports text value := by
  rw [Option.eq_none_iff_forall_ne_some]
  exact forall_congr' fun text => not_congr (error_eq_some_iff h)

end DaemonMessage

end ReleasePublisher
