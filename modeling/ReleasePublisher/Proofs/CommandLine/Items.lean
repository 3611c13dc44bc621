import Mathlib.Data.List.TakeWhile
import ReleasePublisher.CommandLine.Arguments
import ReleasePublisher.Proofs.Text.Encoding

/-!
Arguments as words and options in their spellings. An item can be read although the one before it
has not been looked at yet, and comes to the same as if it had been. So a command line is read item
by item, and what is pending does not matter.
-/
namespace ReleasePublisher

namespace CommandLine

def IsPlain (argument : Bytes) : Prop := argument.head? ≠ some 45

instance (argument : Bytes) : Decidable (IsPlain argument) :=
  inferInstanceAs (Decidable (_ ≠ _))

structure Word where
  text : String
  plain : IsPlain (Bytes.ofString text)

structure OptionValue where
  bytes : Bytes
  ne_nil : bytes ≠ []
  plain : IsPlain bytes
  deriving DecidableEq

inductive Setting
  | value (option : ValueOption) (value : OptionValue)
  | flag (option : FlagOption)
  | request (option : RequestOption)
  deriving DecidableEq

namespace Setting

def option : Setting → Argument
  | .value option _ => .value option
  | .flag option => .flag option
  | .request option => .request option

/-- How the reading ends at an option, when it does: a request is answered at once, and the value of
one option has to be text. -/
def stop? : Setting → Option ArgumentStop
  | .value .registry v => if (Utf8.decode? v.bytes).isSome then none else some (.refused .notText)
  | .request o => some (.asked o)
  | _ => none

end Setting

inductive Item
  | word (word : Word)
  /-- In the short spelling a value stands behind an equals sign, and a request is a letter. -/
  | option (setting : Setting) (short : Bool)

namespace Item

def long (name : String) : Bytes := 45 :: 45 :: Bytes.ofString name

def letter : RequestOption → Bytes
  | .help => [45, 104]
  | .version => [45, 86]

def arguments : Item → List Bytes
  | .word w => [Bytes.ofString w.text]
  | .option (.value o v) false => [long o.name, v.bytes]
  | .option (.value o v) true => [long o.name ++ Arguments.Reading.equalsSign :: v.bytes]
  | .option (.flag o) _ => [long o.name]
  | .option (.request o) false => [long o.name]
  | .option (.request o) true => [letter o]

def text? : Item → Option String
  | .word w => some w.text
  | .option .. => none

def setting? : Item → Option Setting
  | .word _ => none
  | .option s _ => some s

def words (items : List Item) : List String := items.filterMap text?

def settings (items : List Item) : List Setting := items.filterMap setting?

@[simp]
theorem words_concat_word (items : List Item) (w : Word) :
    words (items ++ [.word w]) = words items ++ [w.text] := by
  simp [words, text?]

@[simp]
theorem words_concat_option (items : List Item) (s : Setting) (short : Bool) :
    words (items ++ [.option s short]) = words items := by
  simp [words, text?]

@[simp]
theorem settings_concat_word (items : List Item) (w : Word) :
    settings (items ++ [.word w]) = settings items := by
  simp [settings, setting?]

@[simp]
theorem settings_concat_option (items : List Item) (s : Setting) (short : Bool) :
    settings (items ++ [.option s short]) = settings items ++ [s] := by
  simp [settings, setting?]

def line (items : List Item) : List Bytes := items.flatMap arguments

end Item

end CommandLine

namespace Arguments.Reading

open CommandLine

variable {s r : Reading} {argument name value : Bytes}

structure IsSettled (r : Reading) : Prop where
  wordsOnly_eq : r.wordsOnly = false
  pending_eq : r.pending = .nothing

/-- Between two items no option lacks its value, and a word is further only behind two others. -/
structure IsBetween (s : Reading) : Prop where
  wordsOnly_eq : s.wordsOnly = false
  supplied : ∀ option, s.pending ≠ .option option none
  accepted_of_extra : ∀ words, s.pending = .extra words → 2 ≤ s.accepted

def settle (s : Reading) : Except ArgumentStop Reading := orStop s.resolve

theorem eq_ok_of_orStop {α : Type} {x : Except ArgumentError α} {a : α} (h : orStop x = .ok a) :
    x = .ok a := by
  cases x with
  | error fault => cases h
  | ok b =>
    cases h
    rfl

theorem reset_of_nothing (h : r.pending = .nothing) : { r with pending := .nothing } = r := by
  rw [← h]

theorem resolve_of_nothing (h : r.pending = .nothing) : r.resolve = .ok r := by
  simp only [resolve, h, reset_of_nothing h]

theorem IsSettled.resolve_eq (h : r.IsSettled) : r.resolve = .ok r :=
  resolve_of_nothing h.pending_eq

theorem IsSettled.settle_eq (h : r.IsSettled) : r.settle = .ok r := by
  rw [settle, h.resolve_eq]
  rfl

theorem IsSettled.isBetween (h : r.IsSettled) : r.IsBetween where
  wordsOnly_eq := h.wordsOnly_eq
  supplied option := by simp [h.pending_eq]
  accepted_of_extra words := by simp [h.pending_eq]

theorem exists_of_map_eq_ok {α β : Type} {x : Except ArgumentError α} {f : α → β} {b : β}
    (h : x.map f = .ok b) : ∃ a, f a = b := by
  cases x with
  | error fault => cases h
  | ok a => exact ⟨a, Except.ok.inj h⟩

theorem setValue_keeps {option : ValueOption} (h : s.setValue option value = .ok r) :
    r.wordsOnly = s.wordsOnly ∧ r.pending = s.pending ∧ r.accepted = s.accepted := by
  unfold setValue at h
  split at h
  · cases h
  · cases option with
    | projectRoot | configFile | registry =>
      obtain ⟨_, rfl⟩ := exists_of_map_eq_ok h
      exact ⟨rfl, rfl, rfl⟩

theorem resolve_keeps (h : s.resolve = .ok r) :
    r.wordsOnly = s.wordsOnly ∧ r.pending = .nothing ∧ r.accepted = s.accepted := by
  unfold resolve at h
  split at h
  · cases h
    exact ⟨rfl, rfl, rfl⟩
  · cases h
  · exact setValue_keeps h
  · obtain ⟨_, rfl⟩ := exists_of_map_eq_ok h
    exact ⟨rfl, rfl, rfl⟩
  · obtain ⟨_, rfl⟩ := exists_of_map_eq_ok h
    exact ⟨rfl, rfl, rfl⟩

theorem IsBetween.isSettled (hs : s.IsBetween) (h : s.resolve = .ok r) : r.IsSettled := by
  obtain ⟨hwords, hpending, -⟩ := resolve_keeps h
  exact ⟨hwords.trans hs.wordsOnly_eq, hpending⟩

theorem setFlag_keeps {flag : FlagOption} (h : s.setFlag flag = .ok r) :
    r.wordsOnly = s.wordsOnly ∧ r.pending = s.pending ∧ r.accepted = s.accepted := by
  unfold setFlag at h
  split at h
  · cases h
  · cases h
    exact ⟨rfl, rfl, rfl⟩

theorem IsSettled.setValue {option : ValueOption} (h : s.IsSettled)
    (hset : s.setValue option value = .ok r) : r.IsSettled := by
  obtain ⟨hwords, hpending, -⟩ := setValue_keeps hset
  exact ⟨hwords.trans h.wordsOnly_eq, hpending.trans h.pending_eq⟩

theorem IsSettled.setFlag {flag : FlagOption} (h : s.IsSettled) (hset : s.setFlag flag = .ok r) :
    r.IsSettled := by
  obtain ⟨hwords, hpending, -⟩ := setFlag_keeps hset
  exact ⟨hwords.trans h.wordsOnly_eq, hpending.trans h.pending_eq⟩

/-- What is pending is looked at first, and may end the reading by itself. -/
theorem orStop_bind {α : Type} (s : Reading) (f : Reading → Except ArgumentError α) :
    orStop (s.resolve.bind f) = s.settle >>= fun r => orStop (f r) := by
  unfold settle
  cases s.resolve <;> rfl

/-- What follows the settling is only about what has been settled. -/
theorem settle_bind {α : Type} (hs : s.IsBetween) {f g : Reading → Except ArgumentStop α}
    (h : ∀ r : Reading, r.IsSettled → f r = g r) : s.settle >>= f = s.settle >>= g := by
  unfold settle
  cases hresolve : s.resolve with
  | error fault => rfl
  | ok r => exact h r (hs.isSettled hresolve)

theorem orStop_finish (s : Reading) (env : Environment) :
    orStop (s.finish env) = s.settle >>= fun r => orStop (r.finish env) := by
  unfold settle
  cases hresolve : s.resolve with
  | error fault =>
    rw [finish, hresolve]
    rfl
  | ok r =>
    have hagain : r.resolve = .ok r := resolve_of_nothing (resolve_keeps hresolve).2.1
    show orStop (s.finish env) = orStop (r.finish env)
    rw [finish, finish, hresolve, hagain]

theorem splitAttached_eq (h : equalsSign ∉ name) : splitAttached name = (name, none) := by
  have hdrop : name.dropWhile (· != equalsSign) = [] := by
    rw [List.dropWhile_eq_nil_iff]
    intro b hb
    simp only [bne_iff_ne]
    rintro rfl
    exact h hb
  simp only [splitAttached, hdrop]

/-- The value begins behind the first equals sign and may contain others. -/
theorem splitAttached_append (h : equalsSign ∉ name) (value : Bytes) :
    splitAttached (name ++ equalsSign :: value) = (name, some value) := by
  have hname : ∀ b ∈ name, (b != equalsSign) = true := by
    intro b hb
    simp only [bne_iff_ne]
    rintro rfl
    exact h hb
  simp only [splitAttached, List.dropWhile_append_of_pos hname, List.takeWhile_append_of_pos hname,
    List.dropWhile_cons, List.takeWhile_cons, bne_self_eq_false, Bool.false_eq_true, if_false,
    List.append_nil]

/-- What does not look like an option is a word. -/
theorem accept_of_isPlain (hs : s.wordsOnly = false) (h : IsPlain argument) :
    s.accept argument = orStop (s.acceptPlain argument) := by
  unfold accept
  rw [hs]
  split
  · contradiction
  · split
    · exact absurd rfl h
    · exact absurd rfl h
    · exact absurd rfl h
    · rfl

theorem accept_long (hs : s.wordsOnly = false) {text : Bytes} (h : text ≠ []) :
    s.accept (45 :: 45 :: text) = s.acceptLong (splitAttached text).1 (splitAttached text).2 := by
  cases text with
  | nil => exact absurd rfl h
  | cons b rest =>
    unfold accept
    rw [hs]
    rfl

/-- The name of an option leads to it. -/
theorem find?_name : ∀ option ∈ Argument.options, ∀ name ∈ option.optionName?,
    (Argument.options.find? fun a =>
        a.optionName?.any (Bytes.ofString · == Bytes.ofString name)) = some option ∧
      Bytes.ofString name ≠ [] ∧ equalsSign ∉ Bytes.ofString name := by
  decide +kernel

theorem mem_options {option : Argument} {name : String} (h : name ∈ option.optionName?) :
    option ∈ Argument.options := by
  cases option with
  | word => simp [Argument.optionName?] at h
  | value o | flag o | request o => cases o <;> decide

/-- A long option is known by its name, with or without a value behind an equals sign. -/
theorem accept_name {option : Argument} {name : String} (hs : s.wordsOnly = false)
    (hname : name ∈ option.optionName?) :
    s.accept (Item.long name) = s.acceptLong (Bytes.ofString name) none ∧
      ∀ value, s.accept (Item.long name ++ equalsSign :: value) =
        s.acceptLong (Bytes.ofString name) (some value) := by
  obtain ⟨-, hne, hequals⟩ := find?_name option (mem_options hname) name hname
  constructor
  · rw [Item.long, accept_long hs hne, splitAttached_eq hequals]
  · intro value
    rw [Item.long, List.cons_append, List.cons_append, accept_long hs (by simp),
      splitAttached_append hequals]

theorem accept_value (hs : s.wordsOnly = false) (option : ValueOption) :
    s.accept (Item.long option.name) = orStop (s.acceptValueOption option none) ∧
      ∀ value, s.accept (Item.long option.name ++ equalsSign :: value) =
        orStop (s.acceptValueOption option (some value)) := by
  have hname : option.name ∈ (Argument.value option).optionName? := rfl
  have hlong : ∀ attached, s.acceptLong (Bytes.ofString option.name) attached =
      orStop (s.acceptValueOption option attached) := by
    intro attached
    unfold acceptLong
    rw [(find?_name _ (mem_options hname) _ hname).1]
  obtain ⟨hapart, hattached⟩ := accept_name hs hname
  exact ⟨hapart.trans (hlong none), fun value => (hattached value).trans (hlong (some value))⟩

theorem accept_flag (hs : s.wordsOnly = false) (flag : FlagOption) :
    s.accept (Item.long flag.name) = orStop (s.acceptFlag flag none) := by
  have hname : flag.name ∈ (Argument.flag flag).optionName? := rfl
  rw [(accept_name hs hname).1]
  unfold acceptLong
  rw [(find?_name _ (mem_options hname) _ hname).1]

theorem accept_request (hs : s.wordsOnly = false) (request : RequestOption) :
    s.accept (Item.long request.name) = .error (s.acceptRequest request none) ∧
      s.accept (Item.letter request) = .error (s.acceptRequest request none) := by
  have hname : request.name ∈ (Argument.request request).optionName? := rfl
  constructor
  · rw [(accept_name hs hname).1]
    unfold acceptLong
    rw [(find?_name _ (mem_options hname) _ hname).1]
  · unfold accept
    rw [hs]
    cases request <;> rfl

def acceptItem (s : Reading) (item : Item) : Except ArgumentStop Reading :=
  item.arguments.foldlM accept s

def enter (r : Reading) : Item → Except ArgumentStop Reading
  | .word w =>
    .ok (if r.accepted < 2 then
        { r with accepted := r.accepted + 1, pending := .word (Bytes.ofString w.text) }
      else { r with pending := .extra [Bytes.ofString w.text] })
  | .option (.value o v) false => .ok { r with pending := .option o (some v.bytes) }
  | .option (.value o v) true => orStop (r.setValue o v.bytes)
  | .option (.flag o) _ => orStop (r.setFlag o)
  | .option (.request o) _ => .error (.asked o)

/-- Before an option is accepted, what is pending is looked at. -/
theorem acceptItem_option (hs : s.IsBetween) (setting : Setting) (short : Bool) :
    s.acceptItem (.option setting short) = s.settle >>= (·.enter (.option setting short)) := by
  have hwords := hs.wordsOnly_eq
  unfold acceptItem
  cases setting with
  | value option value =>
    obtain ⟨hapart, hattached⟩ := accept_value hwords option
    cases short with
    | false =>
      have haccept : s.acceptValueOption option none =
          s.resolve.bind fun r => .ok { r with pending := .option option none } := rfl
      rw [Item.arguments, List.foldlM_cons, hapart, haccept, orStop_bind, bind_assoc]
      apply settle_bind hs
      intro r hr
      have hplain := accept_of_isPlain (s := { r with pending := .option option none })
        hr.wordsOnly_eq value.plain
      show ([value.bytes].foldlM accept { r with pending := .option option none }) = _
      rw [List.foldlM_cons, hplain]
      rfl
    | true =>
      have haccept : s.acceptValueOption option (some value.bytes) =
          s.resolve.bind (·.setValue option value.bytes) := rfl
      rw [Item.arguments, List.foldlM_cons, hattached, haccept, orStop_bind]
      exact bind_pure _
  | flag option =>
    have haccept : s.acceptFlag option none = s.resolve.bind (·.setFlag option) := rfl
    rw [Item.arguments, List.foldlM_cons, accept_flag hwords, haccept, orStop_bind]
    exact bind_pure _
  | request option =>
    obtain ⟨hlong, hletter⟩ := accept_request hwords option
    have hrequest : Except.error (s.acceptRequest option none) =
        s.settle >>= fun r => r.enter (.option (.request option) short) := by
      rw [acceptRequest, settle]
      cases s.resolve <;> rfl
    rw [← hrequest]
    cases short with
    | false => rw [Item.arguments, List.foldlM_cons, hlong]; rfl
    | true => rw [Item.arguments, List.foldlM_cons, hletter]; rfl

/-- Only a further word behind another one is not looked at by itself. -/
theorem acceptItem_word (hs : s.IsBetween) (word : Word) :
    (s.acceptItem (.word word) = s.settle >>= (·.enter (.word word))) ∨
      ∃ words, s.pending = .extra words ∧ s.acceptItem (.word word) =
        .ok { s with pending := .extra (words ++ [Bytes.ofString word.text]) } := by
  have hplain : s.acceptPlain (Bytes.ofString word.text) =
      s.acceptWord (Bytes.ofString word.text) := by
    unfold acceptPlain
    split
    · next option hpending => exact absurd hpending (hs.supplied option)
    · rfl
  have haccept : s.acceptItem (.word word) = orStop (s.acceptWord (Bytes.ofString word.text)) := by
    rw [acceptItem, Item.arguments, List.foldlM_cons,
      accept_of_isPlain hs.wordsOnly_eq word.plain, hplain]
    exact bind_pure _
  rw [haccept]
  unfold acceptWord
  split
  · next words hpending => exact Or.inr ⟨words, hpending, rfl⟩
  · left
    rw [settle]
    cases s.resolve with
    | error fault => rfl
    | ok r => rfl

theorem isBetween_enter {item : Item} (hr : r.IsSettled) (h : r.enter item = .ok s) :
    s.IsBetween := by
  cases item with
  | word word =>
    obtain rfl := Except.ok.inj h
    by_cases haccepted : r.accepted < 2
    · rw [if_pos haccepted]
      exact ⟨hr.wordsOnly_eq, by simp, by simp⟩
    · rw [if_neg haccepted]
      exact ⟨hr.wordsOnly_eq, by simp, fun _ _ => Nat.le_of_not_lt haccepted⟩
  | option setting short =>
    cases setting with
    | value option value =>
      cases short with
      | false =>
        obtain rfl := Except.ok.inj h
        exact ⟨hr.wordsOnly_eq, by simp, by simp⟩
      | true => exact (hr.setValue (eq_ok_of_orStop h)).isBetween
    | flag option => exact (hr.setFlag (eq_ok_of_orStop h)).isBetween
    | request option => cases h

theorem exists_settle {α : Type} {f : Reading → Except ArgumentStop α} {a : α}
    (hs : s.IsBetween) (h : s.settle >>= f = .ok a) : ∃ r : Reading, r.IsSettled ∧ f r = .ok a := by
  unfold settle at h
  cases hresolve : s.resolve with
  | error fault =>
    rw [hresolve] at h
    cases h
  | ok r =>
    rw [hresolve] at h
    exact ⟨r, hs.isSettled hresolve, h⟩

/-- No item leaves the reading in the middle of another one. -/
theorem IsBetween.acceptItem {item : Item} {t : Reading} (hs : s.IsBetween)
    (h : s.acceptItem item = .ok t) : t.IsBetween := by
  cases item with
  | option setting short =>
    rw [acceptItem_option hs] at h
    obtain ⟨r, hr, henter⟩ := exists_settle hs h
    exact isBetween_enter hr henter
  | word word =>
    rcases acceptItem_word hs word with haccept | ⟨words, hpending, haccept⟩
    · rw [haccept] at h
      obtain ⟨r, hr, henter⟩ := exists_settle hs h
      exact isBetween_enter hr henter
    · rw [haccept] at h
      obtain rfl := Except.ok.inj h
      exact ⟨hs.wordsOnly_eq, by simp, fun _ _ => hs.accepted_of_extra words hpending⟩

def take (r : Reading) : Item → Except ArgumentStop Reading
  | .word w =>
    .ok (if r.accepted < 2 then
        { r.note (.word r.nextPlace) with accepted := r.accepted + 1, words := r.words ++ [w.text] }
      else r)
  | .option (.value o v) _ => orStop (r.setValue o v.bytes)
  | .option (.flag o) _ => orStop (r.setFlag o)
  | .option (.request o) _ => .error (.asked o)

theorem textValue_word (word : Word) : textValue (Bytes.ofString word.text) = .ok word.text := by
  rw [textValue, Utf8.decode?_ofString]

theorem mapM_textValue_word (word : Word) :
    [Bytes.ofString word.text].mapM textValue = .ok [word.text] := by
  rw [List.mapM_cons, textValue_word]
  rfl

/-- A further word that is a text makes no difference. -/
theorem resolve_extra {words : List Bytes} (word : Word) (h : s.pending = .extra words) :
    ({ s with pending := .extra (words ++ [Bytes.ofString word.text]) } : Reading).resolve =
      s.resolve := by
  simp only [resolve, h, List.mapM_append, mapM_textValue_word]
  cases words.mapM textValue <;> rfl

/-- To accept an item and look at it at once is to take it. -/
theorem settle_enter (hr : r.IsSettled) (item : Item) : r.enter item >>= settle = r.take item := by
  have hself := reset_of_nothing hr.pending_eq
  have hsettle {x : Except ArgumentError Reading} (hx : ∀ t, x = .ok t → t.IsSettled) :
      orStop x >>= settle = orStop x := by
    cases x with
    | error fault => rfl
    | ok t => exact (hx t rfl).settle_eq
  cases item with
  | word word =>
    by_cases haccepted : r.accepted < 2
    · simp only [enter, take, if_pos haccepted]
      show orStop ((textValue (Bytes.ofString word.text)).map _) = _
      rw [textValue_word, ← hself]
      rfl
    · simp only [enter, take, if_neg haccepted]
      show orStop (([Bytes.ofString word.text].mapM textValue).map _) = _
      rw [mapM_textValue_word, ← hself]
      rfl
  | option setting short =>
    cases setting with
    | value option value =>
      cases short with
      | false =>
        show orStop (({ r with pending := .nothing } : Reading).setValue option value.bytes) = _
        rw [hself]
        rfl
      | true => exact hsettle fun t => hr.setValue
    | flag option => exact hsettle fun t => hr.setFlag
    | request option => rfl

/-- Reading an item and looking at it does not depend on what is still pending. -/
theorem acceptItem_settle (hs : s.IsBetween) (item : Item) :
    s.acceptItem item >>= settle = s.settle >>= (·.take item) := by
  have hentered (h : s.acceptItem item = s.settle >>= (·.enter item)) :
      s.acceptItem item >>= settle = s.settle >>= (·.take item) := by
    rw [h, bind_assoc]
    exact settle_bind hs fun r hr => settle_enter hr item
  cases item with
  | option setting short => exact hentered (acceptItem_option hs setting short)
  | word word =>
    rcases acceptItem_word hs word with haccept | ⟨words, hpending, haccept⟩
    · exact hentered haccept
    · have haccepted : ¬ s.accepted < 2 := Nat.not_lt.mpr (hs.accepted_of_extra words hpending)
      rw [haccept]
      show orStop _ = _
      rw [resolve_extra word hpending, settle]
      cases hresolve : s.resolve with
      | error fault => rfl
      | ok r =>
        obtain ⟨-, -, haccepted'⟩ := resolve_keeps hresolve
        show Except.ok r = .ok _
        rw [haccepted', if_neg haccepted]

/-- Reading some items is taking one after the other. -/
theorem foldlM_settle (hs : s.IsBetween) (items : List Item) :
    (Item.line items).foldlM accept s >>= settle =
      s.settle >>= fun r => items.foldlM take r := by
  induction items generalizing s with
  | nil =>
    show settle s = s.settle >>= pure
    rw [bind_pure]
  | cons item items ih =>
    have hstep : (s.acceptItem item >>= fun t =>
        (Item.line items).foldlM accept t >>= settle) =
          s.acceptItem item >>= fun t => t.settle >>= fun r => items.foldlM take r := by
      cases haccept : s.acceptItem item with
      | error stop => rfl
      | ok t => exact ih (hs.acceptItem haccept)
    rw [Item.line, List.flatMap_cons, List.foldlM_append, bind_assoc]
    show (s.acceptItem item >>= fun t => (Item.line items).foldlM accept t >>= settle) = _
    rw [hstep, ← bind_assoc, acceptItem_settle hs, bind_assoc]
    rfl

/-- A command line means what its items come to, one after the other. -/
theorem parse_line (env : Environment) (items : List Item) :
    parse env (Item.line items) = items.foldlM take {} >>= fun r => orStop (r.finish env) := by
  have hstart : IsSettled {} := ⟨rfl, rfl⟩
  have hline := foldlM_settle hstart.isBetween items
  rw [hstart.settle_eq] at hline
  calc
    parse env (Item.line items)
      = (Item.line items).foldlM accept {} >>= fun s => orStop (s.finish env) := rfl
    _ = (Item.line items).foldlM accept {} >>= fun s =>
          s.settle >>= fun r => orStop (r.finish env) :=
      congrArg ((Item.line items).foldlM accept {} >>= ·) (funext fun s => orStop_finish s env)
    _ = ((Item.line items).foldlM accept {} >>= settle) >>= fun r => orStop (r.finish env) :=
      (bind_assoc _ _ _).symm
    _ = items.foldlM take {} >>= fun r => orStop (r.finish env) := by
      rw [hline]
      rfl

end Arguments.Reading

end ReleasePublisher
