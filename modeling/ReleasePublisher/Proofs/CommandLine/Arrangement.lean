import Mathlib.Data.List.Induction
import ReleasePublisher.Proofs.CommandLine.Course
import ReleasePublisher.Proofs.CommandLine.Items

/-!
What the order of arguments matters. The words are told apart by their order, of which the first two
count, and the options by their names. Only an option at which the reading ends keeps what comes
behind it from being read, so that of several such options the first decides.
-/
namespace ReleasePublisher

namespace CommandLine

structure Told (items : List Item) (given : Arguments) : Prop where
  tag_eq : given.tag = (Item.words items)[0]?
  debugBuild_eq : given.debugBuild = (Item.words items)[1]?
  projectRoot_iff : ∀ path, given.projectRoot = some path ↔
    ∃ value : OptionValue, value.bytes = path.text ∧
      .value .projectRoot value ∈ Item.settings items
  configFile_eq : ∀ value : OptionValue, .value .configFile value ∈ Item.settings items →
    given.configFile = ⟨value.bytes⟩
  registry_eq : ∀ value : OptionValue, .value .registry value ∈ Item.settings items →
    given.registry.map Bytes.ofString = some value.bytes
  noCache_iff : given.noCache = true ↔ .flag .noCache ∈ Item.settings items
  pull_iff : given.pull = true ↔ .flag .pull ∈ Item.settings items
  dryRun_iff : given.dryRun = true ↔ .flag .dryRun ∈ Item.settings items

structure Sensible (env : Environment) : Prop where
  configFile_ne : env.value? "SHIPWRIGHT_CONFIG_FILE" ≠ some []
  registry_isText : ∀ bytes, env.value? "SHIPWRIGHT_REGISTRY" = some bytes → IsText bytes

/-- What becomes of some items: the first option at which the reading ends decides, and without one
the program is told all of them. -/
structure ReadAsMeant (env : Environment) (items : List Item)
    (result : Except ArgumentStop Arguments) : Prop where
  stopped : ∀ stop, (Item.settings items).findSome? Setting.stop? = some stop →
    result = .error stop
  told : ∀ given, result = .ok given → Told items given
  read : (Item.settings items).findSome? Setting.stop? = none → Sensible env →
    ∃ given, result = .ok given

end CommandLine

namespace Arguments.Reading

open CommandLine

variable {r : Reading} {items : List Item}

def value? (r : Reading) : ValueOption → Option Bytes
  | .projectRoot => r.projectRoot.map (·.text)
  | .configFile => r.configFile.map (·.text)
  | .registry => r.registry.map Bytes.ofString

theorem has_eq (r : Reading) (option : ValueOption) : r.has option = (r.value? option).isSome := by
  cases option <;> simp [has, value?]

/-- Setting a fresh option that makes sense changes its own value and nothing else. -/
theorem exists_setValue {option : ValueOption} {value : OptionValue}
    (hfresh : r.value? option = none) (hstop : (Setting.value option value).stop? = none) :
    ∃ t, r.setValue option value.bytes = .ok t ∧ t.words = r.words ∧ t.accepted = r.accepted ∧
      t.given = r.given ++ [.value option] ∧
      ∀ other, t.value? other = if other = option then some value.bytes else r.value? other := by
  have hhas : r.has option = false := by rw [has_eq, hfresh]; rfl
  have hempty : value.bytes.isEmpty = false := by simpa using value.ne_nil
  unfold setValue
  rw [hhas]
  cases option with
  | projectRoot =>
    simp only [pathValue, hempty, Bool.false_eq_true, if_false]
    refine ⟨_, rfl, rfl, rfl, rfl, ?_⟩
    intro other
    cases other <;> rfl
  | configFile =>
    simp only [pathValue, hempty, Bool.false_eq_true, if_false]
    refine ⟨_, rfl, rfl, rfl, rfl, ?_⟩
    intro other
    cases other <;> rfl
  | registry =>
    cases hdecode : Utf8.decode? value.bytes with
    | none => simp [Setting.stop?, hdecode] at hstop
    | some text =>
      simp only [textValue, hdecode, Bool.false_eq_true, if_false]
      refine ⟨_, rfl, rfl, rfl, rfl, ?_⟩
      intro other
      cases other with
      | registry => exact congrArg some (Utf8.decode?_eq_some_iff.mp hdecode).symm
      | projectRoot | configFile => rfl

theorem setValue_of_stop {option : ValueOption} {value : OptionValue} {stop : ArgumentStop}
    (hfresh : r.value? option = none) (hstop : (Setting.value option value).stop? = some stop) :
    orStop (r.setValue option value.bytes) = .error stop := by
  have hhas : r.has option = false := by rw [has_eq, hfresh]; rfl
  cases option with
  | projectRoot | configFile => cases hstop
  | registry =>
    cases hdecode : Utf8.decode? value.bytes with
    | some text => simp [Setting.stop?, hdecode] at hstop
    | none =>
      obtain rfl : .refused .notText = stop := by simpa [Setting.stop?, hdecode] using hstop
      simp [setValue, hhas, textValue, hdecode, orStop, Except.map]

/-- What has been read are the first two words, and the options with their values. In which order
the options came is not said. -/
structure Says (items : List Item) (r : Reading) : Prop where
  settled : r.IsSettled
  accepted_eq : r.accepted = r.words.length
  words_eq : r.words = (Item.words items).take 2
  value_iff : ∀ option bytes, r.value? option = some bytes ↔
    ∃ value : OptionValue, value.bytes = bytes ∧ .value option value ∈ Item.settings items
  flag_iff : ∀ flag, .flag flag ∈ r.given ↔ .flag flag ∈ Item.settings items

theorem says_start : Says [] {} where
  settled := ⟨rfl, rfl⟩
  accepted_eq := rfl
  words_eq := rfl
  value_iff option bytes := by cases option <;> simp [value?, Item.settings]
  flag_iff flag := by simp [Item.settings]

theorem Says.value?_eq_none (h : Says items r) {option : ValueOption}
    (hfresh : .value option ∉ (Item.settings items).map Setting.option) :
    r.value? option = none := by
  rw [Option.eq_none_iff_forall_not_mem]
  intro bytes hbytes
  obtain ⟨given, -, hmem⟩ := (h.value_iff option bytes).mp hbytes
  exact hfresh (List.mem_map_of_mem hmem)

theorem says_word (h : Says items r) (word : Word) :
    ∃ t, r.take (.word word) = .ok t ∧ Says (items ++ [.word word]) t := by
  have hlength : r.accepted = min 2 (Item.words items).length := by
    rw [h.accepted_eq, h.words_eq, List.length_take]
  refine ⟨_, rfl, ?_⟩
  by_cases haccepted : r.accepted < 2
  · rw [if_pos haccepted]
    have htake : r.words = Item.words items := by
      rw [h.words_eq]
      exact List.take_of_length_le (by omega)
    exact {
      settled := ⟨h.settled.wordsOnly_eq, h.settled.pending_eq⟩
      accepted_eq := by simp [h.accepted_eq]
      words_eq := by
        rw [Item.words_concat_word, List.take_of_length_le (by simp; omega), htake]
      value_iff := fun option bytes => by
        rw [Item.settings_concat_word, ← h.value_iff]
        cases option <;> rfl
      flag_iff := fun flag => by
        rw [Item.settings_concat_word, ← h.flag_iff]
        simp [note] }
  · rw [if_neg haccepted]
    exact {
      settled := h.settled
      accepted_eq := h.accepted_eq
      words_eq := by
        rw [Item.words_concat_word, List.take_append_of_le_length (by omega), h.words_eq]
      value_iff := fun option bytes => by rw [Item.settings_concat_word, h.value_iff]
      flag_iff := fun flag => by rw [Item.settings_concat_word, h.flag_iff] }

/-- An option with a value that makes sense is kept as it was meant. -/
theorem says_value (h : Says items r) {option : ValueOption} {given : OptionValue} {short : Bool}
    (hfresh : .value option ∉ (Item.settings items).map Setting.option)
    (hstop : (Setting.value option given).stop? = none) :
    ∃ t, r.take (.option (.value option given) short) = .ok t ∧
      Says (items ++ [.option (.value option given) short]) t := by
  obtain ⟨t, hset, htwords, haccepted, hgiven, hvalue⟩ :=
    exists_setValue (h.value?_eq_none hfresh) hstop
  refine ⟨t, by rw [take, hset]; rfl, ?_⟩
  exact {
    settled := h.settled.setValue hset
    accepted_eq := by rw [haccepted, htwords, h.accepted_eq]
    words_eq := by rw [Item.words_concat_option, htwords, h.words_eq]
    value_iff := fun other bytes => by
      rw [Item.settings_concat_option, hvalue]
      by_cases hother : other = option
      · subst hother
        rw [if_pos rfl]
        constructor
        · intro hbytes
          exact ⟨given, Option.some.inj hbytes, by simp⟩
        · rintro ⟨value, rfl, hmem⟩
          rcases List.mem_append.mp hmem with hold | hnew
          · exact absurd (List.mem_map_of_mem hold) hfresh
          · obtain rfl : value = given := by simpa using hnew
            rfl
      · rw [if_neg hother, h.value_iff]
        simp [hother]
    flag_iff := fun flag => by
      rw [Item.settings_concat_option, hgiven]
      simp [h.flag_iff] }

theorem says_flag (h : Says items r) {flag : FlagOption} {short : Bool}
    (hfresh : .flag flag ∉ (Item.settings items).map Setting.option) :
    ∃ t, r.take (.option (.flag flag) short) = .ok t ∧
      Says (items ++ [.option (.flag flag) short]) t := by
  have hnone : r.given.contains (.flag flag) = false := by
    rw [List.contains_eq_mem, decide_eq_false_iff_not, h.flag_iff]
    exact fun hmem => hfresh (List.mem_map_of_mem hmem)
  have hset : r.setFlag flag = .ok (r.note (.flag flag)) := by
    rw [setFlag, hnone]
    rfl
  refine ⟨_, by rw [take, hset]; rfl, ?_⟩
  exact {
    settled := h.settled.setFlag hset
    accepted_eq := h.accepted_eq
    words_eq := by
      rw [Item.words_concat_option, ← h.words_eq]
      rfl
    value_iff := fun option bytes => by
      have hvalue : (r.note (.flag flag)).value? option = r.value? option := by
        cases option <;> rfl
      rw [Item.settings_concat_option, hvalue, h.value_iff]
      simp
    flag_iff := fun other => by
      rw [Item.settings_concat_option]
      simp [note, h.flag_iff] }

structure Ends (items : List Item) (ending : Except ArgumentStop Reading) : Prop where
  stopped : ∀ stop, (Item.settings items).findSome? Setting.stop? = some stop →
    ending = .error stop
  read : (Item.settings items).findSome? Setting.stop? = none →
    ∃ r, ending = .ok r ∧ Says items r

/-- An option that ends the reading ends it wherever it stands. -/
theorem take_of_stop (h : Says items r) {setting : Setting} {short : Bool} {stop : ArgumentStop}
    (hfresh : setting.option ∉ (Item.settings items).map Setting.option)
    (hstop : setting.stop? = some stop) :
    r.take (.option setting short) = .error stop := by
  cases setting with
  | value option given => exact setValue_of_stop (h.value?_eq_none hfresh) hstop
  | flag => cases hstop
  | request option =>
    obtain rfl := Option.some.inj hstop
    rfl

theorem says_option (h : Says items r) {setting : Setting} {short : Bool}
    (hfresh : setting.option ∉ (Item.settings items).map Setting.option)
    (hstop : setting.stop? = none) :
    ∃ t, r.take (.option setting short) = .ok t ∧ Says (items ++ [.option setting short]) t := by
  cases setting with
  | value => exact says_value h hfresh hstop
  | flag => exact says_flag h hfresh
  | request => cases hstop

theorem Ends.word {ending : Except ArgumentStop Reading} (h : Ends items ending) (word : Word) :
    Ends (items ++ [.word word]) (ending >>= (·.take (.word word))) := by
  constructor
  · intro stop hstop
    rw [Item.settings_concat_word] at hstop
    rw [h.stopped stop hstop]
    rfl
  · intro hnone
    rw [Item.settings_concat_word] at hnone
    obtain ⟨r, rfl, hsays⟩ := h.read hnone
    exact says_word hsays word

/-- The reading goes on as far as no option has ended it. -/
theorem Ends.option {ending : Except ArgumentStop Reading} (h : Ends items ending)
    {setting : Setting} {short : Bool}
    (hfresh : setting.option ∉ (Item.settings items).map Setting.option) :
    Ends (items ++ [.option setting short]) (ending >>= (·.take (.option setting short))) := by
  have hfirst : (Item.settings (items ++ [.option setting short])).findSome? Setting.stop? =
      ((Item.settings items).findSome? Setting.stop?).or setting.stop? := by
    simp
  cases hbefore : (Item.settings items).findSome? Setting.stop? with
  | some first =>
    rw [hbefore, Option.some_or] at hfirst
    constructor
    · intro stop hstop
      rw [hfirst] at hstop
      rw [h.stopped stop (hbefore.trans hstop)]
      rfl
    · intro hnone
      rw [hfirst] at hnone
      cases hnone
  | none =>
    rw [hbefore, Option.none_or] at hfirst
    obtain ⟨r, rfl, hsays⟩ := h.read hbefore
    constructor
    · intro stop hstop
      exact take_of_stop hsays hfresh (hfirst.symm.trans hstop)
    · intro hnone
      exact says_option hsays hfresh (hfirst.symm.trans hnone)

/-- The first option that ends the reading does so, wherever it stands; without one, all is read. -/
theorem ends_foldlM_take (hdistinct : ((Item.settings items).map Setting.option).Nodup) :
    Ends items (items.foldlM take {}) := by
  induction items using List.reverseRecOn with
  | nil =>
    constructor
    · intro stop hstop
      cases hstop
    · intro
      exact ⟨_, rfl, says_start⟩
  | append_singleton items item ih =>
    have hfold : (items ++ [item]).foldlM take {} = items.foldlM take {} >>= (·.take item) := by
      rw [List.foldlM_append]
      simp only [List.foldlM_cons, List.foldlM_nil, bind_pure]
    rw [hfold]
    cases item with
    | word word =>
      rw [Item.settings_concat_word] at hdistinct
      exact (ih hdistinct).word word
    | option setting short =>
      rw [Item.settings_concat_option, List.map_append, List.nodup_append] at hdistinct
      obtain ⟨hbefore, -, happart⟩ := hdistinct
      apply (ih hbefore).option
      intro hmem
      exact happart _ hmem _ (by simp) rfl

theorem text_injective : Function.Injective Path.text := fun _ _ h => congrArg Path.mk h

/-- What is made of a reading depends on what it says, not on the order in which it was said. -/
theorem finish_eq_of_says {items' : List Item} {r' : Reading} (h : Says items r)
    (h' : Says items' r') (hwords : (Item.words items).take 2 = (Item.words items').take 2)
    (hsettings : (Item.settings items).Perm (Item.settings items')) (env : Environment) :
    r.finish env = r'.finish env := by
  have hvalue : ∀ option, r.value? option = r'.value? option := by
    intro option
    apply Option.ext
    intro bytes
    simp only [h.value_iff, h'.value_iff, hsettings.mem_iff]
  have hflag : ∀ flag, r.given.contains (.flag flag) = r'.given.contains (.flag flag) := by
    intro flag
    rw [List.contains_eq_mem, List.contains_eq_mem, decide_eq_decide, h.flag_iff, h'.flag_iff,
      hsettings.mem_iff]
  have hsame : r.words = r'.words := by rw [h.words_eq, h'.words_eq, hwords]
  have hroot : r.projectRoot = r'.projectRoot :=
    Option.map_injective text_injective (hvalue .projectRoot)
  have hconfig : r.configFileOr env = r'.configFileOr env := by
    have hfile : r.configFile = r'.configFile :=
      Option.map_injective text_injective (hvalue .configFile)
    rw [configFileOr, configFileOr, hfile]
  have hregistry : r.registryOr env = r'.registryOr env := by
    have hname : r.registry = r'.registry :=
      Option.map_injective (fun _ _ => Bytes.ofString_injective) (hvalue .registry)
    rw [registryOr, registryOr, hname]
  unfold finish
  rw [h.settled.resolve_eq, h'.settled.resolve_eq]
  simp only [bind, Except.bind, hroot, hconfig, hregistry, hsame, hflag]

theorem Says.configFile_eq (h : Says items r) {value : OptionValue}
    (hmem : .value .configFile value ∈ Item.settings items) :
    r.configFile = some ⟨value.bytes⟩ := by
  obtain ⟨path, hpath, hbytes⟩ :=
    Option.map_eq_some_iff.mp ((h.value_iff .configFile _).mpr ⟨value, rfl, hmem⟩)
  rw [hpath, ← hbytes]

theorem Says.registry_eq (h : Says items r) {value : OptionValue}
    (hmem : .value .registry value ∈ Item.settings items) :
    ∃ text, r.registry = some text ∧ Bytes.ofString text = value.bytes :=
  Option.map_eq_some_iff.mp ((h.value_iff .registry _).mpr ⟨value, rfl, hmem⟩)

theorem exists_configFileOr (r : Reading) {env : Environment} (henv : Sensible env) :
    ∃ path, r.configFileOr env = .ok path := by
  unfold configFileOr
  cases r.configFile with
  | some path => exact ⟨path, rfl⟩
  | none =>
    have hname : ValueOption.configFile.environmentName?.bind env.value? =
        env.value? "SHIPWRIGHT_CONFIG_FILE" := rfl
    rw [hname]
    cases hvalue : env.value? "SHIPWRIGHT_CONFIG_FILE" with
    | none => exact ⟨_, rfl⟩
    | some value =>
      have hne : value.isEmpty = false := by
        rw [List.isEmpty_eq_false_iff]
        rintro rfl
        exact henv.configFile_ne hvalue
      simp [pathValue, hne]

theorem exists_registryOr (r : Reading) {env : Environment} (henv : Sensible env) :
    ∃ registry, r.registryOr env = .ok registry := by
  unfold registryOr
  cases r.registry with
  | some text => exact ⟨some text, rfl⟩
  | none =>
    have hname : ValueOption.registry.environmentName?.bind env.value? =
        env.value? "SHIPWRIGHT_REGISTRY" := rfl
    rw [hname]
    cases hvalue : env.value? "SHIPWRIGHT_REGISTRY" with
    | none => exact ⟨none, rfl⟩
    | some value =>
      obtain ⟨text, rfl⟩ := henv.registry_isText value hvalue
      exact ⟨some text, by simp [textValue, Utf8.decode?_ofString, Except.map]⟩

theorem exists_finish (hr : r.IsSettled) {env : Environment} (henv : Sensible env) :
    ∃ given, r.finish env = .ok given := by
  obtain ⟨path, hpath⟩ := exists_configFileOr r henv
  obtain ⟨registry, hregistry⟩ := exists_registryOr r henv
  unfold finish
  rw [hr.resolve_eq]
  simp only [bind, Except.bind, hpath, hregistry]
  exact ⟨_, rfl⟩

/-- The arguments tell the words by their places and the options by their names. -/
theorem told_of_finish (h : Says items r) {env : Environment} {given : Arguments}
    (hfinish : r.finish env = .ok given) : Told items given := by
  have hflag : ∀ flag, r.given.contains (.flag flag) = true ↔
      .flag flag ∈ Item.settings items := by
    intro flag
    rw [List.contains_iff_mem, h.flag_iff]
  unfold finish at hfinish
  rw [h.settled.resolve_eq] at hfinish
  cases hconfig : r.configFileOr env with
  | error fault => simp [bind, Except.bind, hconfig] at hfinish
  | ok path =>
    cases hregistry : r.registryOr env with
    | error fault => simp [bind, Except.bind, hconfig, hregistry] at hfinish
    | ok registry =>
      simp only [bind, Except.bind, hconfig, hregistry] at hfinish
      cases hfinish
      exact {
        tag_eq := by
          show r.words[0]? = _
          rw [h.words_eq, List.getElem?_take_of_lt (by decide)]
        debugBuild_eq := by
          show r.words[1]? = _
          rw [h.words_eq, List.getElem?_take_of_lt (by decide)]
        projectRoot_iff := fun path => by
          have hpath : r.value? .projectRoot = some path.text ↔ r.projectRoot = some path :=
            (Option.map_injective text_injective).eq_iff (b := some path)
          exact hpath.symm.trans (h.value_iff .projectRoot path.text)
        configFile_eq := fun value hmem => by
          rw [configFileOr, h.configFile_eq hmem] at hconfig
          cases hconfig
          rfl
        registry_eq := fun value hmem => by
          obtain ⟨text, htext, hbytes⟩ := h.registry_eq hmem
          rw [registryOr, htext] at hregistry
          cases hregistry
          exact congrArg some hbytes
        noCache_iff := hflag .noCache
        pull_iff := hflag .pull
        dryRun_iff := hflag .dryRun }

end Arguments.Reading

namespace CommandLine

/-- Two ways to write the same: the first two words, the options apart from their order and
spelling, and the first option at which the reading ends, if there is one, are the same. -/
structure SameSaid (items items' : List Item) : Prop where
  words_eq : (Item.words items).take 2 = (Item.words items').take 2
  settings_perm : (Item.settings items).Perm (Item.settings items')
  stop_eq : (Item.settings items).findSome? Setting.stop? =
    (Item.settings items').findSome? Setting.stop?

/-- The first option that ends the reading decides, whatever comes after it. -/
theorem parse_of_stop {items : List Item} {stop : ArgumentStop}
    (hdistinct : ((Item.settings items).map Setting.option).Nodup)
    (hstop : (Item.settings items).findSome? Setting.stop? = some stop) (env : Environment) :
    Arguments.parse env (Item.line items) = .error stop := by
  rw [Arguments.Reading.parse_line,
    (Arguments.Reading.ends_foldlM_take hdistinct).stopped stop hstop]
  rfl

/-- Distinct options are read as they were meant, in any order and among any words. -/
theorem readAsMeant_parse {items : List Item}
    (hdistinct : ((Item.settings items).map Setting.option).Nodup) (env : Environment) :
    ReadAsMeant env items (Arguments.parse env (Item.line items)) := by
  have hends := Arguments.Reading.ends_foldlM_take hdistinct
  cases hfirst : (Item.settings items).findSome? Setting.stop? with
  | some stop =>
    rw [parse_of_stop hdistinct hfirst]
    constructor
    · intro other hother
      rw [hfirst] at hother
      cases hother
      rfl
    · intro given hgiven
      cases hgiven
    · intro hnone
      rw [hfirst] at hnone
      cases hnone
  | none =>
    obtain ⟨r, hread, hsays⟩ := hends.read hfirst
    have hparse : Arguments.parse env (Item.line items) =
        Arguments.Reading.orStop (r.finish env) := by
      rw [Arguments.Reading.parse_line, hread]
      rfl
    rw [hparse]
    constructor
    · intro other hother
      rw [hfirst] at hother
      cases hother
    · intro given hgiven
      exact Arguments.Reading.told_of_finish hsays (Arguments.Reading.eq_ok_of_orStop hgiven)
    · intro _ henv
      obtain ⟨given, hfinish⟩ := Arguments.Reading.exists_finish hsays.settled henv
      exact ⟨given, by rw [hfinish]; rfl⟩

/-- Two command lines that say the same are read as the same. -/
theorem parse_eq_of_sameSaid {items items' : List Item} (h : SameSaid items items')
    (hdistinct : ((Item.settings items).map Setting.option).Nodup) (env : Environment) :
    Arguments.parse env (Item.line items) = Arguments.parse env (Item.line items') := by
  have hdistinct' : ((Item.settings items').map Setting.option).Nodup :=
    (h.settings_perm.map Setting.option).nodup_iff.mp hdistinct
  cases hstop : (Item.settings items).findSome? Setting.stop? with
  | some stop =>
    rw [parse_of_stop hdistinct hstop, parse_of_stop hdistinct' (h.stop_eq.symm.trans hstop)]
  | none =>
    have hends := Arguments.Reading.ends_foldlM_take hdistinct
    have hends' := Arguments.Reading.ends_foldlM_take hdistinct'
    obtain ⟨r, hread, hsays⟩ := hends.read hstop
    obtain ⟨r', hread', hsays'⟩ := hends'.read (h.stop_eq.symm.trans hstop)
    have hfinish := Arguments.Reading.finish_eq_of_says hsays hsays' h.words_eq h.settings_perm env
    rw [Arguments.Reading.parse_line, Arguments.Reading.parse_line, hread, hread']
    exact congrArg Arguments.Reading.orStop hfinish

/-- Where at most one option ends the reading, it may stand anywhere. -/
theorem SameSaid.of_sole {items items' : List Item}
    (hwords : (Item.words items).take 2 = (Item.words items').take 2)
    (hsettings : (Item.settings items).Perm (Item.settings items'))
    (hsole : ∀ a ∈ Item.settings items, ∀ b ∈ Item.settings items,
      a.stop?.isSome → b.stop?.isSome → a = b) : SameSaid items items' := by
  refine ⟨hwords, hsettings, ?_⟩
  cases hfirst : (Item.settings items).findSome? Setting.stop? with
  | none =>
    rw [List.findSome?_eq_none_iff] at hfirst
    symm
    rw [List.findSome?_eq_none_iff]
    intro a ha
    exact hfirst a (hsettings.mem_iff.mpr ha)
  | some stop =>
    obtain ⟨a, ha, hstop⟩ := List.exists_of_findSome?_eq_some hfirst
    cases hother : (Item.settings items').findSome? Setting.stop? with
    | none =>
      rw [List.findSome?_eq_none_iff] at hother
      rw [hother a (hsettings.mem_iff.mp ha)] at hstop
      cases hstop
    | some stop' =>
      obtain ⟨b, hb, hstop'⟩ := List.exists_of_findSome?_eq_some hother
      obtain rfl := hsole a ha b (hsettings.mem_iff.mpr hb) (by simp [hstop]) (by simp [hstop'])
      exact hstop.symm.trans hstop'

variable {δ : Type}

/-- Words and options may be mixed. As long as no option is given twice, the program is told what
the words and the options mean, and it is told the same and does the same whenever the first two
words and the options are the same, and the first option at which the reading ends. -/
theorem run_arranged (world : World δ) (items items' : List Item)
    (hdistinct : ((Item.settings items).map Setting.option).Nodup)
    (hsame : SameSaid items items') :
    ReadAsMeant world.environment items
        (Arguments.parse world.environment (Item.line items)) ∧
      Arguments.parse world.environment (Item.line items) =
        Arguments.parse world.environment (Item.line items') ∧
      run world (Item.line items) = run world (Item.line items') := by
  have hparse := parse_eq_of_sameSaid hsame hdistinct world.environment
  refine ⟨readAsMeant_parse hdistinct world.environment, hparse, ?_⟩
  unfold run
  rw [hparse]

/-- The namespace of the services may stand first, with an equals sign, and a third word is of no
account. -/
theorem run_arranged_registry_ahead :
    let world := Sample.world Sample.project (Sample.daemon 200 "")
    let line := Sample.words ["--registry=ghcr.io/me", "1.0", "--dry-run", "true", "more"]
    let line' := Sample.words ["1.0", "true", "--dry-run", "--registry", "ghcr.io/me"]
    run world line = run world line' ∧
      ∃ given, Arguments.parse world.environment line = .ok given ∧ given.tag = some "1.0" ∧
        given.debugBuild = some "true" ∧ given.dryRun = true := by
  intro world line line'
  let tag : Item := .word ⟨"1.0", by decide +kernel⟩
  let debug : Item := .word ⟨"true", by decide +kernel⟩
  let more : Item := .word ⟨"more", by decide +kernel⟩
  let dryRun : Item := .option (.flag .dryRun) false
  let registry : Setting := .value .registry
    ⟨Bytes.ofString "ghcr.io/me", by decide +kernel, by decide +kernel⟩
  let items : List Item := [.option registry true, tag, dryRun, debug, more]
  let items' : List Item := [tag, debug, dryRun, .option registry false]
  have hline : line = Item.line items := by decide +kernel
  have hline' : line' = Item.line items' := by decide +kernel
  have hdistinct : ((Item.settings items).map Setting.option).Nodup := by decide +kernel
  have hsame : SameSaid items items' :=
    .of_sole (by decide +kernel) (by decide +kernel) (by decide +kernel)
  have henv : Sensible world.environment := by
    constructor
    · simp [Environment.value?, world, Sample.world]
    · simp [Environment.value?, world, Sample.world]
  obtain ⟨hmeant, -, hrun⟩ := run_arranged world items items' hdistinct hsame
  rw [hline, hline']
  obtain ⟨given, hparse⟩ := hmeant.read (by decide +kernel) henv
  have htold := hmeant.told given hparse
  refine ⟨hrun, given, hparse, htold.tag_eq, htold.debugBuild_eq, ?_⟩
  rw [htold.dryRun_iff]
  decide +kernel

theorem helpText_ne_versionText (env : Environment) : helpText env ≠ versionText := by
  obtain ⟨rest, hrest⟩ : ∃ rest, helpText env =
      "Revoltのサービスイメージを一括ビルドし、リリースタグでレジストリに公開\n" ++ rest := by
    unfold helpText
    simp only [String.append_assoc]
    exact ⟨_, rfl⟩
  intro h
  have hhead := congrArg (fun text : String => text.toList.head?) (hrest.symm.trans h)
  simp [versionText, Usage.programName] at hhead

/-- Of two requests the first is answered, so that their order does matter. -/
theorem not_arranged_of_two_requests :
    let world := { Sample.world Sample.project (Sample.daemon 200 "") with
      noticePalette := .colored }
    let help : Item := .option (.request .help) false
    let version : Item := .option (.request .version) false
    ((Item.settings [help, version]).map Setting.option).Nodup ∧
      (Item.settings [help, version]).Perm (Item.settings [version, help]) ∧
      Item.words [help, version] = Item.words [version, help] ∧
      run world (Item.line [help, version]) ≠ run world (Item.line [version, help]) := by
  intro world help version
  have hdistinct : ((Item.settings [help, version]).map Setting.option).Nodup := by decide
  have hsettings : (Item.settings [help, version]).Perm (Item.settings [version, help]) := by decide
  have hdistinct' : ((Item.settings [version, help]).map Setting.option).Nodup :=
    (hsettings.map Setting.option).nodup_iff.mp hdistinct
  refine ⟨hdistinct, hsettings, rfl, ?_⟩
  have hhelp : Arguments.parse world.environment (Item.line [help, version]) =
      .error (.asked .help) := parse_of_stop hdistinct rfl _
  have hversion : Arguments.parse world.environment (Item.line [version, help]) =
      .error (.asked .version) := parse_of_stop hdistinct' rfl _
  unfold run
  rw [hhelp, hversion]
  intro hrun
  simp only [finished, notice, world, Outcome.mk.injEq] at hrun
  exact helpText_ne_versionText _ hrun.2.1

end CommandLine

end ReleasePublisher
