import Mathlib.Data.List.Forall2
import ReleasePublisher.Proofs.Publication.Course

/-!
A run as its engine sees it: the calls that come, each with the state that the engine is in and the
files that it finds. All that an engine does to a run it does by answering them, so that runs go
alike as long as their engines answer alike.
-/
namespace ReleasePublisher

structure Occasion (σ : Type) where
  call : EngineCall
  state : σ
  disk : FileSystem

namespace Occasion

variable {σ : Type}

def reply (engine : Engine σ) (occasion : Occasion σ) : CallReply σ :=
  engine occasion.call occasion.state occasion.disk

def exchange (engine : Engine σ) (occasion : Occasion σ) : Exchange :=
  Publication.exchangeOf engine occasion.call occasion.state occasion.disk

structure Alike (related : FileSystem → FileSystem → Prop) (first second : Occasion σ) : Prop where
  call_eq : second.call = first.call
  state_eq : second.state = first.state
  disk : related first.disk second.disk

end Occasion

structure CallReply.Alike {σ : Type} (related : FileSystem → FileSystem → Prop)
    (first second : CallReply σ) : Prop where
  ending_eq : second.ending = first.ending
  state_eq : second.state = first.state
  shown_eq : second.shown = first.shown
  disk : related first.disk second.disk

namespace Publication

variable {σ α : Type}

def occasions (engine : Engine σ) : σ → List Exchange → List (Occasion σ)
  | _, [] => []
  | state, e :: rest =>
    ⟨e.call, state, e.before⟩ :: occasions engine (engine e.call state e.before).state rest

theorem length_occasions (engine : Engine σ) (start : σ) (calls : List Exchange) :
    (occasions engine start calls).length = calls.length := by
  induction calls generalizing start with
  | nil => rfl
  | cons e calls ih => simp [occasions, ih]

def Answered (engine : Engine σ) : σ → List Exchange → σ → Prop
  | start, [], stop => stop = start
  | start, e :: rest, stop =>
    e = exchangeOf engine e.call start e.before ∧
      Answered engine (engine e.call start e.before).state rest stop

theorem occasions_congr {engine engine' : Engine σ} {start : σ} {calls : List Exchange}
    (h : ∀ o ∈ occasions engine start calls, o.reply engine' = o.reply engine) :
    occasions engine' start calls = occasions engine start calls := by
  induction calls generalizing start with
  | nil => rfl
  | cons e calls ih =>
    simp only [occasions, List.forall_mem_cons, Occasion.reply] at h ⊢
    rw [h.1, ih h.2]

namespace Answered

variable {engine : Engine σ} {start middle stop : σ} {first rest : List Exchange}

theorem append (h : Answered engine start first middle) (h' : Answered engine middle rest stop) :
    Answered engine start (first ++ rest) stop := by
  induction first generalizing start with
  | nil =>
    cases h
    exact h'
  | cons e first ih => exact ⟨h.1, ih h.2⟩

theorem exists_middle (h : Answered engine start (first ++ rest) stop) :
    ∃ middle, Answered engine start first middle ∧ Answered engine middle rest stop := by
  induction first generalizing start with
  | nil => exact ⟨start, rfl, h⟩
  | cons e first ih =>
    obtain ⟨middle, hfirst, hrest⟩ := ih h.2
    exact ⟨middle, ⟨h.1, hfirst⟩, hrest⟩

theorem occasions_append (h : Answered engine start first middle) (rest : List Exchange) :
    occasions engine start (first ++ rest) =
      occasions engine start first ++ occasions engine middle rest := by
  induction first generalizing start with
  | nil =>
    cases h
    rfl
  | cons e first ih => exact congrArg _ (ih h.2)

theorem exchange_mem (h : Answered engine start first stop) {o : Occasion σ}
    (ho : o ∈ occasions engine start first) : o.exchange engine ∈ first := by
  induction first generalizing start with
  | nil => simp [occasions] at ho
  | cons e first ih =>
    rcases List.mem_cons.mp ho with rfl | ho
    · exact List.mem_cons.mpr (Or.inl h.1.symm)
    · exact List.mem_cons_of_mem _ (ih h.2 ho)

theorem exists_occasion (h : Answered engine start first stop) {e : Exchange} (he : e ∈ first) :
    ∃ o ∈ occasions engine start first, e = o.exchange engine := by
  induction first generalizing start with
  | nil => simp at he
  | cons e' first ih =>
    rcases List.mem_cons.mp he with rfl | he
    · exact ⟨_, List.mem_cons_self, h.1⟩
    · obtain ⟨o, ho, heq⟩ := ih h.2 he
      exact ⟨o, List.mem_cons_of_mem _ ho, heq⟩

end Answered

/-- How the steps of a phase are done. -/
structure Manner (α : Type) where
  call : α → EngineCall
  image : α → ImageRef
  failure : List ImageRef → α → String → PublishError
  /-- What is shown before the call of a step, when some images have been made. -/
  announcement : List ImageRef → α → Transcript
  /-- What is shown when the call has succeeded. -/
  confirmation : α → Transcript

structure Doing (σ : Type) where
  exchanges : List Exchange
  result : Except Stop (List ImageRef)
  state : σ
  disk : FileSystem
  shown : Transcript

namespace Doing

structure Alike (related : FileSystem → FileSystem → Prop) (first second : Doing σ) : Prop where
  exchanges : List.Forall₂ (Exchange.Alike related) first.exchanges second.exchanges
  result_eq : second.result = first.result
  state_eq : second.state = first.state
  shown_eq : second.shown = first.shown
  disk : related first.disk second.disk

theorem Alike.eq {first second : Doing σ} (h : Alike Eq first second) : second = first := by
  obtain ⟨hexchanges, hresult, hstate, hshown, hdisk⟩ := h
  have heq : first.exchanges = second.exchanges := by
    rw [← List.forall₂_eq_eq_eq]
    refine hexchanges.imp fun e e' he => ?_
    obtain ⟨hcall, hending, hbefore, hafter⟩ := he
    cases e
    cases e'
    simp_all
  cases first
  cases second
  simp_all

def outcome (doing : Doing σ) (site : Site) : Outcome σ :=
  ⟨doing.result, doing.state,
    { disk := doing.disk
      shown := site.shown ++ doing.shown
      history := site.history ++ doing.exchanges.map .called }⟩

end Doing

namespace Manner

def perform (manner : Manner α) (engine : Engine σ) (done : List ImageRef) :
    List α → σ → FileSystem → Doing σ
  | [], state, disk => ⟨[], .ok done, state, disk, .empty⟩
  | step :: rest, state, disk =>
    let exchange := exchangeOf engine (manner.call step) state disk
    let reply := engine (manner.call step) state disk
    let shown := manner.announcement done step ++ reply.shown
    match stopOf (manner.failure done step) reply.ending with
    | some stop => ⟨[exchange], .error stop, reply.state, reply.disk, shown⟩
    | none =>
      let later := perform manner engine (done ++ [manner.image step]) rest reply.state reply.disk
      { later with
        exchanges := exchange :: later.exchanges
        shown := shown ++ manner.confirmation step ++ later.shown }

variable (manner : Manner α) (engine : Engine σ)

theorem perform_of_stop {done : List ImageRef} {step : α} {rest : List α} {state : σ}
    {disk : FileSystem} {stop : Stop}
    (h : stopOf (manner.failure done step) (engine (manner.call step) state disk).ending =
      some stop) :
    manner.perform engine done (step :: rest) state disk =
      ⟨[exchangeOf engine (manner.call step) state disk], .error stop,
        (engine (manner.call step) state disk).state, (engine (manner.call step) state disk).disk,
        manner.announcement done step ++ (engine (manner.call step) state disk).shown⟩ := by
  simp only [perform, h]

def later (done : List ImageRef) (step : α) (rest : List α) (state : σ) (disk : FileSystem) :
    Doing σ :=
  manner.perform engine (done ++ [manner.image step]) rest
    (engine (manner.call step) state disk).state (engine (manner.call step) state disk).disk

theorem perform_of_success {done : List ImageRef} {step : α} {rest : List α} {state : σ}
    {disk : FileSystem}
    (h : stopOf (manner.failure done step) (engine (manner.call step) state disk).ending = none) :
    manner.perform engine done (step :: rest) state disk =
      { manner.later engine done step rest state disk with
        exchanges := exchangeOf engine (manner.call step) state disk ::
          (manner.later engine done step rest state disk).exchanges
        shown := manner.announcement done step ++ (engine (manner.call step) state disk).shown ++
          manner.confirmation step ++ (manner.later engine done step rest state disk).shown } := by
  simp only [perform, h, later]

/-- The calls of a phase are answered by the engine of it. -/
theorem answered_perform (done : List ImageRef) (steps : List α) (state : σ) (disk : FileSystem) :
    Answered engine state (manner.perform engine done steps state disk).exchanges
      (manner.perform engine done steps state disk).state := by
  induction steps generalizing done state disk with
  | nil => rfl
  | cons step rest ih =>
    cases hstop : stopOf (manner.failure done step) (engine (manner.call step) state disk).ending with
    | some stop =>
      rw [manner.perform_of_stop engine hstop]
      exact ⟨rfl, rfl⟩
    | none =>
      rw [manner.perform_of_success engine hstop]
      exact ⟨rfl, ih _ _ _⟩

/-- Two engines that give like answers on like occasions do a phase alike. -/
theorem perform_alike {related : FileSystem → FileSystem → Prop} (engine' : Engine σ)
    (done : List ImageRef) (steps : List α) (state : σ) {disk disk' : FileSystem}
    (hdisk : related disk disk')
    (h : ∀ o o', (o, o') ∈
        (occasions engine state (manner.perform engine done steps state disk).exchanges).zip
          (occasions engine' state (manner.perform engine' done steps state disk').exchanges) →
      o.Alike related o' → (o.reply engine).Alike related (o'.reply engine')) :
    Doing.Alike related (manner.perform engine done steps state disk)
      (manner.perform engine' done steps state disk') := by
  induction steps generalizing done state disk disk' with
  | nil => exact ⟨.nil, rfl, rfl, rfl, hdisk⟩
  | cons step rest ih =>
    -- whatever follows, the first occasions are those of this step
    have hreply : (engine (manner.call step) state disk).Alike related
        (engine' (manner.call step) state disk') := by
      refine h ⟨manner.call step, state, disk⟩ ⟨manner.call step, state, disk'⟩ ?_
        ⟨rfl, rfl, hdisk⟩
      simp only [perform]
      split <;> split <;> exact List.mem_cons_self
    obtain ⟨hending, hstate, hshown, hafter⟩ := hreply
    have hexchange : (exchangeOf engine (manner.call step) state disk).Alike related
        (exchangeOf engine' (manner.call step) state disk') := ⟨rfl, hending, hdisk, hafter⟩
    cases hstop : stopOf (manner.failure done step) (engine (manner.call step) state disk).ending with
    | some stop =>
      rw [manner.perform_of_stop engine hstop, manner.perform_of_stop engine' (hending ▸ hstop)]
      exact ⟨.cons hexchange .nil, rfl, hstate, by rw [hshown], hafter⟩
    | none =>
      have hstop' := hending ▸ hstop
      rw [manner.perform_of_success engine hstop, manner.perform_of_success engine' hstop'] at h ⊢
      have hlater : Doing.Alike related (manner.later engine done step rest state disk)
          (manner.later engine' done step rest state disk') := by
        rw [later, later, hstate]
        refine ih _ _ hafter fun o o' ho => h o o' ?_
        simp only [occasions, exchangeOf, later, hstate, List.zip_cons_cons]
        exact List.mem_cons_of_mem _ ho
      obtain ⟨hexchanges, hresult, hstate', hshown', hdisk'⟩ := hlater
      exact ⟨.cons hexchange hexchanges, hresult, hstate', by rw [hshown, hshown'], hdisk'⟩

/-- A phase depends on its engine only through the answers to its calls. -/
theorem perform_congr {engine' : Engine σ} {done : List ImageRef} {steps : List α} {state : σ}
    {disk : FileSystem}
    (h : ∀ o ∈ occasions engine state (manner.perform engine done steps state disk).exchanges,
      o.reply engine' = o.reply engine) :
    manner.perform engine' done steps state disk = manner.perform engine done steps state disk := by
  have hsame : Doing.Alike Eq (manner.perform engine done steps state disk)
      (manner.perform engine' done steps state disk) := by
    refine manner.perform_alike engine engine' done steps state rfl ?_
    rintro o o' ho ⟨hcall, hstate, hdisk⟩
    have hreply := h o (List.of_mem_zip ho).1
    have heq : o' = o := by
      cases o
      cases o'
      simp_all
    rw [heq, hreply]
    exact ⟨rfl, rfl, rfl, rfl⟩
  exact hsame.eq

end Manner

variable (palette : Palette) (engine : Engine σ)

def headlineShown (palette : Palette) (text : String) : Transcript :=
  .line "" ++ .line (palette.paint { bold := true, hue := some .green } text)

def buildManner (palette : Palette) : Manner BuildStep where
  call := .build
  image := BuildStep.image
  failure _ := buildFailure
  announcement _ step :=
    headlineShown palette ("🔨 " ++ step.name ++ " をビルド中...") ++
      .line ("  → Image: " ++ palette.paint .cyan step.image.text)
  confirmation step := .line ("  " ++ palette.paint .green "✓" ++ " " ++ step.image.text)

def pushManner (palette : Palette) : Manner PushStep where
  call step := .push step.image
  image := PushStep.image
  failure pushed step := pushFailure step.image pushed
  announcement pushed _ :=
    if pushed.isEmpty then headlineShown palette "📤 レジストリにプッシュ中..." else .empty
  confirmation _ := .empty

theorem runBuilds_eq (built : List ImageRef) (steps : List BuildStep) (state : σ) (site : Site) :
    runBuilds palette engine built steps state site =
      ((buildManner palette).perform engine built steps state site.disk).outcome site := by
  induction steps generalizing built state site with
  | nil => simp [runBuilds, Manner.perform, Doing.outcome]
  | cons step rest ih =>
    have hannounced : announceBuild palette step site =
        { site with shown := site.shown ++ (buildManner palette).announcement built step } := by
      simp [announceBuild, headline, headlineShown, Site.printLine, buildManner,
        Transcript.append_assoc]
    cases hstop : stopOf (buildFailure step) (engine (.build step) state site.disk).ending with
    | some stop =>
      rw [(buildManner palette).perform_of_stop engine hstop]
      simp only [runBuilds, Site.call, hannounced, hstop, Doing.outcome]
      simp [exchangeOf, buildManner, Transcript.append_assoc]
    | none =>
      rw [(buildManner palette).perform_of_success engine hstop]
      simp only [runBuilds, Site.call, hannounced, hstop, ih, Doing.outcome, Manner.later]
      simp [exchangeOf, buildManner, Site.printLine, Transcript.append_assoc]

theorem runPushes_eq (pushed : List ImageRef) (steps : List PushStep) (state : σ) (site : Site) :
    runPushes palette engine pushed steps state site =
      ((pushManner palette).perform engine pushed steps state site.disk).outcome site := by
  induction steps generalizing pushed state site with
  | nil => simp [runPushes, Manner.perform, Doing.outcome]
  | cons step rest ih =>
    have hannounced : (if pushed.isEmpty then announcePushes palette site else site) =
        { site with shown := site.shown ++ (pushManner palette).announcement pushed step } := by
      simp only [pushManner]
      split <;>
        simp [announcePushes, headline, headlineShown, Site.printLine, Transcript.append_assoc]
    cases hstop : stopOf (pushFailure step.image pushed)
        (engine (.push step.image) state site.disk).ending with
    | some stop =>
      rw [(pushManner palette).perform_of_stop engine hstop]
      simp only [runPushes, Site.call, hannounced, hstop, Doing.outcome]
      simp [exchangeOf, pushManner, Transcript.append_assoc]
    | none =>
      rw [(pushManner palette).perform_of_success engine hstop]
      simp only [runPushes, Site.call, hannounced, hstop, ih, Doing.outcome, Manner.later]
      simp [exchangeOf, pushManner, Transcript.append_assoc]

end Publication

end ReleasePublisher
