import ReleasePublisher.Daemon.Client
import ReleasePublisher.Proofs.Daemon.Values
import ReleasePublisher.Proofs.FileSystem.Places

/-!
What becomes of a build by the answer to its request. A build succeeds exactly if every item of the
answer lets it go on. The messages before the first item that does not are shown one after the
other, and nothing behind that item has any influence.
-/
namespace ReleasePublisher

namespace StreamItem

def Passes : StreamItem → Prop
  | .message m => m.error = none ∧ m.errorDetail = none
  | .fault _ => False

/-- What an item that passes prints: the stream of a message as it is, and then its status on a line
of its own. -/
def text (palette : Palette) : StreamItem → String
  | .message m => m.stream.getD "" ++
      match m.status with
      | some status => palette.paint .cyan status ++ "\n"
      | none => ""
  | .fault _ => ""

inductive Fails : StreamItem → BuildError → String → Prop
  | fault (fault : DaemonFault) : Fails (.fault fault) (.daemon fault) ""
  | error {m : DaemonMessage} {text : String} (error : m.error = some text) :
      Fails (.message m) (.daemon (.stream text)) ""
  | detail {m : DaemonMessage} {detail : Option String} (error : m.error = none)
      (errorDetail : m.errorDetail = some detail) :
      Fails (.message m) (.buildFailed (detail.getD "Unknown build error")) (m.stream.getD "")

theorem passes_or_fails (item : StreamItem) :
    item.Passes ∨ ∃ error remark, item.Fails error remark := by
  cases item with
  | fault fault => exact Or.inr ⟨_, _, .fault fault⟩
  | message m =>
    cases herror : m.error with
    | some text => exact Or.inr ⟨_, _, .error herror⟩
    | none =>
      cases hdetail : m.errorDetail with
      | some detail => exact Or.inr ⟨_, _, .detail herror hdetail⟩
      | none => exact Or.inl ⟨herror, hdetail⟩

theorem Fails.not_passes {item : StreamItem} {error : BuildError} {remark : String}
    (h : item.Fails error remark) : ¬ item.Passes := by
  cases h with
  | fault => exact id
  | error herror =>
    rintro ⟨hnone, -⟩
    simp [herror] at hnone
  | detail herror hdetail =>
    rintro ⟨-, hnone⟩
    simp [hdetail] at hnone

end StreamItem

theorem ActionEnding.ofError_eq_succeeded_iff {error : Option BuildError} :
    ofError error = .succeeded ↔ error = none := by
  cases error <;> simp [ofError]

namespace BuildStream

variable (palette : Palette)

theorem output_streamText (m : DaemonMessage) : m.streamText.output = m.stream.getD "" := by
  rw [DaemonMessage.streamText]
  cases m.stream <;> rfl

/-- An item that passes is printed, and the rest decides. -/
theorem consume_of_passes {item : StreamItem} (h : item.Passes) (rest : List StreamItem) :
    (consume palette (item.checked :: rest)).1 = (consume palette rest).1 ∧
      (consume palette (item.checked :: rest)).2.output =
        item.text palette ++ (consume palette rest).2.output := by
  cases item with
  | fault fault => exact h.elim
  | message m =>
    obtain ⟨herror, hdetail⟩ := h
    have hfailure : m.buildFailure? = none := by
      rw [DaemonMessage.buildFailure?, herror, hdetail]
    have hchecked : (StreamItem.message m).checked = .message m := by
      simp only [StreamItem.checked, StreamItem.ofMessage, herror]
    rw [hchecked, consume, hfailure]
    refine ⟨rfl, ?_⟩
    simp only [Transcript.output_append, output_streamText, StreamItem.text, String.append_assoc]
    rw [DaemonMessage.statusText]
    cases m.status <;> rfl

/-- An item that fails ends the build, and nothing behind it is printed. -/
theorem consume_of_fails {item : StreamItem} {error : BuildError} {remark : String}
    (h : item.Fails error remark) (rest : List StreamItem) :
    (consume palette (item.checked :: rest)).1 = some error ∧
      (consume palette (item.checked :: rest)).2.output = remark := by
  cases h with
  | fault fault => exact ⟨rfl, rfl⟩
  | @error m text herror =>
    have hchecked : (StreamItem.message m).checked = .fault (.stream text) := by
      simp only [StreamItem.checked, StreamItem.ofMessage, herror]
    rw [hchecked]
    exact ⟨rfl, rfl⟩
  | @detail m detail herror hdetail =>
    have hchecked : (StreamItem.message m).checked = .message m := by
      simp only [StreamItem.checked, StreamItem.ofMessage, herror]
    have hfailure : m.buildFailure? = some (detail.getD "Unknown build error") := by
      rw [DaemonMessage.buildFailure?, herror, hdetail]
    rw [hchecked, consume, hfailure]
    exact ⟨rfl, output_streamText m⟩

/-- A build succeeds if every item passes. -/
theorem consume_eq_none_iff (items : List StreamItem) :
    (consume palette (items.map .checked)).1 = none ↔ ∀ item ∈ items, item.Passes := by
  induction items with
  | nil => simp [consume]
  | cons item rest ih =>
    rw [List.map_cons, List.forall_mem_cons]
    rcases item.passes_or_fails with hpasses | ⟨error, remark, hfails⟩
    · rw [(consume_of_passes palette hpasses _).1, ih]
      simp only [hpasses, true_and]
    · rw [(consume_of_fails palette hfails _).1]
      simp [hfails.not_passes]

end BuildStream

namespace DaemonClient

variable {δ : Type} (client : DaemonClient δ) (step : BuildStep) (fs : FileSystem)
  (s : DaemonState δ)

end DaemonClient

namespace BuildStream.Sample

def workshop : FileSystem where
  root := .directory ⟨0o755, .epoch⟩
    [(Bytes.ofString "Dockerfile", .file 0 ⟨0o644, .epoch⟩ (Bytes.ofString "FROM scratch\n"))]
  workingDirectory := { location := [] }
  clock := .epoch
  nextSerial := 1

def step : BuildStep := ⟨"app", ⟨"app", "v1"⟩, "Dockerfile", .definitionOnly, false, false⟩

def source : BuildSource := ⟨.ofString "/Dockerfile", none⟩

def context : BuildContext where
  dockerfile := "Dockerfile"
  entries := [⟨Bytes.ofString "Dockerfile", 0o644, .file (Bytes.ofString "FROM scratch\n")⟩]

/-- A message that passes, an error without a text, and an error that comes too late. -/
def messages : List DaemonMessage :=
  [{ stream := some "Step 1\n", status := some "Pulling" },
    { stream := some "failing", status := some "Failed", errorDetail := some none },
    { stream := some "Step 2\n", error := some "denied" }]

def answer : Bytes := Bytes.ofString
  ("\x7b\"status\": \"Pulling\", \"stream\": \"Step 1\\n\"\x7d\n" ++
    "\x7b\"errorDetail\": \x7b\x7d, \"stream\": \"failing\", \"status\": \"Failed\"\x7d\n" ++
    "\x7b\"stream\": \"Step 2\\n\", \"error\": \"denied\"\x7d\n")

def client : DaemonClient Unit where
  transport := fun _ s => (.reply 200 answer, s)
  helpers := fun _ => none
  configPath := .ofString "/config.json"
  root := .ofString "/"
  palette := .plain

end BuildStream.Sample

end ReleasePublisher
