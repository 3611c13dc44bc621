import ReleasePublisher.Proofs.Daemon.BuildOutcome
import ReleasePublisher.Proofs.Daemon.PushMessages

/-!
What a push asks of the daemon, and what becomes of it. The image is inspected, and only if the
daemon knows it and its credentials can be looked up is it pushed, with these credentials. The push
succeeds if the whole answer is there and consists of messages without an error; an error anywhere
in it makes the push fail.
-/
namespace ReleasePublisher

namespace DaemonAnswer

def Accepts (status : Nat) : Prop :=
  200 ≤ status ∧ status < 300 ∨ status = 101 ∨ status = 304

/-- A status means success from 200 to 299, and so do 101 and 304. -/
theorem isSuccess_iff {status : Nat} : isSuccess status = true ↔ Accepts status := by
  simp only [isSuccess, Accepts, Bool.or_eq_true, Bool.and_eq_true, beq_iff_eq, decide_eq_true_eq]
  omega

/-- An answer that describes something: a success with an object in it. -/
def Describes (status : Nat) (body : Bytes) : Prop :=
  Accepts status ∧ ∃ members, Json.parse? (content status body) = some (.object members)

structure Faultless (status : Nat) (body : Bytes) : Prop where
  accepts : Accepts status
  complete : StreamBody.fault? (content status body) = none
  messages : ∀ value ∈ values status body, Json.Record DaemonMessage.pushFields value
  errorless : ∀ value ∈ values status body, ∀ text, ¬ DaemonMessage.Reports text value

/-- An inspection has no fault if it describes the image. -/
theorem describing?_eq_none_iff {status : Nat} {body : Bytes} :
    describing? status body = none ↔ Describes status body := by
  rw [describing?, refusal?, Describes, ← isSuccess_iff]
  by_cases hsuccess : isSuccess status = true
  · simp only [hsuccess, if_true, true_and]
    split
    · next members hparse => exact iff_of_true rfl ⟨members, hparse⟩
    · next hother =>
      refine iff_of_false (by simp) ?_
      rintro ⟨members, hparse⟩
      exact hother members hparse
  · simp [hsuccess]

theorem exists_reply_iff {status : Nat} {body : Bytes} {P : Nat → Bytes → Prop} :
    (∃ status' body', reply status body = .reply status' body' ∧ P status' body') ↔
      P status body := by
  constructor
  · rintro ⟨status', body', hreply, h⟩
    obtain ⟨rfl, rfl⟩ := reply.inj hreply
    exact h
  · intro h
    exact ⟨status, body, rfl, h⟩

end DaemonAnswer

namespace StreamItem

def IsClean : StreamItem → Prop
  | .message m => m.error = none
  | .fault _ => False

end StreamItem

namespace DaemonAnswer

/-- A message without an error is one that is not reported. -/
theorem exists_clean_iff {value : Json} :
    (∃ m, DaemonMessage.ofPush? value = some m ∧ (StreamItem.message m).IsClean) ↔
      Json.Record DaemonMessage.pushFields value ∧
        ∀ text, ¬ DaemonMessage.Reports text value := by
  rw [← DaemonMessage.exists_ofPush?_iff]
  constructor
  · rintro ⟨m, hm, hclean⟩
    exact ⟨⟨m, hm⟩, (DaemonMessage.error_eq_none_iff hm).mp hclean⟩
  · rintro ⟨⟨m, hm⟩, herrorless⟩
    exact ⟨m, hm, (DaemonMessage.error_eq_none_iff hm).mpr herrorless⟩

/-- No item reports an error if the answer is accepted, complete and made of messages without
one. -/
theorem forall_sent_isClean_iff {status : Nat} {body : Bytes} :
    (∀ item ∈ sent .push status body, item.IsClean) ↔ Faultless status body := by
  have hvalues : ∀ value, (∃ m, StreamKind.push.message? value = some m ∧
      (StreamItem.message m).IsClean) ↔ _ := fun _ => exists_clean_iff
  rw [forall_sent_iff .push (fun _ => id), isSuccess_iff]
  simp only [hvalues]
  constructor
  · rintro ⟨haccepts, hcomplete, hall⟩
    exact ⟨haccepts, hcomplete, fun value hvalue => (hall value hvalue).1,
      fun value hvalue => (hall value hvalue).2⟩
  · rintro ⟨haccepts, hcomplete, hmessages, herrorless⟩
    exact ⟨haccepts, hcomplete,
      fun value hvalue => ⟨hmessages value hvalue, herrorless value hvalue⟩⟩

/-- Nothing but a complete answer can be without an error. -/
theorem exists_sent?_isClean_iff {answer : DaemonAnswer} :
    (∃ items, answer.sent? .push = some items ∧ ∀ item ∈ items, item.IsClean) ↔
      ∃ status body, answer = .reply status body ∧ Faultless status body := by
  cases answer with
  | reply status body =>
    rw [exists_reply_iff, ← forall_sent_isClean_iff]
    simp [sent?]
  | broken part reason =>
    obtain ⟨fault, hfault⟩ := exists_fault_of_brokenSent .push part (.broken reason)
    refine iff_of_false ?_ (by simp)
    rintro ⟨items, hitems, hclean⟩
    obtain rfl := Option.some.inj hitems
    exact hclean _ hfault
  | silence => simp [sent?]

end DaemonAnswer

namespace PushStream

/-- Neither what comes before an error nor what comes after it makes up for it. -/
theorem consume_eq_none_iff (last : Option String) (items : List StreamItem) :
    consume last (items.map .checked) = none ↔ last = none ∧ ∀ item ∈ items, item.IsClean := by
  induction items generalizing last with
  | nil => simp [consume]
  | cons item rest ih =>
    rw [List.map_cons, List.forall_mem_cons]
    cases item with
    | fault fault => simp [StreamItem.checked, consume, StreamItem.IsClean]
    | message m =>
      cases herror : m.error with
      | some text =>
        simp [StreamItem.checked, StreamItem.ofMessage, herror, consume, StreamItem.IsClean]
      | none => simp [StreamItem.checked, StreamItem.ofMessage, herror, consume, ih,
          StreamItem.IsClean]

/-- The first error that comes after messages without one is what the push fails with. -/
theorem consume_append_of_error {before : List StreamItem} {m : DaemonMessage} {text : String}
    (herror : m.error = some text) (hbefore : ∀ item ∈ before, item.IsClean)
    (after : List StreamItem) :
    consume none ((before ++ .message m :: after).map .checked) =
      some (.pushFailed (DaemonFault.stream text).message) := by
  induction before with
  | nil => simp [StreamItem.checked, StreamItem.ofMessage, herror, consume]
  | cons item before ih =>
    obtain ⟨hitem, hrest⟩ := List.forall_mem_cons.mp hbefore
    cases item with
    | fault fault => exact hitem.elim
    | message first =>
      have hfirst : first.error = none := hitem
      simpa [StreamItem.checked, StreamItem.ofMessage, hfirst, consume] using ih hrest

/-- A push never fails with anything but its own error. -/
theorem exists_text_of_consume {last : Option String} {items : List StreamItem}
    {error : BuildError} (h : consume last items = some error) : ∃ text, error = .pushFailed text := by
  induction items generalizing last with
  | nil =>
    obtain ⟨text, -, rfl⟩ := Option.map_eq_some_iff.mp h
    exact ⟨text, rfl⟩
  | cons item rest ih =>
    cases item with
    | fault fault => exact ⟨fault.message, (Option.some.inj h).symm⟩
    | message m => exact ih h

end PushStream

namespace DaemonClient

variable {δ : Type} (client : DaemonClient δ) (image : ImageRef) (fs : FileSystem)
  (s : DaemonState δ)

def inspection : DaemonAnswer := (client.transport (.inspect image.text) s.daemon).1

def Knows : Prop :=
  ∃ status body, client.inspection image s = .reply status body ∧
    DaemonAnswer.Describes status body

def lookedUp : Except CredentialError (Option Credentials) :=
  (Credentials.find fs client.configPath client.helpers image.text).result

def pushAnswer (credentials : Option Credentials) : DaemonAnswer :=
  (client.transport (.push image.repository image.tag credentials)
    (client.transport (.inspect image.text) s.daemon).2).1

def PushAnswered (status : Nat) (body : Bytes) : Prop :=
  ∃ credentials, (client.push image fs s).state.requests =
      s.requests ++ [.inspect image.text, .push image.repository image.tag credentials] ∧
    client.pushAnswer image s credentials = .reply status body

def pushEnding (answer : DaemonAnswer) : ActionEnding :=
  match answer.stream? .push with
  | none => .interrupted
  | some items => .ofError (PushStream.consume none items)

theorem pushEnding_of_sent? {answer : DaemonAnswer} {items : List StreamItem}
    (h : answer.sent? .push = some items) :
    pushEnding answer = .ofError (PushStream.consume none (items.map .checked)) := by
  rw [pushEnding, DaemonAnswer.stream?_eq, h, Option.map_some]

/-- A push succeeds if its answer comes to an end and no item reports an error. -/
theorem pushEnding_eq_succeeded_iff {answer : DaemonAnswer} :
    pushEnding answer = .succeeded ↔
      ∃ items, answer.sent? .push = some items ∧ ∀ item ∈ items, item.IsClean := by
  cases hsent : answer.sent? .push with
  | none => simp [pushEnding, DaemonAnswer.stream?_eq, hsent]
  | some items =>
    rw [pushEnding_of_sent? hsent, ActionEnding.ofError_eq_succeeded_iff,
      PushStream.consume_eq_none_iff]
    simp

/-- A push that is answered and does not succeed has an error of its own. -/
theorem exists_text_of_pushEnding {answer : DaemonAnswer} (hanswer : answer ≠ .silence)
    (h : pushEnding answer ≠ .succeeded) :
    ∃ text, pushEnding answer = .failed (.pushFailed text) := by
  obtain ⟨items, hitems⟩ : ∃ items, answer.stream? .push = some items := by
    cases answer with
    | silence => exact absurd rfl hanswer
    | _ => exact ⟨_, rfl⟩
  rw [pushEnding, hitems] at h ⊢
  cases hconsume : PushStream.consume none items with
  | none => simp [hconsume, ActionEnding.ofError] at h
  | some error =>
    obtain ⟨text, rfl⟩ := PushStream.exists_text_of_consume hconsume
    refine ⟨text, ?_⟩
    simp only [hconsume]
    rfl

/-- Values that are messages without an error are sent as such. -/
theorem exists_itemsOf_append {before : List Json} {value : Json} {m : DaemonMessage}
    (hbefore : ∀ value ∈ before, Json.Record DaemonMessage.pushFields value ∧
      ∀ text, ¬ DaemonMessage.Reports text value)
    (hm : DaemonMessage.ofPush? value = some m) (after : List Json) (ending : List StreamItem) :
    ∃ first rest, (∀ item ∈ first, item.IsClean) ∧
      StreamKind.push.itemsOf ending (before ++ value :: after) = first ++ .message m :: rest := by
  induction before with
  | nil =>
    refine ⟨[], StreamKind.push.itemsOf ending after, by simp, ?_⟩
    rw [List.nil_append, StreamKind.itemsOf]
    simp only [StreamKind.message?, hm, List.nil_append]
  | cons earlier before ih =>
    obtain ⟨hearlier, hbefore⟩ := List.forall_mem_cons.mp hbefore
    obtain ⟨m', hm', hclean⟩ := DaemonAnswer.exists_clean_iff.mpr hearlier
    obtain ⟨first, rest, hfirst, hitems⟩ := ih hbefore
    refine ⟨.message m' :: first, rest, List.forall_mem_cons.mpr ⟨hclean, hfirst⟩, ?_⟩
    rw [List.cons_append, StreamKind.itemsOf]
    simp only [StreamKind.message?, hm', hitems, List.cons_append]

/-- A push fails with the first error that a value reports, whatever stands behind it. -/
theorem pushEnding_of_reported {status : Nat} {body : Bytes} {before after : List Json}
    {value : Json} {text : String}
    (hvalues : DaemonAnswer.values status body = before ++ value :: after)
    (hbefore : ∀ value ∈ before, Json.Record DaemonMessage.pushFields value ∧
      ∀ text, ¬ DaemonMessage.Reports text value)
    (hvalue : Json.Record DaemonMessage.pushFields value)
    (hreports : DaemonMessage.Reports text value) :
    pushEnding (.reply status body) = .failed (.pushFailed ("Docker stream error: " ++ text)) := by
  obtain ⟨m, hm⟩ := DaemonMessage.exists_ofPush?_iff.mpr hvalue
  have herror := (DaemonMessage.error_eq_some_iff hm).mpr hreports
  -- a refusal has no values
  have hsuccess : DaemonAnswer.isSuccess status = true := by
    by_contra hrefused
    simp [DaemonAnswer.values, hrefused] at hvalues
  rw [DaemonAnswer.values, if_pos hsuccess] at hvalues
  obtain ⟨first, rest, hfirst, hitems⟩ := exists_itemsOf_append hbefore hm after
    ((StreamBody.fault? (DaemonAnswer.content status body)).map StreamItem.fault).toList
  have hsent : (DaemonAnswer.reply status body).sent? .push =
      some (first ++ .message m :: rest) := by
    rw [DaemonAnswer.sent?, DaemonAnswer.sent, DaemonAnswer.refusal?, if_pos hsuccess]
    simp only [StreamKind.sent, hvalues, hitems]
  rw [pushEnding_of_sent? hsent, PushStream.consume_append_of_error herror hfirst]
  rfl

theorem presence_eq_present_iff :
    presence (client.inspection image s) = .present ↔ client.Knows image s := by
  rw [Knows]
  cases client.inspection image s with
  | silence => simp [presence]
  | broken part reason => simp [presence]
  | reply status body =>
    rw [DaemonAnswer.exists_reply_iff, ← DaemonAnswer.describing?_eq_none_iff, presence]
    cases DaemonAnswer.describing? status body with
    | none => simp
    | some fault => by_cases hstatus : status = 404 <;> simp [hstatus]

theorem pushWith_sent (credentials : Option Credentials) :
    (client.pushWith image credentials s).state.requests =
        s.requests ++ [pushRequest image credentials] ∧
      (client.pushWith image credentials s).ending =
        pushEnding (client.transport (pushRequest image credentials) s.daemon).1 := by
  simp only [pushWith, send, pushEnding]
  cases (client.transport (pushRequest image credentials) s.daemon).1.stream? .push <;>
    exact ⟨rfl, rfl⟩

theorem push_of_knows (h : client.Knows image s) :
    client.push image fs s =
      client.pushPresent image fs (client.send (.inspect image.text) s).2 := by
  have hpresent := (client.presence_eq_present_iff image s).mpr h
  rw [inspection] at hpresent
  simp only [push, send, hpresent]

/-- The push of an image that the daemon does not know ends by the inspection. -/
theorem push_of_not_knows (h : ¬ client.Knows image s) :
    (client.push image fs s).state.requests = s.requests ++ [.inspect image.text] ∧
      (client.push image fs s).ending ≠ .succeeded := by
  have habsent := mt (client.presence_eq_present_iff image s).mp h
  rw [inspection] at habsent
  simp only [push, send]
  cases hpresence : presence (client.transport (.inspect image.text) s.daemon).1 with
  | present => exact absurd hpresence habsent
  | missing => exact ⟨rfl, by simp⟩
  | unknown fault => exact ⟨rfl, by simp⟩
  | silence => exact ⟨rfl, by simp⟩

/-- Without a clear answer about the credentials nothing is pushed. -/
theorem push_of_lookup_error (h : client.Knows image s) {error : CredentialError}
    (herror : client.lookedUp image fs = .error error) :
    (client.push image fs s).state.requests = s.requests ++ [.inspect image.text] ∧
      (client.push image fs s).ending = .failed error.toBuildError := by
  rw [lookedUp] at herror
  rw [client.push_of_knows image fs s h]
  simp only [pushPresent, herror, send, and_self]

theorem push_of_lookup_ok (h : client.Knows image s) {credentials : Option Credentials}
    (hok : client.lookedUp image fs = .ok credentials) :
    (client.push image fs s).state.requests =
        s.requests ++ [.inspect image.text, .push image.repository image.tag credentials] ∧
      (client.push image fs s).ending = pushEnding (client.pushAnswer image s credentials) := by
  rw [lookedUp] at hok
  rw [client.push_of_knows image fs s h, pushPresent]
  simp only [hok]
  obtain ⟨hrequests, hending⟩ := client.pushWith_sent image
    { daemon := (client.transport (.inspect image.text) s.daemon).2
      requests := s.requests ++ [.inspect image.text]
      helperRuns := s.helperRuns ++
        (Credentials.find fs client.configPath client.helpers image.text).runs } credentials
  exact ⟨hrequests.trans (List.append_assoc _ _ _), hending⟩

/-- An image is either pushed with the credentials for it, or does not get as far. -/
theorem push_cases :
    (∃ credentials, client.Knows image s ∧ client.lookedUp image fs = .ok credentials ∧
      (client.push image fs s).state.requests =
        s.requests ++ [.inspect image.text, .push image.repository image.tag credentials] ∧
      (client.push image fs s).ending = pushEnding (client.pushAnswer image s credentials)) ∨
    ((∀ credentials, ¬ (client.Knows image s ∧ client.lookedUp image fs = .ok credentials)) ∧
      (client.push image fs s).state.requests = s.requests ++ [.inspect image.text] ∧
      (client.push image fs s).ending ≠ .succeeded) := by
  by_cases hknows : client.Knows image s
  · cases hlookup : client.lookedUp image fs with
    | ok credentials =>
      exact Or.inl ⟨credentials, hknows, rfl, client.push_of_lookup_ok image fs s hknows hlookup⟩
    | error error =>
      obtain ⟨hrequests, hending⟩ := client.push_of_lookup_error image fs s hknows hlookup
      refine Or.inr ⟨by simp, hrequests, ?_⟩
      simp [hending]
  · exact Or.inr ⟨fun _ h => hknows h.1, client.push_of_not_knows image fs s hknows⟩

/-- Only the answer to the one push that was requested counts. -/
theorem ending_of_requested {credentials : Option Credentials}
    (h : (client.push image fs s).state.requests =
      s.requests ++ [.inspect image.text, .push image.repository image.tag credentials]) :
    (client.push image fs s).ending = pushEnding (client.pushAnswer image s credentials) := by
  rcases client.push_cases image fs s with
    ⟨found, -, -, hfound, hending⟩ | ⟨-, hinspected, -⟩
  · rw [h] at hfound
    have hcredentials : credentials = found := by simpa using hfound
    rw [hending, ← hcredentials]
  · rw [h] at hinspected
    simp at hinspected

theorem ending_of_pushAnswered {status : Nat} {body : Bytes}
    (h : client.PushAnswered image fs s status body) :
    (client.push image fs s).ending = pushEnding (.reply status body) := by
  obtain ⟨credentials, hrequests, hanswer⟩ := h
  rw [client.ending_of_requested image fs s hrequests, hanswer]

/-- Only a push that was requested and answered without a fault succeeds. -/
theorem pushAnswered_of_succeeded (h : (client.push image fs s).ending = .succeeded) :
    ∃ status body, client.PushAnswered image fs s status body ∧
      DaemonAnswer.Faultless status body := by
  rcases client.push_cases image fs s with
    ⟨credentials, -, -, hrequests, hending⟩ | ⟨-, -, hfailed⟩
  · rw [hending, pushEnding_eq_succeeded_iff, DaemonAnswer.exists_sent?_isClean_iff] at h
    obtain ⟨status, body, hanswer, hfaultless⟩ := h
    exact ⟨status, body, ⟨credentials, hrequests, hanswer⟩, hfaultless⟩
  · exact absurd h hfailed

structure PushFollowed : Prop where
  /-- Of the requests to push there is at most one. -/
  requests : ∃ sent : Option (Option Credentials), (client.push image fs s).state.requests =
      s.requests ++
        .inspect image.text :: (sent.map (.push image.repository image.tag)).toList ∧
    ∀ credentials, sent = some credentials ↔
      client.Knows image s ∧ client.lookedUp image fs = .ok credentials
  missing : ∀ body, client.inspection image s = .reply 404 body →
    (client.push image fs s).ending =
        .failed (.pushFailed ("image " ++ image.text ++ " is not in the local image store")) ∧
      (client.push image fs s).state.requests = s.requests ++ [.inspect image.text]
  unknown : client.inspection image s ≠ .silence →
    (∀ body, client.inspection image s ≠ .reply 404 body) → ¬ client.Knows image s →
    ∃ fault, (client.push image fs s).ending = .failed (.daemon fault) ∧
      (client.push image fs s).state.requests = s.requests ++ [.inspect image.text]
  unauthorized : client.Knows image s → ∀ error, client.lookedUp image fs = .error error →
    (client.push image fs s).ending = .failed (.authFailed error.subject error.cause.message) ∧
      (client.push image fs s).state.requests = s.requests ++ [.inspect image.text]
  succeeded_iff : (client.push image fs s).ending = .succeeded ↔
    ∃ status body, client.PushAnswered image fs s status body ∧ DaemonAnswer.Faultless status body
  failed : ∀ credentials, (client.push image fs s).state.requests =
      s.requests ++ [.inspect image.text, .push image.repository image.tag credentials] →
    client.pushAnswer image s credentials ≠ .silence →
    (client.push image fs s).ending ≠ .succeeded →
    ∃ text, (client.push image fs s).ending = .failed (.pushFailed text)
  /-- The first error counts, whatever comes after it. -/
  reported : ∀ status body, client.PushAnswered image fs s status body →
    ∀ before value after text, DaemonAnswer.values status body = before ++ value :: after →
    (∀ value ∈ before, Json.Record DaemonMessage.pushFields value ∧
      ∀ text, ¬ DaemonMessage.Reports text value) →
    Json.Record DaemonMessage.pushFields value → DaemonMessage.Reports text value →
    (client.push image fs s).ending = .failed (.pushFailed ("Docker stream error: " ++ text))

/-- A push asks for what it may ask for, and succeeds exactly if nothing in the answer is an
error. -/
theorem push_followed : client.PushFollowed image fs s where
  requests := by
    rcases client.push_cases image fs s with
      ⟨credentials, hknows, hlookup, hrequests, -⟩ | ⟨hnone, hrequests, -⟩
    · refine ⟨some credentials, hrequests, fun credentials' => ?_⟩
      rw [hlookup, Option.some.injEq, Except.ok.injEq]
      exact (and_iff_right hknows).symm
    · exact ⟨none, hrequests, fun credentials => iff_of_false (by simp) (hnone credentials)⟩
  missing body hinspection := by
    rw [inspection] at hinspection
    simp only [push, send, hinspection]
    exact ⟨rfl, rfl⟩
  unknown hanswered hfound hknows := by
    rw [← presence_eq_present_iff] at hknows
    unfold inspection at hanswered hfound hknows
    simp only [push, send]
    generalize (client.transport (.inspect image.text) s.daemon).1 = answer
      at hanswered hfound hknows ⊢
    cases answer with
    | silence => exact absurd rfl hanswered
    | broken part reason => exact ⟨.broken reason, rfl, rfl⟩
    | reply status body =>
      unfold presence at hknows ⊢
      cases hfault : DaemonAnswer.describing? status body with
      | none => simp [hfault] at hknows
      | some fault =>
        have hstatus : status ≠ 404 := fun heq => hfound body (heq ▸ rfl)
        refine ⟨fault, ?_⟩
        simp only [hfault, if_neg hstatus, and_self]
  unauthorized hknows error herror :=
    (client.push_of_lookup_error image fs s hknows herror).symm
  succeeded_iff := by
    constructor
    · exact client.pushAnswered_of_succeeded image fs s
    · rintro ⟨status, body, hanswered, hfaultless⟩
      rw [client.ending_of_pushAnswered image fs s hanswered, pushEnding_eq_succeeded_iff,
        DaemonAnswer.exists_sent?_isClean_iff]
      exact ⟨status, body, rfl, hfaultless⟩
  failed credentials hrequests hanswer hfailed := by
    have hending := client.ending_of_requested image fs s hrequests
    rw [hending] at hfailed ⊢
    exact exists_text_of_pushEnding hanswer hfailed
  reported status body hanswered before value after text hvalues hbefore hvalue hreports := by
    rw [client.ending_of_pushAnswered image fs s hanswered]
    exact pushEnding_of_reported hvalues hbefore hvalue hreports

end DaemonClient

namespace PushStream.Sample

def client (answer : Bytes) : DaemonClient Unit where
  transport
    | .inspect _, s => (.reply 200 (Bytes.ofString "\x7b\x7d"), s)
    | _, s => (.reply 200 answer, s)
  helpers := fun _ => none
  configPath := .ofString "/config.json"
  root := .ofString "/"
  palette := .plain

def image : ImageRef := ⟨"ghcr.io/r/n", "v1"⟩

def denied : Bytes := Bytes.ofString
  ("\x7b\"status\": \"Preparing\"\x7d\n" ++
    "\x7b\"errorDetail\": \x7b\"message\": \"denied\"\x7d, \"error\": \"denied\"\x7d\n" ++
    "\x7b\"status\": \"Pushed\"\x7d\n")

def granted : Bytes := Bytes.ofString
  ("\x7b\"status\": \"Preparing\"\x7d\n" ++ "\x7b\"status\": \"Pushed\"\x7d\n")

end PushStream.Sample

open BuildStream.Sample (workshop) in
open PushStream.Sample in
/-- A message after the error does not make up for it, and without the error the push succeeds. -/
theorem DaemonClient.push_followed_error_in_the_middle :
    (client denied).PushAnswered image workshop ⟨(), [], []⟩ 200 denied ∧
      (∃ first refused last, DaemonAnswer.values 200 denied = [first, refused, last] ∧
        DaemonMessage.Reports "denied" refused ∧ ∀ text, ¬ DaemonMessage.Reports text last) ∧
      ((client denied).push image workshop ⟨(), [], []⟩).ending =
        .failed (.pushFailed "Docker stream error: denied") ∧
      ((client granted).push image workshop ⟨(), [], []⟩).ending = .succeeded := by
  have hanswered : (client denied).PushAnswered image workshop ⟨(), [], []⟩ 200 denied :=
    ⟨none, by decide +kernel, rfl⟩
  have hread : (DaemonAnswer.values 200 denied).map DaemonMessage.ofPush? =
      [some { status := some "Preparing" }, some { error := some "denied" },
        some { status := some "Pushed" }] := by
    decide +kernel
  obtain ⟨first, rest, hvalues, hfirst, hrest⟩ := List.map_eq_cons_iff.mp hread
  obtain ⟨refused, rest, rfl, hrefused, hrest⟩ := List.map_eq_cons_iff.mp hrest
  obtain ⟨last, rest, rfl, hlast, hrest⟩ := List.map_eq_cons_iff.mp hrest
  obtain rfl := List.map_eq_nil_iff.mp hrest
  have hreports := (DaemonMessage.error_eq_some_iff hrefused).mp rfl
  have hfirst' := DaemonAnswer.exists_clean_iff.mp ⟨_, hfirst, rfl⟩
  refine ⟨hanswered, ⟨first, refused, last, hvalues, hreports,
    (DaemonAnswer.exists_clean_iff.mp ⟨_, hlast, rfl⟩).2⟩, ?_, ?_⟩
  · exact ((client denied).push_followed image workshop ⟨(), [], []⟩).reported 200 denied hanswered
      [first] refused [last] "denied" hvalues (by simpa using hfirst')
      (DaemonMessage.exists_ofPush?_iff.mp ⟨_, hrefused⟩) hreports
  · have hclean : ∀ value ∈ DaemonAnswer.values 200 granted,
        ∃ m ∈ DaemonMessage.ofPush? value, m.error = none := by
      decide +kernel
    refine ((client granted).push_followed image workshop ⟨(), [], []⟩).succeeded_iff.mpr
      ⟨200, granted, ⟨none, by decide +kernel, rfl⟩, Or.inl (by decide), by decide +kernel,
        ?_, ?_⟩
    · exact fun value hvalue => (DaemonAnswer.exists_clean_iff.mp (hclean value hvalue)).1
    · exact fun value hvalue => (DaemonAnswer.exists_clean_iff.mp (hclean value hvalue)).2

end ReleasePublisher
