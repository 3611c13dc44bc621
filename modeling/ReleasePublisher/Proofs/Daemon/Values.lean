import ReleasePublisher.Daemon.Exchange

/-!
What a daemon sends as an answer. A body holds the same values whatever it is an answer to, and ends
in the same way; only how a value is read as a message depends on what was asked for. The items of a
stream are the messages that are sent, except that an error in a message counts as a fault.
-/
namespace ReleasePublisher

namespace StreamBody

/-- The values in the lines of a body, as far as each line is one. What is left begins with a line
that says nothing, joined with the one after it. -/
def values : Bytes → List Json × Except DaemonFault Bytes
  | [] => ([], .ok [])
  | b :: rest =>
    match Json.parse (StreamKind.cutLine (b :: rest)).1 with
    | .error .cutOff | .ok .null =>
      ([], .ok ((StreamKind.cutLine (b :: rest)).1 ++ (StreamKind.cutLine (b :: rest)).2))
    | .error .malformed => ([], .error .malformed)
    | .ok json =>
      let (found, left) := values (StreamKind.cutLine (b :: rest)).2
      (json :: found, left)
termination_by b => b.length
decreasing_by exact StreamKind.length_cutLine_lt b rest

def faultOf : Except DaemonFault Bytes → Option DaemonFault
  | .error fault => some fault
  | .ok [] => none
  | .ok (_ :: _) => some .unfinished

def remainder : Except DaemonFault Bytes → List Json × Option DaemonFault
  | .error fault => ([], some fault)
  | .ok left => ((values left).1, faultOf (values left).2)

def allValues (body : Bytes) : List Json := (values body).1 ++ (remainder (values body).2).1

def fault? (body : Bytes) : Option DaemonFault := (remainder (values body).2).2

def faultUntil (fault : DaemonFault) : Except DaemonFault Bytes → DaemonFault
  | .error earlier => earlier
  | .ok _ => fault

end StreamBody

/-- What a client makes of an item. An error in a message is a fault. -/
def StreamItem.checked : StreamItem → StreamItem
  | .message m => .ofMessage m
  | .fault f => .fault f

namespace StreamKind

/-- Reads values as messages. The first that is none ends the reading, or else what is left does. -/
def messagesOf (kind : StreamKind) (left : Except DaemonFault Bytes) :
    List Json → List DaemonMessage × Except DaemonFault Bytes
  | [] => ([], left)
  | value :: rest =>
    match kind.message? value with
    | some message => (message :: (messagesOf kind left rest).1, (messagesOf kind left rest).2)
    | none => ([], .error .malformed)

def itemsOf (kind : StreamKind) (ending : List StreamItem) : List Json → List StreamItem
  | [] => ending
  | value :: rest =>
    match kind.message? value with
    | some message => .message message :: itemsOf kind ending rest
    | none => [.fault .malformed]

def sent (kind : StreamKind) (body : Bytes) : List StreamItem :=
  kind.itemsOf ((StreamBody.fault? body).map .fault).toList (StreamBody.allValues body)

/-- What is drained from a body are the messages of its values, and what is left of it. -/
theorem drain_eq (kind : StreamKind) (b : Bytes) :
    kind.drain b = kind.messagesOf (StreamBody.values b).2 (StreamBody.values b).1 := by
  fun_induction StreamBody.values b with
  | case1 => simp [drain, messagesOf]
  | case2 b rest hparse => simp [drain, read, hparse, messagesOf]
  | case3 b rest hparse => simp [drain, read, hparse, messagesOf]
  | case4 b rest hparse => simp [drain, read, hparse, messagesOf]
  | case5 b rest json hnull hparse found left hvalues ih =>
    rw [hvalues] at ih
    cases hmessage : kind.message? json with
    | none => simp [drain, read, hparse, messagesOf, hmessage]
    | some message => simp [drain, read, hparse, messagesOf, hmessage, ih]

/-- The items of some values are followed by those of the values behind them. -/
theorem itemsOf_append (kind : StreamKind) (ending : List StreamItem) (first last : List Json) :
    kind.itemsOf ending (first ++ last) = kind.itemsOf (kind.itemsOf ending last) first := by
  induction first with
  | nil => rfl
  | cons value rest ih =>
    rw [List.cons_append, itemsOf, itemsOf]
    cases kind.message? value with
    | none => rfl
    | some message => simp only [ih]

/-- A client makes of values what it makes of the messages in them, and `after` them of what is
left. -/
theorem map_checked_itemsOf (kind : StreamKind) {ending : List StreamItem}
    (after : Except DaemonFault Bytes → List StreamItem) (left : Except DaemonFault Bytes)
    (hmalformed : after (.error .malformed) = [.fault .malformed])
    (hleft : ending.map .checked = after left) (values : List Json) :
    (kind.itemsOf ending values).map .checked =
      (kind.messagesOf left values).1.map .ofMessage ++ after (kind.messagesOf left values).2 := by
  induction values with
  | nil => exact hleft
  | cons value rest ih =>
    rw [itemsOf, messagesOf]
    cases kind.message? value with
    | none => exact hmalformed.symm
    | some message => simp only [List.map_cons, List.cons_append, ih, StreamItem.checked]

def closing : Except DaemonFault Bytes → List StreamItem
  | .error fault => [.fault fault]
  | .ok [] => []
  | .ok (_ :: _) => [.fault .unfinished]

def closingOf (kind : StreamKind) : Except DaemonFault Bytes → List StreamItem
  | .error fault => [.fault fault]
  | .ok left => (kind.drain left).1.map .ofMessage ++ closing (kind.drain left).2

theorem items_eq_closing (kind : StreamKind) (body : Bytes) :
    kind.items body = (kind.drain body).1.map .ofMessage ++ kind.closingOf (kind.drain body).2 := by
  rw [items]
  generalize kind.drain body = drained
  obtain ⟨first, left⟩ := drained
  cases left with
  | error fault => rfl
  | ok left =>
    simp only [closingOf]
    generalize kind.drain left = rest
    obtain ⟨last, left⟩ := rest
    cases left with
    | error fault => rfl
    | ok left => cases left <;> rfl

theorem map_checked_closing (left : Except DaemonFault Bytes) :
    (((StreamBody.faultOf left).map StreamItem.fault).toList).map .checked = closing left := by
  cases left with
  | error fault => rfl
  | ok left => cases left <;> rfl

/-- The items that a client sees are those that are sent. -/
theorem items_eq (kind : StreamKind) (body : Bytes) :
    kind.items body = (kind.sent body).map .checked := by
  rw [items_eq_closing, drain_eq, sent, StreamBody.allValues, itemsOf_append]
  refine (kind.map_checked_itemsOf kind.closingOf _ rfl ?_ _).symm
  rw [StreamBody.fault?]
  cases (StreamBody.values body).2 with
  | error fault => rfl
  | ok left =>
    rw [closingOf, drain_eq]
    exact kind.map_checked_itemsOf closing _ rfl (map_checked_closing _) _

def sentUntil (kind : StreamKind) (fault : DaemonFault) (body : Bytes) : List StreamItem :=
  kind.itemsOf [.fault (StreamBody.faultUntil fault (StreamBody.values body).2)]
    (StreamBody.values body).1

/-- A body that breaks off yields its whole messages and then the fault. -/
theorem itemsUntil_eq (kind : StreamKind) (fault : DaemonFault) (body : Bytes) :
    kind.itemsUntil fault body = (kind.sentUntil fault body).map .checked := by
  rw [sentUntil, kind.map_checked_itemsOf (fun left => [.fault (StreamBody.faultUntil fault left)])
    (StreamBody.values body).2 rfl rfl, ← drain_eq, itemsUntil]
  generalize kind.drain body = drained
  obtain ⟨first, left⟩ := drained
  cases left <;> rfl

/-- Whatever comes before it, a fault at the end is not lost. -/
theorem exists_fault_of_itemsOf (kind : StreamKind) (fault : DaemonFault) (values : List Json) :
    ∃ fault', StreamItem.fault fault' ∈ kind.itemsOf [.fault fault] values := by
  induction values with
  | nil => exact ⟨fault, List.mem_singleton_self _⟩
  | cons value rest ih =>
    rw [itemsOf]
    cases kind.message? value with
    | none => exact ⟨_, List.mem_singleton_self _⟩
    | some message =>
      obtain ⟨fault', hmem⟩ := ih
      exact ⟨fault', List.mem_cons_of_mem _ hmem⟩

/-- Nothing that faults lack holds of all items, unless every value is a message of which it
holds. -/
theorem forall_itemsOf_iff (kind : StreamKind) {P : StreamItem → Prop}
    (hfault : ∀ fault, ¬ P (.fault fault)) (ending : List StreamItem) (values : List Json) :
    (∀ item ∈ kind.itemsOf ending values, P item) ↔
      (∀ value ∈ values, ∃ m, kind.message? value = some m ∧ P (.message m)) ∧
        ∀ item ∈ ending, P item := by
  induction values with
  | nil => simp [itemsOf]
  | cons value rest ih =>
    rw [itemsOf, List.forall_mem_cons]
    cases hmessage : kind.message? value with
    | none => simp [hfault]
    | some message => simp [ih, and_assoc]

end StreamKind

namespace DaemonAnswer

def sent (kind : StreamKind) (status : Nat) (body : Bytes) : List StreamItem :=
  match refusal? status body with
  | some fault => [.fault fault]
  | none => kind.sent (content status body)

def brokenSent (kind : StreamKind) (part : Option (Nat × Bytes)) (fault : DaemonFault) :
    List StreamItem :=
  match part with
  | none => [.fault fault]
  | some (status, body) =>
    if isSuccess status then kind.sentUntil fault (content status body) else [.fault fault]

def sent? (kind : StreamKind) : DaemonAnswer → Option (List StreamItem)
  | .reply status body => some (sent kind status body)
  | .broken part reason => some (brokenSent kind part (.broken reason))
  | .silence => none

def values (status : Nat) (body : Bytes) : List Json :=
  if isSuccess status then StreamBody.allValues (content status body) else []

/-- What a client sees of an answer are its items, with the errors in them as faults. -/
theorem items_eq (kind : StreamKind) (status : Nat) (body : Bytes) :
    items kind status body = (sent kind status body).map .checked := by
  rw [items, sent]
  cases refusal? status body with
  | none => exact kind.items_eq _
  | some fault => rfl

theorem brokenItems_eq (kind : StreamKind) (part : Option (Nat × Bytes)) (fault : DaemonFault) :
    brokenItems kind part fault = (brokenSent kind part fault).map .checked := by
  unfold brokenItems brokenSent
  cases part with
  | none => rfl
  | some part =>
    obtain ⟨status, body⟩ := part
    by_cases hsuccess : isSuccess status = true
    · simp only [hsuccess, if_true]
      exact kind.itemsUntil_eq fault _
    · simp only [hsuccess, Bool.false_eq_true, if_false]
      rfl

/-- Whatever answer there is, a client sees its items with the errors in them as faults. -/
theorem stream?_eq (kind : StreamKind) (answer : DaemonAnswer) :
    answer.stream? kind = (answer.sent? kind).map fun items => items.map .checked := by
  cases answer with
  | reply status body => exact congrArg some (items_eq kind status body)
  | broken part reason => exact congrArg some (brokenItems_eq kind part _)
  | silence => rfl

/-- An answer that breaks off has a fault in it. -/
theorem exists_fault_of_brokenSent (kind : StreamKind) (part : Option (Nat × Bytes))
    (fault : DaemonFault) : ∃ fault', StreamItem.fault fault' ∈ brokenSent kind part fault := by
  unfold brokenSent
  split
  · exact ⟨fault, List.mem_singleton_self _⟩
  · split
    · exact kind.exists_fault_of_itemsOf _ _
    · exact ⟨fault, List.mem_singleton_self _⟩

/-- What holds of every item but a fault holds of an answer that is accepted and complete, value by
value. -/
theorem forall_sent_iff (kind : StreamKind) {P : StreamItem → Prop}
    (hfault : ∀ fault, ¬ P (.fault fault)) (status : Nat) (body : Bytes) :
    (∀ item ∈ sent kind status body, P item) ↔
      isSuccess status = true ∧ StreamBody.fault? (content status body) = none ∧
        ∀ value ∈ values status body, ∃ m, kind.message? value = some m ∧ P (.message m) := by
  rw [sent, refusal?, values]
  by_cases hsuccess : isSuccess status = true
  · simp only [hsuccess, if_true, true_and]
    rw [StreamKind.sent, kind.forall_itemsOf_iff hfault, and_comm]
    cases StreamBody.fault? (content status body) with
    | none => simp
    | some fault => simp [hfault]
  · simp [hsuccess, hfault]

end DaemonAnswer

end ReleasePublisher
