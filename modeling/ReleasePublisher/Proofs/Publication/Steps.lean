import ReleasePublisher.Proofs.Publication.Course

/-!
What holds while the steps of a plan are done, and that a debug run gives the configuration file
back.
-/
namespace ReleasePublisher

namespace Publication

open FileSystem

variable {path : Path} {plan : Plan} {saved : Bytes} {start stop : FileSystem}
  {moments : List Moment}

theorem forall_called {good : FileSystem → Prop} {calls : List Exchange}
    (h : ∀ e ∈ calls, good e.before ∧ good e.after) :
    ∀ m ∈ calls.map Moment.called, good m.disk := by
  intro m hm
  obtain ⟨e, he, rfl⟩ := List.mem_map.mp hm
  exact (h e he).2

/-- A release run does nothing but make its calls. -/
theorem Executed.linked {result : Except Stop Report}
    (h : Executed path plan start moments result stop) (hmode : plan.mode = .release) :
    ∃ calls, moments = calls.map .called ∧ Linked start calls stop := by
  have hbuilt : ∀ {moments middle result}, Built path plan start moments result middle →
      ∃ calls, moments = calls.map .called ∧ Linked start calls middle := by
    intro moments middle result built
    cases built with
    | release mode linked phase => exact ⟨_, rfl, linked⟩
    | notEnabled mode => simp [hmode] at mode
    | restored mode => simp [hmode] at mode
    | discarded mode => simp [hmode] at mode
    | notRestored mode => simp [hmode] at mode
  cases h with
  | stopped built => exact hbuilt built
  | pushed built linked phase =>
    obtain ⟨builds, rfl, hlinked⟩ := hbuilt built
    exact ⟨builds ++ _, by rw [List.map_append], hlinked.append linked⟩

/-- What every call and every write to the configuration file keep holds while the builds are done. -/
theorem Built.invariant (good : FileSystem → Prop) {result : Except Stop (List ImageRef)}
    (h : Built path plan start moments result stop) (hstart : good start)
    (hwrite : ∀ before after l content, good before → Written path l content before after →
      good after)
    (hcall : ∀ e ∈ exchangesIn moments, good e.before → good e.after) :
    good stop ∧ (∀ m ∈ moments, good m.disk) ∧
      ∀ e ∈ exchangesIn moments, good e.before ∧ good e.after := by
  have henabled : ∀ {saved on}, Enabled path saved start on → good on := by
    intro saved on henabled
    obtain ⟨l, hwritten⟩ := henabled.written
    exact hwrite _ _ _ _ hstart hwritten
  have hwritten : ∀ {before after content}, good before → before.write path content = .ok after →
      good after := by
    intro before after content hbefore hstep
    obtain ⟨l, hwritten⟩ := written_of_write hstep
    exact hwrite _ _ _ _ hbefore hwritten
  cases h with
  | release mode linked phase =>
    rw [exchangesIn_called] at hcall ⊢
    obtain ⟨hstop, hcalls⟩ := linked.invariant good hstart hcall
    exact ⟨hstop, forall_called hcalls, hcalls⟩
  | notEnabled mode failure => exact ⟨hstart, by simp, by simp⟩
  | restored mode enabled linked phase restored =>
    obtain ⟨hmiddle, hcalls⟩ := linked.invariant good (henabled enabled) (by simpa using hcall)
    have hoff := hwritten hmiddle restored
    refine ⟨hoff, ?_, by simpa using hcalls⟩
    simp only [List.cons_append, List.forall_mem_cons, List.forall_mem_append]
    exact ⟨henabled enabled, forall_called hcalls, hoff, by simp⟩
  | discarded mode enabled linked phase discarded =>
    have hnone := discarded.exchangesIn_eq
    obtain ⟨hmiddle, hcalls⟩ :=
      linked.invariant good (henabled enabled) (by simpa [hnone] using hcall)
    refine ⟨?_, ?_, by simpa [hnone] using hcalls⟩
    · cases discarded with
      | done step => exact hwritten hmiddle step
      | failed step => exact hmiddle
    · simp only [List.cons_append, List.forall_mem_cons, List.forall_mem_append]
      refine ⟨henabled enabled, forall_called hcalls, ?_⟩
      cases discarded with
      | done step => simpa [Moment.disk] using hwritten hmiddle step
      | failed step => simp
  | notRestored mode enabled linked phase failure =>
    obtain ⟨hstop, hcalls⟩ := linked.invariant good (henabled enabled) (by simpa using hcall)
    refine ⟨hstop, ?_, by simpa using hcalls⟩
    rw [List.forall_mem_cons]
    exact ⟨henabled enabled, forall_called hcalls⟩

/-- What every write to the configuration file and every call keeps holds throughout. -/
theorem Executed.invariant (good : FileSystem → Prop) {result : Except Stop Report}
    (h : Executed path plan start moments result stop) (hstart : good start)
    (hwrite : ∀ before after l content, good before → Written path l content before after →
      good after)
    (hcall : ∀ e ∈ exchangesIn moments, good e.before → good e.after) :
    good stop ∧ (∀ m ∈ moments, good m.disk) ∧
      ∀ e ∈ exchangesIn moments, good e.before ∧ good e.after := by
  cases h with
  | stopped built => exact built.invariant good hstart hwrite hcall
  | pushed built linked phase =>
    simp only [exchangesIn_append, exchangesIn_called, List.forall_mem_append] at hcall ⊢
    obtain ⟨hmiddle, hmoments, hbuilds⟩ := built.invariant good hstart hwrite hcall.1
    obtain ⟨hstop, hpushes⟩ := linked.invariant good hmiddle hcall.2
    exact ⟨hstop, ⟨hmoments, forall_called hpushes⟩, hbuilds, hpushes⟩

theorem Built.diskAfter_eq {result : Except Stop (List ImageRef)}
    (h : Built path plan start moments result stop) : diskAfter start moments = stop := by
  cases h with
  | release mode linked phase => exact linked.diskAfter_eq
  | notEnabled mode failure => rfl
  | restored mode enabled linked phase restored => simp [Moment.disk]
  | discarded mode enabled linked phase discarded =>
    simp [Moment.disk, linked.diskAfter_eq, discarded.diskAfter_eq]
  | notRestored mode enabled linked phase failure => simp [Moment.disk, linked.diskAfter_eq]

theorem Executed.diskAfter_eq {result : Except Stop Report}
    (h : Executed path plan start moments result stop) : diskAfter start moments = stop := by
  cases h with
  | stopped built => exact built.diskAfter_eq
  | pushed built linked phase =>
    rw [diskAfter_append, built.diskAfter_eq, linked.diskAfter_eq]

/-- As long as the builds leave a file that can be written, it can be given back what it held. -/
theorem Enabled.exists_write {on middle : FileSystem} {calls : List Exchange}
    (h : Enabled path saved start on) (hlinked : Linked on calls middle)
    (hcalls : ∀ e ∈ calls, ∃ content disk, e.after.write path content = .ok disk) :
    ∃ off, middle.write path saved = .ok off := by
  obtain ⟨l, hwritten⟩ := h.written
  obtain ⟨serial, attributes, hface⟩ := hwritten.shows
  let good (fs : FileSystem) : Prop := ∃ off, fs.write path saved = .ok off
  have hon : good on := exists_write_of_file hwritten.place_eq.1 hface saved
  refine (hlinked.invariant good hon ?_).1
  intro e he _
  obtain ⟨content, disk, hdisk⟩ := hcalls e he
  exact exists_write_of_write hdisk saved

theorem Built.isBuild {result : Except Stop (List ImageRef)}
    (h : Built path plan start moments result stop) :
    ∀ e ∈ exchangesIn moments, ∃ step, e.call = .build step := by
  intro e he
  cases h with
  | release mode linked phase => exact phase.call_eq (by simpa using he)
  | notEnabled mode failure => simp at he
  | restored mode enabled linked phase restored => exact phase.call_eq (by simpa using he)
  | discarded mode enabled linked phase discarded =>
    exact phase.call_eq (by simpa [discarded.exchangesIn_eq] using he)
  | notRestored mode enabled linked phase failure => exact phase.call_eq (by simpa using he)

/-- Whatever the builds do to the configuration file, it is given back at their end. -/
theorem Built.given_back {result : Except Stop (List ImageRef)}
    (h : Built path plan start moments result stop) (hmode : plan.mode = .debug)
    (hread : start.read path = .ok saved)
    (hcalls : ∀ e ∈ exchangesIn moments, ∃ content disk, e.after.write path content = .ok disk) :
    stop.read path = .ok saved ∧ (moments = [] ∨ ∃ front, moments = front ++ [.changed stop]) := by
  have hmiddle : ∀ {saved' : Bytes} {on middle : FileSystem} {calls : List Exchange},
      Enabled path saved' start on → Linked on calls middle →
      (∀ e ∈ calls, e ∈ exchangesIn moments) →
      saved = saved' ∧ ∃ off, middle.write path saved = .ok off := by
    intro saved' on middle calls henabled hlinked hsub
    have hsame : saved = saved' := by simpa [hread] using henabled.read_eq
    subst hsame
    exact ⟨rfl, henabled.exists_write hlinked fun e he => hcalls e (hsub e he)⟩
  have hoff : ∀ {middle off : FileSystem}, middle.write path saved = .ok off →
      off.read path = .ok saved := by
    intro middle off hwrite
    obtain ⟨l, hwritten⟩ := written_of_write hwrite
    exact hwritten.read_eq
  cases h with
  | release mode linked phase => simp [hmode] at mode
  | notEnabled mode failure => exact ⟨hread, Or.inl rfl⟩
  | restored mode enabled linked phase restored =>
    obtain ⟨rfl, -⟩ := hmiddle enabled linked (fun e he => by simp [he])
    exact ⟨hoff restored, Or.inr ⟨_, rfl⟩⟩
  | discarded mode enabled linked phase discarded =>
    obtain ⟨rfl, off, hwrite⟩ := hmiddle enabled linked (fun e he => by simp [he])
    cases discarded with
    | failed step => simp [hwrite] at step
    | done step => exact ⟨hoff step, Or.inr ⟨_, rfl⟩⟩
  | notRestored mode enabled linked phase failure =>
    obtain ⟨rfl, off, hwrite⟩ := hmiddle enabled linked (fun e he => by simp [he])
    simp [hwrite] at failure

/-- The steps of a debug run give the configuration file back, if it can be written when the builds
are over and the pushes leave it. -/
theorem Executed.read_eq {result : Except Stop Report}
    (h : Executed path plan start moments result stop) (hmode : plan.mode = .debug)
    (hread : start.read path = .ok saved)
    (hbuilds : ∀ e ∈ exchangesIn moments, ∀ step, e.call = .build step →
      ∃ content disk, e.after.write path content = .ok disk)
    (hpushes : ∀ e ∈ exchangesIn moments, ∀ image, e.call = .push image →
      e.after.read path = e.before.read path) : stop.read path = .ok saved := by
  cases h with
  | stopped built =>
    refine (built.given_back hmode hread ?_).1
    intro e he
    obtain ⟨step, hstep⟩ := built.isBuild e he
    exact hbuilds e he step hstep
  | pushed built pushLinked pushPhase =>
    simp only [exchangesIn_append, exchangesIn_called, List.forall_mem_append] at hbuilds hpushes
    have hmiddle := (built.given_back hmode hread fun e he => by
      obtain ⟨step, hstep⟩ := built.isBuild e he
      exact hbuilds.1 e he step hstep).1
    let good (fs : FileSystem) : Prop := fs.read path = .ok saved
    refine (pushLinked.invariant good hmiddle ?_).1
    intro e he hgood
    obtain ⟨image, himage⟩ := pushPhase.call_eq he
    exact (hpushes.2 e he image himage).trans hgood

theorem changed_notMem_called {calls : List Exchange} {past rest : List Moment}
    {next : FileSystem} (h : calls.map Moment.called = past ++ .changed next :: rest) : False := by
  have hmem : Moment.changed next ∈ calls.map Moment.called := by simp [h]
  simp at hmem

/-- After each change that the steps make to the files, the configuration file is given back. -/
theorem Executed.exists_given_back {result : Except Stop Report}
    (h : Executed path plan start moments result stop) (hread : start.read path = .ok saved)
    (hbuilds : ∀ e ∈ exchangesIn moments, ∀ step, e.call = .build step →
      ∃ content disk, e.after.write path content = .ok disk)
    {past rest : List Moment} {next : FileSystem}
    (hsplit : moments = past ++ .changed next :: rest) :
    ∃ m ∈ Moment.changed next :: rest, m.disk.read path = .ok saved := by
  have hbuilt : ∀ {first past rest : List Moment} {middle : FileSystem}
      {result : Except Stop (List ImageRef)}, Built path plan start first result middle →
      (∀ e ∈ exchangesIn first, e ∈ exchangesIn moments) →
      first = past ++ .changed next :: rest →
      ∃ m ∈ Moment.changed next :: rest, m.disk.read path = .ok saved := by
    intro first past rest middle result built hsub hfirst
    cases hmode : plan.mode with
    | release =>
      cases built with
      | release mode linked phase => exact (changed_notMem_called hfirst).elim
      | _ => simp_all
    | debug =>
      have hcalls : ∀ e ∈ exchangesIn first,
          ∃ content disk, e.after.write path content = .ok disk := by
        intro e he
        obtain ⟨step, hstep⟩ := built.isBuild e he
        exact hbuilds e (hsub e he) step hstep
      obtain ⟨hmiddle, rfl | ⟨front, hlast⟩⟩ := built.given_back hmode hread hcalls
      · simp at hfirst
      · exact ⟨.changed middle, mem_of_append_eq (hlast.symm.trans hfirst), hmiddle⟩
  cases h with
  | stopped built => exact hbuilt built (fun e he => he) hsplit
  | pushed built pushLinked pushPhase =>
    rcases split_of_append hsplit with ⟨rest', hfirst, hrest⟩ | ⟨past', -, hpushes⟩
    · obtain ⟨m, hm, hread'⟩ := hbuilt built (fun e he => by simp [he]) hfirst
      refine ⟨m, ?_, hread'⟩
      rw [hrest, ← List.cons_append]
      exact List.mem_append_left _ hm
    · exact (changed_notMem_called hpushes).elim

end Publication

end ReleasePublisher
