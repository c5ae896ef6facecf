import Umm.Manager.Control

/-!
# Whose packets are sent as whose

A `netwrite` only queues the packet; `ProcessOutgoing` later sends it as the instance the proxy is
set to when the event is performed.  The proxy is set when an instance is loaded into the slot, so
the packet goes out as its writer's unless another instance is loaded ahead of it.
-/

namespace Umm

open Foundations

/-- The writer of a pending packet that will be sent as the proxy's instance. -/
def Event.externalWriter : Event → Option UmiId
  | .processOutgoing writer pkt => if pkt.isExternalTcp then some writer else none
  | _ => none

namespace Core

/-- Every external TCP packet was sent as the instance that wrote it. -/
def Attributed (s : Core) : Prop :=
  ∀ p ∈ s.sent, p.1 = p.2

instance (s : Core) : Decidable s.Attributed :=
  inferInstanceAs (Decidable (∀ p ∈ s.sent, p.1 = p.2))

/-- While an external TCP packet is pending, the step loads no instance but its writer. -/
def loadsOnlyWriters (s : Core) (a : Step) : Bool :=
  (s.loadTarget a).all fun x => s.events.all fun e => (e.externalWriter).all fun w => w == x

/-- The invariant behind `Attributed`. -/
structure AttributionInvariant (s : Core) : Prop where
  /-- The proxy is set to the active instance. -/
  active : ∀ id, s.activeUmi = some id → s.proxyUmi = id
  /-- The proxy is set to the writer of every pending packet. -/
  pending : ∀ e ∈ s.events, ∀ w, e.externalWriter = some w → s.proxyUmi = w
  /-- The packets sent so far. -/
  attributed : s.Attributed

/-- The invariant holds after boot. -/
theorem attributionInvariant_init : AttributionInvariant init where
  active := fun _ h => by cases h
  pending := fun _ h => absurd h List.not_mem_nil
  attributed := fun _ h => absurd h List.not_mem_nil

section Transformers

variable {s t : Core} {id : UmiId}

/-- The instance may leave the slot, and events other than packets may be spawned. -/
theorem AttributionInvariant.frame (h : AttributionInvariant s)
    (hactive : ∀ id, t.activeUmi = some id → s.activeUmi = some id)
    (hproxy : t.proxyUmi = s.proxyUmi)
    (hevents : ∀ e ∈ t.events, e.externalWriter ≠ none → e ∈ s.events)
    (hsent : t.sent = s.sent) : AttributionInvariant t where
  active := fun id hid => hproxy.trans (h.active id (hactive id hid))
  pending := by
    intro e he w hw
    have hmem := hevents e he (by simp [hw])
    exact hproxy.trans (h.pending e hmem w hw)
  attributed := fun p hp => h.attributed p (hsent ▸ hp)

/-- Spawning an event that is no external packet. -/
theorem AttributionInvariant.spawnLocal (h : AttributionInvariant s) {e : Event}
    (he : e.externalWriter = none) : AttributionInvariant (s.spawnLocal e) := by
  refine h.frame (fun _ h => h) rfl (fun e' he' hw => ?_) rfl
  rcases List.mem_append.mp he' with he' | he'
  · exact he'
  · exact absurd (List.mem_singleton.mp he' ▸ he) hw

/-- It is not about the instances themselves. -/
theorem AttributionInvariant.setUmi (h : AttributionInvariant s) (x : UmInstance) :
    AttributionInvariant (s.setUmi id x) :=
  h.frame (fun _ h => h) rfl (fun _ h _ => h) rfl

/-- Loading an instance that wrote all the pending packets. -/
theorem AttributionInvariant.occupy (h : AttributionInvariant s)
    (hwriter : ∀ e ∈ s.events, ∀ w, e.externalWriter = some w → w = id) :
    AttributionInvariant (s.occupy id) where
  active := fun _ hid => Option.some.inj hid
  pending := fun e he w hw => (hwriter e he w hw).symm
  attributed := h.attributed

/-- What a load may be, read off the condition. -/
theorem writer_of_loadsOnlyWriters {a : Step} (hloads : s.loadsOnlyWriters a = true)
    (htarget : s.loadTarget a = some id) :
    ∀ e ∈ s.events, ∀ w, e.externalWriter = some w → w = id := by
  intro e he w hw
  rw [loadsOnlyWriters, htarget] at hloads
  have hall := List.all_eq_true.mp hloads e he
  rw [hw] at hall
  exact beq_iff_eq.mp hall

end Transformers

/-! ## Steps -/

section Steps

variable {s : Core} {id : UmiId}

/-- `Kick` keeps the invariant. -/
theorem AttributionInvariant.kick_outcome (h : AttributionInvariant s) (id : UmiId) :
    Outcome (s.kick id) AttributionInvariant fun _ => True := by
  apply Core.kick_outcome (fun _ _ => trivial) h
  intro ctx _ _
  have hlogged : AttributionInvariant { s with activated := ctx :: s.activated } :=
    h.frame (fun _ h => h) rfl (fun _ h _ => h) rfl
  exact (hlogged.setUmi _).spawnLocal rfl

/-- The return of the instance keeps the invariant. -/
theorem AttributionInvariant.release (h : AttributionInvariant s) (id : UmiId) (call : Call) :
    AttributionInvariant (s.release id call) := by
  refine h.frame (fun _ h => by cases h) rfl (fun e he hw => ?_) rfl
  rcases mem_events_spawnYieldAfter he with he | rfl
  · exact he
  · exact absurd rfl hw

/-- `Halt` keeps the invariant. -/
theorem AttributionInvariant.halt_outcome (h : AttributionInvariant s) :
    Outcome s.halt AttributionInvariant fun _ => True := by
  apply Core.halt_outcome (fun _ _ => trivial) (fun _ => trivial) (fun _ => trivial)
  · intro id _ _ _ _
    have hhalting : AttributionInvariant (s.setHalting id) :=
      h.frame (fun _ h => h) rfl (fun _ h _ => h) rfl
    exact hhalting.spawnLocal rfl
  · intro id call _ _ _ hevents _
    -- the proxy is reset, but no packet is pending
    refine ⟨fun _ h => (by cases h), fun e he w hw => ?_, h.attributed⟩
    rcases mem_events_spawnYieldAfter he with he | rfl
    · change e ∈ s.events at he
      rw [hevents] at he
      exact absurd he List.not_mem_nil
    · cases hw

/-- The end of `Yield` keeps the invariant. -/
theorem AttributionInvariant.yieldTo_outcome (h : AttributionInvariant s) {next umi : UmiId}
    (hloaded : s.status = .loaded) (hactive : s.activeUmi = some umi) :
    Outcome (s.yieldTo next) AttributionInvariant fun _ => True := by
  have hidle : AttributionInvariant { s with status := .idle } :=
    h.frame (fun _ h => h) rfl (fun _ h _ => h) rfl
  apply Core.yieldTo_outcome hloaded hactive
  · exact fun _ => h.frame (fun _ h => h) rfl (fun _ h _ => h) rfl
  · intro _ _
    have hunmarked : AttributionInvariant { s with
        status := .idle
        inactiveUmiHaltMap := Function.update s.inactiveUmiHaltMap next false } :=
      hidle.frame (fun _ h => h) rfl (fun _ h _ => h) rfl
    exact hunmarked.halt_outcome
  · exact fun _ => hidle.kick_outcome umi

/-- Yielding to an instance that wrote all the pending packets. -/
theorem AttributionInvariant.yield_outcome (h : AttributionInvariant s)
    (hslot : SlotInvariant [] s)
    (hwriter : ∀ next, s.yieldTarget = some next →
      ∀ e ∈ s.events, ∀ w, e.externalWriter = some w → w = next) :
    Outcome s.yield AttributionInvariant fun _ => True := by
  refine yield_outcome_of_target (fun _ _ => trivial) h (fun old _ _ => ?_) ?_ ?_
  · exact h.frame (fun _ h => by cases h) rfl (fun _ h _ => h) rfl
  · intro next umi old hnext _ humi
    obtain rfl := hslot.inactive_eq next umi humi
    have hvacated : AttributionInvariant ((s.takeInactive umi).vacate old) :=
      h.frame (fun _ h => by cases h) rfl (fun _ h _ => h) rfl
    exact (hvacated.occupy (hwriter umi hnext)).yieldTo_outcome rfl rfl
  · intro next umi hempty hnext humi
    obtain rfl := hslot.inactive_eq next umi humi
    have htaken : AttributionInvariant (s.takeInactive umi) :=
      h.frame (fun _ h => h) rfl (fun _ h _ => h) rfl
    have hwritten := hwriter umi (hnext (hslot.empty_iff.mp hempty))
    exact (htaken.occupy hwritten).yieldTo_outcome rfl rfl

/-- `process_gateway` keeps the invariant. -/
theorem AttributionInvariant.processGateway_outcome (h : AttributionInvariant s)
    (frame : Option Call) : Outcome (s.processGateway frame) AttributionInvariant fun _ => True := by
  apply Core.processGateway_outcome (fun _ _ => trivial)
  · exact fun id _ _ => h.frame (fun _ h => h) rfl (fun _ h _ => h) rfl
  · exact fun id call _ _ _ => h.release id call

/-- `Load` keeps the invariant, if it loads only the writers of pending packets. -/
theorem AttributionInvariant.load_outcome (h : AttributionInvariant s)
    (hloads : s.loadsOnlyWriters (.load id) = true) :
    Outcome ((s.submit id).load id) AttributionInvariant fun _ => True := by
  have hsubmit : AttributionInvariant (s.submit id) :=
    h.frame (fun _ h => h) rfl (fun _ h _ => h) rfl
  have hwriter : s.loadTarget (.load id) = some id → _ := writer_of_loadsOnlyWriters hloads
  apply Core.load_outcome (fun _ _ => trivial)
  · intro hempty
    exact hsubmit.occupy (hwriter (if_pos (Or.inl hempty)))
  · intro old hidle hold hinactive
    have hvacated : AttributionInvariant ((s.submit id).vacate old) :=
      hsubmit.frame (fun _ h => by cases h) rfl (fun _ h _ => h) rfl
    have hswap := (activeIsInactive_of_some hold).mpr hinactive
    exact hvacated.occupy (hwriter (if_pos (Or.inr ⟨hidle, hswap⟩)))
  · exact fun _ => hsubmit.frame (fun _ h => h) rfl (fun _ h _ => h) rfl

/-- So does `Run`. -/
theorem AttributionInvariant.run_outcome (h : AttributionInvariant s)
    (hloads : s.loadsOnlyWriters (.run id) = true) :
    Outcome ((s.submit id).run id) AttributionInvariant fun _ => True := by
  have hsubmit : AttributionInvariant (s.submit id) :=
    h.frame (fun _ h => h) rfl (fun _ h _ => h) rfl
  apply Core.run_outcome (fun _ _ => trivial)
  intro hempty
  have htarget : s.loadTarget (.run id) = some id := if_pos hempty
  have hwriter := writer_of_loadsOnlyWriters hloads htarget
  have hloaded : AttributionInvariant ((s.submit id).occupy id) := hsubmit.occupy hwriter
  exact hloaded.frame (fun _ h => h) rfl (fun _ h _ => h) rfl

/-- A step that yields. -/
theorem AttributionInvariant.yieldCall_outcome {t : Core} (h : AttributionInvariant s)
    (hslot : SlotInvariant [] s) {a : Step} (hloads : s.loadsOnlyWriters a = true)
    (hcall : s.yieldCall a = some t) : Outcome t.yield AttributionInvariant fun _ => True := by
  have ht : AttributionInvariant t :=
    of_yieldCall hcall h
      (fun i => h.frame (fun _ h => h) rfl (fun _ he _ => List.mem_of_mem_eraseIdx he) rfl)
      (fun x y _ => h.setUmi y)
      (fun u id hu => hu.frame (fun _ h => h) rfl (fun _ h _ => h) rfl)
      (fun u m hu => hu.frame (fun _ h => h) rfl (fun _ h _ => h) rfl)
  have hevents : t.events ⊆ s.events :=
    of_yieldCall (P := fun u => u.events ⊆ s.events) hcall (List.Subset.refl _)
      (fun i => List.eraseIdx_subset) (fun _ _ _ => List.Subset.refl _) (fun _ _ hu => hu)
      fun _ _ hu => hu
  refine ht.yield_outcome (hslot.of_yieldCall hcall) fun next hnext e he => ?_
  rw [← loadTarget_of_yieldCall hcall] at hnext
  exact writer_of_loadsOnlyWriters hloads hnext e (hevents he)

/-- The hypercall `poll` keeps the invariant. -/
theorem AttributionInvariant.poll_outcome (h : AttributionInvariant s) (guest : UmiId)
    (ns now : ℕ) : Outcome (s.poll guest ns now) AttributionInvariant fun _ => True := by
  refine Core.poll_outcome (fun _ _ => trivial) h fun _ _ _ => ?_
  apply Core.block_outcome (fun _ _ => trivial) (fun _ _ => trivial) (fun _ _ _ => trivial)
  · exact fun _ => h.frame (fun _ h => h) rfl (fun _ h _ => h) rfl
  · exact fun _ _ _ _ _ _ => h.frame (fun _ h => h) rfl (fun _ h _ => h) rfl

/-- The activation of a context keeps the invariant. -/
theorem AttributionInvariant.activateContext_outcome (h : AttributionInvariant s)
    (ctx : EventContext) :
    Outcome (s.activateContext ctx) AttributionInvariant fun _ => True := by
  apply Core.activateContext_outcome
  · intro _
    refine returnFromBlock_outcome (fun _ _ => trivial) (fun _ => trivial) fun _ => ?_
    exact h.frame (fun _ h => h) rfl (fun _ h _ => h) rfl
  · exact h.frame (fun _ h => h) rfl (fun _ h _ => h) rfl

/-- `ProcessOutgoing` keeps the invariant, if the proxy's instance is the writer. -/
theorem AttributionInvariant.processOutgoing_outcome (h : AttributionInvariant s)
    {writer : UmiId} {pkt : OutPacket}
    (hwriter : pkt.isExternalTcp = true → s.proxyUmi = writer) :
    Outcome (s.processOutgoing writer pkt) AttributionInvariant fun _ => True := by
  have hsent : pkt.isExternalTcp = true →
      AttributionInvariant { s with sent := (writer, s.proxyUmi) :: s.sent } := by
    intro hpkt
    refine { h with attributed := fun p hp => ?_ }
    rcases List.mem_cons.mp hp with rfl | hp
    · exact (hwriter hpkt).symm
    · exact h.attributed p hp
  exact Core.processOutgoing_outcome (fun _ _ => trivial) h hsent
    fun x y hpkt _ _ => (hsent hpkt).setUmi y

/-- An event that does not yield keeps the invariant. -/
theorem AttributionInvariant.dispatch_outcome (h : AttributionInvariant s) {i : ℕ}
    (hcall : s.yieldCall (.dispatch i) = none) :
    Outcome (s.dispatch i) AttributionInvariant fun _ => True := by
  have hrest : AttributionInvariant { s with events := s.events.eraseIdx i } :=
    h.frame (fun _ h => h) rfl (fun _ he _ => List.mem_of_mem_eraseIdx he) rfl
  unfold dispatch
  cases he : s.events[i]? with
  | none => exact h
  | some e =>
    cases e with
    | yield => simp [yieldCall, he] at hcall
    | halt => exact hrest.halt_outcome
    | processOutgoing writer pkt =>
      apply hrest.processOutgoing_outcome
      intro hpkt
      exact h.pending _ (List.mem_of_getElem? he) writer (if_pos hpkt)
    | activateContext ctx => exact hrest.activateContext_outcome ctx
    | other => exact hrest

/-- Every step that loads only the writers of pending packets keeps the invariant. -/
theorem AttributionInvariant.exec_outcome (h : AttributionInvariant s) (hslot : SlotInvariant [] s)
    (hcontrol : ControlInvariant s) {a : Step} (henabled : s.enabled a = true)
    (hloads : s.loadsOnlyWriters a = true) :
    Outcome (s.exec a) AttributionInvariant fun _ => True := by
  cases hcall : s.yieldCall a with
  | some t =>
    rw [exec_of_yieldCall hcall]
    exact h.yieldCall_outcome hslot hloads hcall
  | none =>
    cases a with
    | load id => exact h.load_outcome hloads
    | run id => exact h.run_outcome hloads
    | start id => exact h.processGateway_outcome _
    | signalHalt id => exact signalHalt_outcome (fun _ _ => trivial) hcall fun _ => h.halt_outcome
    | signalYield id => exact signalYield_outcome h (h.spawnLocal rfl)
    | signalResume id =>
      exact signalResume_outcome (fun _ _ => trivial) hcall fun _ => h.kick_outcome id
    | yield => cases hcall
    | spawnHalt => exact h.spawnLocal rfl
    | spawnOther => exact h.spawnLocal rfl
    | processIncoming id payload =>
      exact processIncoming_outcome (fun _ _ => trivial) hcall h
        fun x y _ _ => (h.setUmi y).kick_outcome x
    | enqueuePacket id buf => exact h.setUmi _
    | dispatch i => exact h.dispatch_outcome hcall
    | fire id now =>
      apply Core.fire_outcome
      · exact fun x _ _ _ => h.setUmi x
      · exact fun x _ _ _ _ => (h.setUmi x).kick_outcome id
    | poll ns now => exact h.poll_outcome s.guest ns now
    | netwrite pkt =>
      -- the guest in control is that of the active instance, which the proxy is set to
      obtain ⟨g, gs, hguests⟩ := guests_of_enabled_hypercall henabled rfl
      obtain ⟨-, hactive, -⟩ := hcontrol.inControl.of_guests hguests
      refine { h with pending := fun e he w hw => ?_ }
      rcases List.mem_append.mp he with he | he
      · exact h.pending e he w hw
      · obtain rfl := List.mem_singleton.mp he
        simp only [Event.externalWriter, guest, hguests] at hw
        split_ifs at hw
        exact Option.some.inj hw ▸ h.active g.id hactive
    | netread len => exact Core.netread_outcome (fun _ _ => trivial) fun x y _ => h.setUmi y
    | halt => exact h.halt_outcome

end Steps

/-- In every state of a run that loads only writers while packets are pending, every external TCP
packet has been sent as the instance that wrote it. -/
theorem outgoing_attributed {as : List Step}
    (hloads : AllSteps Core.step (fun s a => s.loadsOnlyWriters a = true) init as) :
    AllStates Core.step Attributed init as := by
  refine allStates_of_invariant
    (I := fun s => SlotInvariant [] s ∧ ControlInvariant s ∧ AttributionInvariant s)
    (fun s hs => hs.2.2.attributed) ?_
    ⟨slotInvariant_init, controlInvariant_init, attributionInvariant_init⟩ hloads
  rintro s a t ha ⟨hslot, hcontrol, hattr⟩ hstep
  obtain ⟨henabled, hexec⟩ := step_eq_some.mp hstep
  exact ⟨hslot.step hstep, hcontrol.step hslot hstep,
    (hattr.exec_outcome hslot hcontrol henabled ha).of_eq_ok hexec⟩

/-- Instance 3 is loaded after the packet of instance 2 has been sent. -/
theorem outgoing_attributed_swap : AllStates Core.step Attributed init
    [.load 2, .start 2, .netwrite ⟨true, true, 1⟩, .poll 1000 0, .dispatch 0, .load 3, .start 3] :=
  outgoing_attributed (by decide)

/-- Instance 3 is loaded while a second packet of instance 2 is pending: the packet is sent as
instance 3's. -/
theorem not_attributed_of_load : ¬ AllStates Core.step Attributed init
    [.load 2, .start 2, .netwrite ⟨true, true, 1⟩, .netwrite ⟨true, true, 1⟩, .poll 1000 0,
      .dispatch 0, .load 3, .dispatch 0] := by
  decide

end Core

end Umm
