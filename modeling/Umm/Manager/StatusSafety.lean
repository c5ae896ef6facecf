import Umm.Manager.Control

/-!
# The status machine does not abort

`UmmStatus::set` aborts on a transition it does not know, and `Halt` on an empty slot.  No step does
either as long as no guest blocks while it is halting and no `Halt` is left pending for a slot that
is or becomes empty.
-/

namespace Umm

open Foundations

namespace Core

/-- Taking the step from this state does not abort for the sake of the slot status. -/
def StatusSafe (s : Core) (a : Step) : Prop :=
  s.enabled a = true → ∀ e, s.exec a = .error e → e.concernsStatus = false

instance (s : Core) (a : Step) : Decidable (s.StatusSafe a) :=
  match he : s.exec a with
  | .ok _ => isTrue fun _ _ h => by simp [he] at h
  | .error e =>
    decidable_of_iff (s.enabled a = true → e.concernsStatus = false)
      ⟨fun h henabled e' he' => Except.error.inj (he.symm.trans he') ▸ h henabled,
        fun h henabled => h henabled e he⟩

/-- What a step has to respect: `Start` is of the loaded instance; a guest polls while halting only
when there is data; a `Halt` is spawned only for an occupied slot; and the slot is not emptied by a
yield while a `Halt` is pending. -/
def respectsStatus (s : Core) : Step → Bool
  | .start id => s.status == .loaded && s.activeUmi == some id
  | .poll _ _ => s.status != .halting || s.activeUmi.any fun id => (s.umis id).hasData
  | .spawnHalt => s.status != .empty
  | a => (s.yieldCall a).all fun t => !(t.yieldVacates && t.events.contains .halt)

/-- A pending `Halt` finds the slot occupied. -/
def HaltInvariant (s : Core) : Prop :=
  .halt ∈ s.events → s.activeUmi ≠ none

theorem haltInvariant_init : HaltInvariant init :=
  fun h => absurd h List.not_mem_nil

section Steps

variable {s t : Core} {id : UmiId}

theorem HaltInvariant.frame (h : HaltInvariant s) (hactive : t.activeUmi = s.activeUmi)
    (hevents : .halt ∈ t.events → .halt ∈ s.events) : HaltInvariant t :=
  fun hmem => hactive ▸ h (hevents hmem)

/-- While the slot is occupied, a `Halt` may be pending. -/
theorem haltInvariant_of_active (hactive : s.activeUmi = some id) : HaltInvariant s :=
  fun _ hnone => by simp [hactive] at hnone

theorem HaltInvariant.spawnLocal (h : HaltInvariant s) {e : Event} (he : e ≠ .halt) :
    HaltInvariant (s.spawnLocal e) := by
  refine h.frame rfl fun hmem => ?_
  rcases List.mem_append.mp hmem with hmem | hmem
  · exact hmem
  · exact absurd (List.mem_singleton.mp hmem).symm he

theorem HaltInvariant.kick_outcome (h : HaltInvariant s) (id : UmiId) :
    Outcome (s.kick id) HaltInvariant (·.concernsStatus = false) := by
  refine Core.kick_outcome (fun _ _ => rfl) h ?_
  intro ctx _ _
  have hset : HaltInvariant (s.setUmi id { s.umis id with blocked := false }.disableTimer) :=
    h.frame rfl fun h => h
  exact hset.spawnLocal fun h => by cases h

/-- `Halt` with the slot occupied: the next one is pending, or there was none. -/
theorem haltInvariant_halt_outcome (hempty : s.status ≠ .empty) (hfinished : s.status ≠ .finished) :
    Outcome s.halt HaltInvariant (·.concernsStatus = false) := by
  apply Core.halt_outcome Abort.concernsStatus_of_isOther (fun h => absurd h hempty)
    (fun h => absurd h hfinished)
  · intro id _ _ hactive _
    exact haltInvariant_of_active hactive
  · intro id call _ _ _ hevents _ hmem
    rcases mem_events_spawnYieldAfter hmem with hmem | hmem
    · change .halt ∈ s.events at hmem
      rw [hevents] at hmem
      exact absurd hmem List.not_mem_nil
    · cases hmem

theorem haltInvariant_yieldTo_outcome {next umi : UmiId} (hloaded : s.status = .loaded)
    (hactive : s.activeUmi = some umi) :
    Outcome (s.yieldTo next) HaltInvariant (·.concernsStatus = false) := by
  apply Core.yieldTo_outcome hloaded hactive
  · exact fun _ => haltInvariant_of_active hactive
  · exact fun _ _ => haltInvariant_halt_outcome (fun h => by cases h) fun h => by cases h
  · intro _
    have hidle : HaltInvariant { s with status := .idle } := haltInvariant_of_active hactive
    exact hidle.kick_outcome umi

theorem HaltInvariant.yield_outcome (h : HaltInvariant s) (hslot : SlotInvariant [] s)
    (hpending : s.yieldVacates = true → .halt ∉ s.events) :
    Outcome s.yield HaltInvariant (·.concernsStatus = false) := by
  apply yield_outcome_of_target Abort.concernsStatus_of_isOther h
  · intro old hold hvacates hmem
    exact absurd hmem (hpending (hvacates (hslot.status_ne_empty hold)))
  · exact fun _ _ _ _ _ _ => haltInvariant_yieldTo_outcome rfl rfl
  · exact fun _ _ _ _ _ => haltInvariant_yieldTo_outcome rfl rfl

/-- A step that yields. -/
theorem HaltInvariant.yieldCall_outcome (h : HaltInvariant s) (hslot : SlotInvariant [] s)
    {a : Step} (hstatus : s.respectsStatus a = true) (hcall : s.yieldCall a = some t) :
    Outcome t.yield HaltInvariant (·.concernsStatus = false) := by
  have ht : HaltInvariant t :=
    of_yieldCall hcall h (fun _ => h.frame rfl List.mem_of_mem_eraseIdx)
      (fun _ _ _ => h.frame rfl fun h => h) (fun _ _ hu => hu.frame rfl fun h => h)
      fun _ _ hu => hu.frame rfl fun h => h
  have hpending : (s.yieldCall a).all (fun t => !(t.yieldVacates && t.events.contains .halt)) =
      true := by
    cases a with
    | start id => cases hcall
    | poll ns now => cases hcall
    | spawnHalt => cases hcall
    | _ => exact hstatus
  apply ht.yield_outcome (hslot.of_yieldCall hcall)
  intro hvacates hmem
  simp [hcall, hvacates, hmem] at hpending

theorem HaltInvariant.load_outcome (h : HaltInvariant s) :
    Outcome ((s.submit id).load id) HaltInvariant (·.concernsStatus = false) := by
  apply Core.load_outcome Abort.concernsStatus_of_isOther
  · exact fun _ => haltInvariant_of_active rfl
  · exact fun _ _ _ _ => haltInvariant_of_active rfl
  · exact fun _ => h.frame rfl fun h => h

/-- A guest that polls while its instance is executed. -/
theorem HaltInvariant.poll_outcome (h : HaltInvariant s) (guest : UmiId) (ns now : ℕ)
    (hstatus : s.respectsStatus (.poll ns now) = true)
    (hguest : s.status = .active ∨ s.status = .halting) :
    Outcome (s.poll guest ns now) HaltInvariant (·.concernsStatus = false) := by
  refine Core.poll_outcome Abort.concernsStatus_of_isOther h fun id hactive hdata => ?_
  have hrunning : s.status = .active := by
    refine hguest.resolve_right fun hhalting => ?_
    simp [respectsStatus, hhalting, hactive, hdata] at hstatus
  apply Core.block_outcome Abort.concernsStatus_of_isOther
  · exact fun hne _ => absurd hrunning hne
  · exact fun _ _ _ => rfl
  · exact fun _ => h.frame rfl fun h => h
  · exact fun _ _ _ _ _ _ => h.frame rfl fun h => h

theorem HaltInvariant.activateContext_outcome (h : HaltInvariant s) (hslot : SlotInvariant [] s)
    (hloop : AtLoop s) {ctx : EventContext} (hnull : ctx.umi ≠ nullId) :
    Outcome (s.activateContext ctx) HaltInvariant (·.concernsStatus = false) := by
  apply Core.activateContext_outcome
  · intro hentry
    have hactive : s.activeUmi = some ctx.umi := active_of_requestSlotEntry hnull hentry
    apply returnFromBlock_outcome Abort.concernsStatus_of_isOther
    · rintro (hs | hs)
      · exact absurd hs (hslot.status_ne_empty hactive)
      · exact absurd hs hloop.not_active
    · exact fun _ => h.frame rfl fun h => h
  · exact h.frame rfl fun h => h

theorem HaltInvariant.dispatch_outcome (h : HaltInvariant s) (hslot : SlotInvariant [] s)
    (hcontrol : ControlInvariant s) (hloop : AtLoop s) {i : ℕ}
    (hcall : s.yieldCall (.dispatch i) = none) :
    Outcome (s.dispatch i) HaltInvariant (·.concernsStatus = false) := by
  have hrest : HaltInvariant { s with events := s.events.eraseIdx i } :=
    h.frame rfl List.mem_of_mem_eraseIdx
  unfold dispatch
  cases he : s.events[i]? with
  | none => exact h
  | some e =>
    have hmem : e ∈ s.events := List.mem_of_getElem? he
    cases e with
    | yield => simp [yieldCall, he] at hcall
    | halt =>
      have hempty : s.status ≠ .empty := fun hs => h hmem (hslot.empty_iff.mp hs)
      exact haltInvariant_halt_outcome hempty hloop.not_finished
    | processOutgoing writer pkt =>
      apply Core.processOutgoing_outcome Abort.concernsStatus_of_isOther hrest
      · exact fun _ => hrest.frame rfl fun h => h
      · exact fun _ _ _ _ _ => hrest.frame rfl fun h => h
    | activateContext ctx =>
      have hknown := hcontrol.contexts.known ctx.umi (Or.inr ⟨ctx, hmem, rfl⟩)
      have hnull : ctx.umi ≠ nullId :=
        fun heq => hcontrol.contexts.null_not_submitted (heq ▸ hknown)
      exact hrest.activateContext_outcome (hslot.frame rfl rfl rfl rfl rfl rfl Iff.rfl)
        (hloop.frame rfl rfl) hnull
    | other => exact hrest

theorem HaltInvariant.exec_outcome (h : HaltInvariant s) (hslot : SlotInvariant [] s)
    (hcontrol : ControlInvariant s) {a : Step} (henabled : s.enabled a = true)
    (hstatus : s.respectsStatus a = true) :
    Outcome (s.exec a) HaltInvariant (·.concernsStatus = false) := by
  have hset : ∀ id x, HaltInvariant (s.setUmi id x) := fun _ _ => h.frame rfl fun h => h
  have hloop : a.isHypercall = false → AtLoop s :=
    fun ha => hcontrol.inControl.atLoop (guests_of_enabled henabled ha).1
  have hguest : a.isHypercall = true → s.status = .active ∨ s.status = .halting := by
    intro ha
    obtain ⟨g, gs, hguests⟩ := guests_of_enabled_hypercall henabled ha
    exact (hcontrol.inControl.of_guests hguests).2.2
  cases hcall : s.yieldCall a with
  | some t =>
    rw [exec_of_yieldCall hcall]
    exact h.yieldCall_outcome hslot hstatus hcall
  | none =>
    cases a with
    | load id => exact h.load_outcome
    | run id =>
      exact Core.run_outcome Abort.concernsStatus_of_isOther fun _ => haltInvariant_of_active rfl
    | start id =>
      have hloaded : s.status = .loaded := beq_iff_eq.mp (Bool.and_eq_true_iff.mp hstatus).1
      apply Core.processGateway_outcome Abort.concernsStatus_of_isOther
      · exact fun _ _ hactive => haltInvariant_of_active hactive
      · intro id call hhalting
        rw [hloaded] at hhalting
        cases hhalting
    | signalHalt id =>
      refine signalHalt_outcome Abort.concernsStatus_of_isOther hcall fun hactive => ?_
      exact haltInvariant_halt_outcome (hslot.status_ne_empty hactive) (hloop rfl).not_finished
    | signalYield id => exact signalYield_outcome h (h.spawnLocal fun h => by cases h)
    | signalResume id =>
      exact signalResume_outcome Abort.concernsStatus_of_isOther hcall fun _ => h.kick_outcome id
    | yield => cases hcall
    | spawnHalt =>
      intro _ hnone
      have hempty : s.status = .empty := hslot.empty_iff.mpr hnone
      simp [respectsStatus, hempty] at hstatus
    | spawnOther => exact h.spawnLocal fun h => by cases h
    | processIncoming id payload =>
      exact processIncoming_outcome Abort.concernsStatus_of_isOther hcall h
        fun x y _ _ => (hset x y).kick_outcome x
    | enqueuePacket id buf => exact hset id _
    | dispatch i => exact h.dispatch_outcome hslot hcontrol (hloop rfl) hcall
    | fire id now =>
      apply Core.fire_outcome
      · exact fun x _ _ _ => hset id x
      · exact fun x _ _ _ _ => (hset id x).kick_outcome id
    | poll ns now => exact h.poll_outcome s.guest ns now hstatus (hguest rfl)
    | netwrite pkt => exact h.spawnLocal fun h => by cases h
    | netread len =>
      exact Core.netread_outcome Abort.concernsStatus_of_isOther fun x y _ => hset x y
    | halt =>
      apply haltInvariant_halt_outcome
      · rcases hguest rfl with hs | hs <;> rw [hs] <;> decide
      · rcases hguest rfl with hs | hs <;> rw [hs] <;> decide

end Steps

/-- In a run whose steps respect the status, no step aborts for its sake, in whatever state it is
attempted. -/
theorem status_safe {as : List Step}
    (hstatus : AllSteps Core.step (fun s a => s.respectsStatus a = true) init as) :
    AllSteps Core.step StatusSafe init as := by
  refine allSteps_of_invariant
    (I := fun s => SlotInvariant [] s ∧ ControlInvariant s ∧ HaltInvariant s) ?_ ?_
    ⟨slotInvariant_init, controlInvariant_init, haltInvariant_init⟩ hstatus
  · rintro s a ha ⟨hslot, hcontrol, hhalt⟩ henabled e he
    exact (hhalt.exec_outcome hslot hcontrol henabled ha).of_eq_error he
  · rintro s a t ha ⟨hslot, hcontrol, hhalt⟩ hstep
    obtain ⟨henabled, hexec⟩ := step_eq_some.mp hstep
    exact ⟨hslot.step hstep, hcontrol.step hslot hstep,
      (hhalt.exec_outcome hslot hcontrol henabled ha).of_eq_ok hexec⟩

/-- Instance 2 halts with a packet pending and does not poll again. -/
theorem status_safe_halt : AllSteps Core.step StatusSafe init
    [.load 2, .start 2, .netwrite ⟨true, true, 1⟩, .halt, .netread 10] :=
  status_safe (by decide)

/-- Instance 2 halts with a packet pending, so that `Halt` returns to it, and polls: the status is
halting and cannot become idle. -/
theorem not_status_safe_of_poll : ¬ AllSteps Core.step StatusSafe init
    [.load 2, .start 2, .netwrite ⟨true, true, 1⟩, .halt, .poll 1000 0] := by
  decide

end Core

end Umm
