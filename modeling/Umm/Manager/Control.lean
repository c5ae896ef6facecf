import Umm.Manager.SlotInvariant

/-!
# Guests in control

Waking a blocked guest only schedules the activation of its saved context, and the slot may be
swapped, reloaded or halted before the activation is performed.  `InControl` says that a guest whose
code is in control is the guest of the active instance, in the load of the slot it was entered or
resumed in.  `ContextInvariant` follows the saved contexts: who they belong to, and that an instance
that was submitted only once has none before it is started.
-/

namespace Umm

open Foundations

namespace Core

/-- The instance `id` has a saved context, or one whose activation is pending. -/
def HasContext (s : Core) (id : UmiId) : Prop :=
  (∃ ctx, (s.umis id).context = some ctx) ∨
    ∃ ctx, .activateContext ctx ∈ s.events ∧ ctx.umi = id

/-- The event loop is in control. -/
structure AtLoop (s : Core) : Prop where
  /-- No guest is in control. -/
  guests : s.guests = []
  /-- The slot is not being executed. -/
  not_active : s.status ≠ .active
  /-- No snapshot is being taken. -/
  not_snapshot : s.status ≠ .snapshot
  /-- A finished instance has left the slot. -/
  not_finished : s.status ≠ .finished

/-- The event loop is in control, or one guest is: that of the active instance, since the last load
of the slot. -/
def InControl (s : Core) : Prop :=
  s.AtLoop ∨ ∃ id, s.guests = [⟨id, s.loads⟩] ∧ s.activeUmi = some id ∧
    (s.status = .active ∨ s.status = .halting)

/-- `Block` returned to the guest of the active instance, and the slot was idle, or else loaded with
an instance that had been submitted again. -/
def SoundReturn (s : Core) (r : BlockReturn) : Prop :=
  r.activeUmi = some r.guest ∧
    (r.status = .idle ∨ r.status = .loaded ∧ 2 ≤ s.submitted.count r.guest)

/-- The invariant of the saved contexts. -/
structure ContextInvariant (s : Core) : Prop where
  /-- No null instance is submitted. -/
  null_not_submitted : nullId ∉ s.submitted
  /-- The context an instance saved is that of its own guest. -/
  saved : ∀ id ctx, (s.umis id).context = some ctx → ctx.guest = id ∧ ctx.umi = id
  /-- A context whose activation is pending is that of its instance's guest. -/
  pending : ∀ ctx, .activateContext ctx ∈ s.events → ctx.guest = ctx.umi
  /-- Only submitted instances have contexts. -/
  known : ∀ id, s.HasContext id → id ∈ s.submitted
  /-- An instance that waits for its activation has no context, unless submitted again. -/
  promised : ∀ id, s.activationPromiseMap id = true → s.HasContext id → 2 ≤ s.submitted.count id
  /-- The returns of `Block` were sound. -/
  returns : ∀ r ∈ s.blockReturns, s.SoundReturn r

/-- An instance loaded but not started has no context, unless submitted again. -/
def LoadedFresh (s : Core) : Prop :=
  ∀ id, s.status = .loaded → s.activeUmi = some id → s.HasContext id → 2 ≤ s.submitted.count id

/-- What holds of guests and contexts between steps. -/
structure ControlInvariant (s : Core) : Prop where
  /-- Who is in control. -/
  inControl : s.InControl
  /-- The saved contexts. -/
  contexts : s.ContextInvariant
  /-- The loaded instance. -/
  loaded : s.LoadedFresh

/-- The invariant holds after boot. -/
theorem controlInvariant_init : ControlInvariant init where
  inControl := Or.inl ⟨rfl, by decide, by decide, by decide⟩
  contexts :=
    { null_not_submitted := List.not_mem_nil
      saved := fun _ _ h => by cases h
      pending := fun _ h => absurd h List.not_mem_nil
      known := fun _ h => by
        rcases h with ⟨_, h⟩ | ⟨_, h, -⟩
        · cases h
        · exact absurd h List.not_mem_nil
      promised := fun _ h => by cases h
      returns := fun _ h => absurd h List.not_mem_nil }
  loaded := fun _ h => by cases h

section Transformers

variable {s t : Core} {id : UmiId}

/-- The contexts do not care about the rest of the state, and may disappear. -/
theorem ContextInvariant.frame (h : ContextInvariant s)
    (hcontext : ∀ id ctx, (t.umis id).context = some ctx → (s.umis id).context = some ctx)
    (hevents : ∀ ctx, .activateContext ctx ∈ t.events → .activateContext ctx ∈ s.events)
    (hpromise : ∀ id, t.activationPromiseMap id = true → s.activationPromiseMap id = true)
    (hsubmitted : t.submitted = s.submitted) (hreturns : t.blockReturns = s.blockReturns) :
    ContextInvariant t := by
  have hhas : ∀ id, t.HasContext id → s.HasContext id := by
    rintro id (⟨_, hctx⟩ | ⟨ctx, hctx, hid⟩)
    · exact Or.inl ⟨_, hcontext id _ hctx⟩
    · exact Or.inr ⟨ctx, hevents ctx hctx, hid⟩
  exact {
    null_not_submitted := hsubmitted ▸ h.null_not_submitted
    saved := fun id ctx hctx => h.saved id ctx (hcontext id ctx hctx)
    pending := fun ctx hctx => h.pending ctx (hevents ctx hctx)
    known := fun id hid => hsubmitted ▸ h.known id (hhas id hid)
    promised := fun id hp hid => hsubmitted ▸ h.promised id (hpromise id hp) (hhas id hid)
    returns := fun r hr => by
      have hsound := h.returns r (hreturns ▸ hr)
      rwa [SoundReturn, hsubmitted] }

/-- Replacing the state of an instance keeps the contexts when its context is kept. -/
theorem context_setUmi {x : UmInstance} (hx : x.context = (s.umis id).context) (id' : UmiId) :
    ((s.setUmi id x).umis id').context = (s.umis id').context := by
  by_cases h : id' = id
  · subst h
    simpa [setUmi] using hx
  · simp [setUmi, h]

/-- Entering an instance changes only its saved frame. -/
theorem context_enter (frame : Option Call) (id' : UmiId) :
    ((s.enter id frame).umis id').context = (s.umis id').context :=
  context_setUmi (x := { s.umis id with callerRestoreFrame := frame }) rfl id'

/-- An instance may be set to one with the same context. -/
theorem ContextInvariant.setUmi (h : ContextInvariant s) {x : UmInstance}
    (hx : x.context = (s.umis id).context) : ContextInvariant (s.setUmi id x) :=
  h.frame (fun id' _ hctx => (context_setUmi hx id').symm.trans hctx) (fun _ h => h)
    (fun _ h => h) rfl rfl

/-- Spawning an event that activates no context. -/
theorem ContextInvariant.spawnLocal (h : ContextInvariant s) {e : Event}
    (he : ∀ ctx, e ≠ .activateContext ctx) : ContextInvariant (s.spawnLocal e) := by
  refine h.frame (fun _ _ h => h) (fun ctx hctx => ?_) (fun _ h => h) rfl rfl
  rcases List.mem_append.mp hctx with hctx | hctx
  · exact hctx
  · exact absurd (List.mem_singleton.mp hctx).symm (he ctx)

/-- Waking an instance makes no new context. -/
theorem ContextInvariant.hasContext_of_wake (h : ContextInvariant s) {ctx : EventContext}
    (hctx : (s.umis id).context = some ctx) {id' : UmiId} (hid' : (s.wake id ctx).HasContext id') :
    s.HasContext id' := by
  rcases hid' with ⟨ctx', hctx'⟩ | ⟨ctx', hctx', rfl⟩
  · refine Or.inl ⟨ctx', (context_setUmi ?_ id').symm.trans hctx'⟩
    rfl
  · rcases List.mem_append.mp hctx' with hctx' | hctx'
    · exact Or.inr ⟨ctx', hctx', rfl⟩
    · obtain rfl := Event.activateContext.inj (List.mem_singleton.mp hctx')
      exact Or.inl ⟨ctx', (h.saved id ctx' hctx).2 ▸ hctx⟩

/-- Waking an instance: its saved context becomes pending. -/
theorem ContextInvariant.wake (h : ContextInvariant s) {ctx : EventContext}
    (hctx : (s.umis id).context = some ctx) : ContextInvariant (s.wake id ctx) := by
  obtain ⟨hguest, humi⟩ := h.saved id ctx hctx
  have hcontext : ∀ id', ((s.wake id ctx).umis id').context = (s.umis id').context :=
    context_setUmi rfl
  have hevents : ∀ ctx', .activateContext ctx' ∈ (s.wake id ctx).events →
      .activateContext ctx' ∈ s.events ∨ ctx' = ctx := by
    intro ctx' hctx'
    rcases List.mem_append.mp hctx' with hctx' | hctx'
    · exact Or.inl hctx'
    · exact Or.inr (Event.activateContext.inj (List.mem_singleton.mp hctx'))
  have hhas : ∀ id', (s.wake id ctx).HasContext id' → s.HasContext id' :=
    fun id' => h.hasContext_of_wake hctx
  exact {
    null_not_submitted := h.null_not_submitted
    saved := fun id' ctx' hctx' => h.saved id' ctx' ((hcontext id').symm.trans hctx')
    pending := fun ctx' hctx' => by
      rcases hevents ctx' hctx' with hctx' | rfl
      · exact h.pending ctx' hctx'
      · exact hguest.trans humi.symm
    known := fun id' hid' => h.known id' (hhas id' hid')
    promised := fun id' hp hid' => h.promised id' hp (hhas id' hid')
    returns := h.returns }

/-- The only context that blocking makes is that of the instance itself. -/
theorem context_blockExecution {id' : UmiId} {ctx : EventContext}
    (hctx : ((s.blockExecution id id).umis id').context = some ctx) :
    id' = id ∧ ctx = ⟨id, id, s.contexts⟩ ∨ (s.umis id').context = some ctx := by
  by_cases hid : id' = id
  · subst hid
    left
    have hctx : some (⟨id', id', s.contexts⟩ : EventContext) = some ctx := by
      simpa [blockExecution, setUmi] using hctx
    exact ⟨rfl, (Option.some.inj hctx).symm⟩
  · right
    simpa [blockExecution, setUmi, hid] using hctx

/-- Only the instance that is blocked gets a context. -/
theorem hasContext_of_blockExecution {id' : UmiId}
    (hid' : (s.blockExecution id id).HasContext id') : id' = id ∨ s.HasContext id' := by
  rcases hid' with ⟨ctx, hctx⟩ | hpending
  · exact (context_blockExecution hctx).imp And.left fun hctx => Or.inl ⟨ctx, hctx⟩
  · exact Or.inr (Or.inr hpending)

/-- Saving the context of a guest in the instance `id`, which is known and waits for no
activation, unless submitted again. -/
theorem ContextInvariant.blockExecution (h : ContextInvariant s) (hknown : id ∈ s.submitted)
    (hpromise : s.activationPromiseMap id = true → 2 ≤ s.submitted.count id) :
    ContextInvariant (s.blockExecution id id) where
  null_not_submitted := h.null_not_submitted
  saved := by
    intro id' ctx hctx
    rcases context_blockExecution hctx with ⟨rfl, rfl⟩ | hctx
    · exact ⟨rfl, rfl⟩
    · exact h.saved id' ctx hctx
  pending := h.pending
  known := by
    intro id' hid'
    rcases hasContext_of_blockExecution hid' with rfl | hid'
    · exact hknown
    · exact h.known id' hid'
  promised := by
    intro id' hp hid'
    rcases hasContext_of_blockExecution hid' with rfl | hid'
    · exact hpromise hp
    · exact h.promised id' hp hid'
  returns := h.returns

/-- A sound return of `Block`. -/
theorem ContextInvariant.resume (h : ContextInvariant s) {guest : UmiId}
    (hactive : s.activeUmi = some guest)
    (hstatus : s.status = .idle ∨ s.status = .loaded ∧ 2 ≤ s.submitted.count guest) :
    ContextInvariant (s.resume guest) :=
  { h with
    returns := fun r hr => by
      rcases List.mem_cons.mp hr with rfl | hr
      · exact ⟨hactive, hstatus⟩
      · exact h.returns r hr }

/-- Submitting an instance: those that have a context have been submitted before. -/
theorem ContextInvariant.submit (h : ContextInvariant s) (hid : id ≠ nullId) :
    ContextInvariant (s.submit id) := by
  have hcount : ∀ id', s.submitted.count id' ≤ (s.submit id).submitted.count id' :=
    fun id' => List.count_le_count_cons
  exact {
    null_not_submitted := fun hmem => (List.mem_cons.mp hmem).elim (fun h => hid h.symm)
      h.null_not_submitted
    saved := h.saved
    pending := h.pending
    known := fun id' hid' => List.mem_cons_of_mem id (h.known id' hid')
    promised := fun id' hp hid' => Nat.le_trans (h.promised id' hp hid') (hcount id')
    returns := fun r hr =>
      ⟨(h.returns r hr).1,
        (h.returns r hr).2.imp_right fun hr => ⟨hr.1, Nat.le_trans hr.2 (hcount _)⟩⟩ }

/-- After its submission an instance that has a context has been submitted twice. -/
theorem ContextInvariant.two_le_count (h : ContextInvariant s) (hid : s.HasContext id) :
    2 ≤ (s.submit id).submitted.count id := by
  have hcount : 1 ≤ s.submitted.count id := List.one_le_count_iff.mpr (h.known id hid)
  change 2 ≤ (id :: s.submitted).count id
  rw [List.count_cons_self]
  omega

end Transformers

/-! ## Steps -/

section Steps

variable {s : Core} {id : UmiId}

/-- The event loop is in control in the other statuses. -/
theorem atLoop_of_status {status : Status} (hguests : s.guests = []) (hstatus : s.status = status)
    (hloop : (status == .active || status == .snapshot || status == .finished) = false) :
    AtLoop s := by
  subst hstatus
  refine ⟨hguests, ?_, ?_, ?_⟩ <;> intro h <;> simp [h] at hloop

/-- The event loop stays in control when the guests and the status stay. -/
theorem AtLoop.frame {t : Core} (h : AtLoop s) (hguests : t.guests = s.guests)
    (hstatus : t.status = s.status) : AtLoop t :=
  ⟨hguests.trans h.guests, hstatus ▸ h.not_active, hstatus ▸ h.not_snapshot,
    hstatus ▸ h.not_finished⟩

/-- The event loop is in control while no guest is. -/
theorem InControl.atLoop (h : InControl s) (hguests : s.guests = []) : AtLoop s := by
  rcases h with h | ⟨id, hid, -⟩
  · exact h
  · simp [hguests] at hid

/-- A guest in control is that of the active instance. -/
theorem InControl.of_guests (h : InControl s) {g : Guest} {gs : List Guest}
    (hguests : s.guests = g :: gs) : s.guests = [⟨g.id, s.loads⟩] ∧ s.activeUmi = some g.id ∧
      (s.status = .active ∨ s.status = .halting) := by
  rcases h with h | ⟨id, hid, hactive, hstatus⟩
  · simp [h.guests] at hguests
  · obtain ⟨rfl, rfl⟩ := List.cons.inj (hguests.symm.trans hid)
    exact ⟨hid, hactive, hstatus⟩

/-- The invariant is kept when guests, status, loads and slot stay and no context is added. -/
theorem ControlInvariant.frame {t : Core} (h : ControlInvariant s)
    (hguests : t.guests = s.guests) (hstatus : t.status = s.status) (hloads : t.loads = s.loads)
    (hactive : t.activeUmi = s.activeUmi)
    (hcontext : ∀ id ctx, (t.umis id).context = some ctx → (s.umis id).context = some ctx)
    (hevents : ∀ ctx, .activateContext ctx ∈ t.events → .activateContext ctx ∈ s.events)
    (hpromise : t.activationPromiseMap = s.activationPromiseMap)
    (hsubmitted : t.submitted = s.submitted) (hreturns : t.blockReturns = s.blockReturns) :
    ControlInvariant t where
  inControl := by
    rw [InControl, hguests, hloads, hactive, hstatus]
    exact h.inControl.imp_left fun h => h.frame hguests hstatus
  contexts := h.contexts.frame hcontext hevents (fun _ => by rw [hpromise]; exact id) hsubmitted
    hreturns
  loaded := by
    rintro id hs ha (⟨ctx, hctx⟩ | ⟨ctx, hctx, hid⟩)
    · exact hsubmitted ▸ h.loaded id (hstatus ▸ hs) (hactive ▸ ha) (Or.inl ⟨ctx, hcontext id ctx hctx⟩)
    · exact hsubmitted ▸ h.loaded id (hstatus ▸ hs) (hactive ▸ ha)
        (Or.inr ⟨ctx, hevents ctx hctx, hid⟩)

/-- Outside the status `loaded` nothing is asked of the loaded instance. -/
theorem loadedFresh_of_ne (h : s.status ≠ .loaded) : LoadedFresh s :=
  fun _ hs => absurd hs h

/-- `Kick` keeps the invariant. -/
theorem ControlInvariant.kick_outcome (h : ControlInvariant s) (id : UmiId) :
    Outcome (s.kick id) ControlInvariant fun _ => True := by
  refine Core.kick_outcome (fun _ _ => trivial) h fun ctx _ hctx => ?_
  exact {
    inControl := h.inControl.imp_left fun h => h.frame rfl rfl
    contexts := h.contexts.wake hctx
    loaded := fun id' hs ha hid' => h.loaded id' hs ha (h.contexts.hasContext_of_wake hctx hid') }

/-- `Halt` keeps the invariant. -/
theorem ContextInvariant.halt_outcome (h : ContextInvariant s) (hcontrol : InControl s) :
    Outcome s.halt ControlInvariant fun _ => True := by
  have hhalting : ∀ id, ContextInvariant (s.setHalting id) := by
    intro id
    exact h.frame (fun id' ctx hctx => (context_setUmi (by simp) id').symm.trans hctx)
      (fun _ h => h) (fun _ h => h) rfl rfl
  refine Core.halt_outcome (fun _ _ => trivial) (fun _ => trivial) (fun _ => trivial) ?_ ?_
  · intro id _ _ _ _
    refine ⟨?_, (hhalting id).spawnLocal fun _ h => (by cases h), loadedFresh_of_ne ?_⟩
    · rcases hcontrol with hloop | ⟨id', hguests, hactive, -⟩
      · exact Or.inl (atLoop_of_status hloop.guests rfl rfl)
      · exact Or.inr ⟨id', hguests, hactive, Or.inr rfl⟩
    · exact fun h => by cases h
  · intro id call _ _ _ hevents _
    refine ⟨Or.inl (atLoop_of_status rfl rfl rfl), ?_, loadedFresh_of_ne fun h => by cases h⟩
    refine (hhalting id).frame (fun _ _ h => h) (fun ctx hctx => ?_) (fun _ h => h) rfl rfl
    exact (mem_events_spawnYieldAfter hctx).resolve_right fun h => by cases h

/-- The end of a yield: the loaded instance `next` is new to the slot if its activation was
promised. -/
theorem ContextInvariant.yieldTo_outcome {next : UmiId} (h : ContextInvariant s) (hloop : AtLoop s)
    (hloaded : s.status = .loaded) (hactive : s.activeUmi = some next) :
    Outcome (s.yieldTo next) ControlInvariant fun _ => True := by
  refine Core.yieldTo_outcome hloaded hactive (fun hp => ?_) (fun _ _ => ?_) fun _ => ?_
  · refine ⟨Or.inl (hloop.frame rfl rfl), ?_, ?_⟩
    · refine h.frame (fun _ _ h => h) (fun _ h => h) (fun id hid => ?_) rfl rfl
      by_cases heq : id = next
      · exact heq ▸ hp
      · simpa [Function.update_of_ne heq] using hid
    · intro id _ ha hid
      obtain rfl : next = id := Option.some.inj (hactive.symm.trans ha)
      exact h.promised next hp hid
  · have hidle : ContextInvariant { s with
        status := .idle
        inactiveUmiHaltMap := Function.update s.inactiveUmiHaltMap next false } :=
      h.frame (fun _ _ h => h) (fun _ h => h) (fun _ h => h) rfl rfl
    exact hidle.halt_outcome (Or.inl (atLoop_of_status hloop.guests rfl rfl))
  · have hidle : ControlInvariant { s with status := .idle } :=
      ⟨Or.inl (atLoop_of_status hloop.guests rfl rfl),
        h.frame (fun _ _ h => h) (fun _ h => h) (fun _ h => h) rfl rfl,
        loadedFresh_of_ne fun h => by cases h⟩
    exact hidle.kick_outcome next

/-- `Yield` keeps the invariant, called by the event loop. -/
theorem ControlInvariant.yield_outcome (h : ControlInvariant s) (hslot : SlotInvariant [] s)
    (hguests : s.guests = []) : Outcome s.yield ControlInvariant fun _ => True := by
  refine Core.yield_outcome (fun _ _ => trivial) (fun _ => h) (fun old _ _ _ _ => ?_)
    (fun next umi old _ _ _ _ humi => ?_) fun next umi _ _ humi => ?_
  · exact ⟨Or.inl (atLoop_of_status hguests rfl rfl),
      h.contexts.frame (fun _ _ h => h) (fun _ h => h) (fun _ h => h) rfl rfl,
      loadedFresh_of_ne fun h => by cases h⟩
  · obtain rfl := hslot.inactive_eq next umi humi
    refine ContextInvariant.yieldTo_outcome ?_ (atLoop_of_status hguests rfl rfl) rfl rfl
    exact h.contexts.frame (fun _ _ h => h) (fun _ h => h) (fun _ h => h) rfl rfl
  · obtain rfl := hslot.inactive_eq next umi humi
    refine ContextInvariant.yieldTo_outcome ?_ (atLoop_of_status hguests rfl rfl) rfl rfl
    exact h.contexts.frame (fun _ _ h => h) (fun _ h => h) (fun _ h => h) rfl rfl

/-- `process_gateway` keeps the invariant. -/
theorem ControlInvariant.processGateway_outcome (h : ControlInvariant s) (frame : Option Call) :
    Outcome (s.processGateway frame) ControlInvariant fun _ => True := by
  refine Core.processGateway_outcome (fun _ _ => trivial) ?_ ?_
  · intro id _ hactive
    refine ⟨Or.inr ⟨id, rfl, hactive, Or.inl rfl⟩, ?_, loadedFresh_of_ne fun h => by cases h⟩
    exact h.contexts.frame (fun id' ctx hctx => (context_enter frame id').symm.trans hctx)
      (fun _ h => h) (fun _ h => h) rfl rfl
  · intro id call _ _ _
    refine ⟨Or.inl (atLoop_of_status rfl rfl rfl), ?_, loadedFresh_of_ne fun h => by cases h⟩
    refine h.contexts.frame (fun _ _ h => h) (fun ctx hctx => ?_) (fun _ h => h) rfl rfl
    exact (mem_events_spawnYieldAfter hctx).resolve_right fun h => by cases h

/-- `Load` keeps the invariant. -/
theorem ControlInvariant.load_outcome (h : ControlInvariant s) (hguests : s.guests = [])
    (hid : id ≠ nullId) : Outcome ((s.submit id).load id) ControlInvariant fun _ => True := by
  have hsubmit := h.contexts.submit hid
  have hfresh : ∀ t : Core, t.umis = s.umis → t.events = s.events → t.activeUmi = some id →
      t.submitted = (s.submit id).submitted → t.LoadedFresh := by
    intro t humis hevents hactive hsubmitted id' _ ha hhas
    obtain rfl : id = id' := Option.some.inj (hactive.symm.trans ha)
    rw [hsubmitted]
    refine h.contexts.two_le_count ?_
    rwa [HasContext, humis, hevents] at hhas
  refine Core.load_outcome (fun _ _ => trivial) (fun _ => ?_) (fun old _ _ _ => ?_) fun _ => ?_
  · exact ⟨Or.inl (atLoop_of_status hguests rfl rfl),
      hsubmit.frame (fun _ _ h => h) (fun _ h => h) (fun _ h => h) rfl rfl, hfresh _ rfl rfl rfl rfl⟩
  · exact ⟨Or.inl (atLoop_of_status hguests rfl rfl),
      hsubmit.frame (fun _ _ h => h) (fun _ h => h) (fun _ h => h) rfl rfl, hfresh _ rfl rfl rfl rfl⟩
  · refine ⟨Or.inl ((h.inControl.atLoop hguests).frame rfl rfl), ?_, ?_⟩
    · refine { hsubmit with promised := fun id' hp hhas => ?_ }
      by_cases heq : id' = id
      · subst heq
        exact h.contexts.two_le_count hhas
      · refine hsubmit.promised id' ?_ hhas
        have hp : Function.update s.activationPromiseMap id true id' = true := hp
        rwa [Function.update_of_ne heq] at hp
    · intro id' hs ha hhas
      exact Nat.le_trans (h.loaded id' hs ha hhas) List.count_le_count_cons

/-- `Run` keeps the invariant. -/
theorem ControlInvariant.run_outcome (h : ControlInvariant s) (hid : id ≠ nullId) :
    Outcome ((s.submit id).run id) ControlInvariant fun _ => True := by
  refine Core.run_outcome (fun _ _ => trivial) fun _ => ?_
  refine ⟨Or.inr ⟨id, rfl, rfl, Or.inl rfl⟩, ?_, loadedFresh_of_ne fun h => by cases h⟩
  have hcontext : ∀ id', ((((s.submit id).occupy id).enter id (some (.run id))).umis id').context =
      (s.umis id').context := context_enter _
  exact (h.contexts.submit hid).frame (fun id' ctx hctx => (hcontext id').symm.trans hctx)
    (fun _ h => h) (fun _ h => h) rfl rfl

/-- Replacing the state of an instance by one with the same context. -/
theorem ControlInvariant.setUmi (h : ControlInvariant s) {x : UmInstance}
    (hx : x.context = (s.umis id).context) : ControlInvariant (s.setUmi id x) :=
  h.frame rfl rfl rfl rfl (fun id' _ hctx => (context_setUmi hx id').symm.trans hctx)
    (fun _ h => h) rfl rfl rfl

/-- Spawning an event that activates no context. -/
theorem ControlInvariant.spawnLocal (h : ControlInvariant s) {e : Event}
    (he : ∀ ctx, e ≠ .activateContext ctx) : ControlInvariant (s.spawnLocal e) := by
  refine h.frame rfl rfl rfl rfl (fun _ _ h => h) (fun ctx hctx => ?_) rfl rfl rfl
  rcases List.mem_append.mp hctx with hctx | hctx
  · exact hctx
  · exact absurd (List.mem_singleton.mp hctx).symm (he ctx)

/-- Up to the call of `Yield`, a step that yields keeps the invariant. -/
theorem ControlInvariant.of_yieldCall (h : ControlInvariant s) {t : Core} {a : Step}
    (hcall : s.yieldCall a = some t) : ControlInvariant t :=
  Core.of_yieldCall hcall h
    (fun _ => h.frame rfl rfl rfl rfl (fun _ _ h => h) (fun _ h => List.mem_of_mem_eraseIdx h) rfl
      rfl rfl)
    (fun _ _ hy => h.setUmi hy.context)
    (fun _ _ hu => hu.frame rfl rfl rfl rfl (fun _ _ h => h) (fun _ h => h) rfl rfl rfl)
    (fun _ _ hu => hu.frame rfl rfl rfl rfl (fun _ _ h => h) (fun _ h => h) rfl rfl rfl)

/-- The hypercall `poll` keeps the invariant. -/
theorem ControlInvariant.poll_outcome (h : ControlInvariant s) (hslot : SlotInvariant [] s)
    {g : Guest} {gs : List Guest} (hguests : s.guests = g :: gs) (ns now : ℕ) :
    Outcome (s.poll g.id ns now) ControlInvariant fun _ => True := by
  obtain ⟨-, hactive, -⟩ := h.inControl.of_guests hguests
  have hidle : ContextInvariant { s with status := .idle } :=
    h.contexts.frame (fun _ _ h => h) (fun _ h => h) (fun _ h => h) rfl rfl
  refine Core.poll_outcome (fun _ _ => trivial) h fun _ _ _ => ?_
  refine Core.block_outcome (fun _ _ => trivial) (fun _ _ => trivial) (fun _ _ _ => trivial)
    (fun _ => ?_) ?_
  · exact ⟨Or.inr ⟨g.id, rfl, hactive, Or.inl rfl⟩, hidle.resume hactive (Or.inl rfl),
      loadedFresh_of_ne fun h => by cases h⟩
  · intro id x _ hid hx _
    obtain rfl : g.id = id := Option.some.inj (hactive.symm.trans hid)
    refine ⟨Or.inl (atLoop_of_status rfl rfl rfl), ?_, loadedFresh_of_ne fun h => by cases h⟩
    have hsame : ContextInvariant ({ s with status := .idle }.setUmi g.id x) :=
      hidle.setUmi hx.context
    refine hsame.blockExecution (hslot.mem_submitted_of_active hactive) fun hp => ?_
    -- a promised instance is queued, so it is not the active one
    have hmem := (hslot.promise_mem g.id hp).resolve_right List.not_mem_nil
    exact absurd hmem (hslot.active_not_mem g.id hactive)

/-- The activation of a context that is known: either its guest gets control, or it blocks again. -/
theorem ControlInvariant.activateContext_outcome (h : ControlInvariant s) (hguests : s.guests = [])
    {ctx : EventContext} (hguest : ctx.guest = ctx.umi) (hknown : ctx.umi ∈ s.submitted)
    (hpromise : s.activationPromiseMap ctx.umi = true → 2 ≤ s.submitted.count ctx.umi)
    (hloaded : s.status = .loaded → s.activeUmi = some ctx.umi →
      2 ≤ s.submitted.count ctx.umi) :
    Outcome (s.activateContext ctx) ControlInvariant fun _ => True := by
  have hloop := h.inControl.atLoop hguests
  have hcleared : ControlInvariant (s.setUmi ctx.umi { s.umis ctx.umi with context := none }) := by
    refine h.frame rfl rfl rfl rfl (fun id ctx' hctx' => ?_) (fun _ h => h) rfl rfl rfl
    by_cases hid : id = ctx.umi
    · simp [Core.setUmi, hid] at hctx'
    · simpa [Core.setUmi, hid] using hctx'
  refine Core.activateContext_outcome (fun hentry => ?_) ?_
  · have hnull : ctx.umi ≠ nullId := fun heq => h.contexts.null_not_submitted (heq ▸ hknown)
    have hactive : s.activeUmi = some ctx.umi := active_of_requestSlotEntry hnull hentry
    refine returnFromBlock_outcome (fun _ _ => trivial) (fun _ => trivial) fun hstatus => ?_
    rw [hguest]
    refine ⟨Or.inr ⟨ctx.umi, rfl, hactive, Or.inl rfl⟩, hcleared.contexts.resume hactive ?_,
      loadedFresh_of_ne fun h => by cases h⟩
    rcases hstatus with hs | hs | hs
    · exact Or.inr ⟨hs, hloaded hs hactive⟩
    · exact absurd hs hloop.not_snapshot
    · exact Or.inl hs
  · rw [hguest]
    refine ⟨Or.inl (hloop.frame hguests.symm rfl), hcleared.contexts.blockExecution hknown hpromise,
      ?_⟩
    intro id hs ha hid
    rcases hasContext_of_blockExecution hid with rfl | hid
    · exact hloaded hs ha
    · exact hcleared.loaded id hs ha hid

/-- An event keeps the invariant. -/
theorem ControlInvariant.dispatch_outcome (h : ControlInvariant s) (hslot : SlotInvariant [] s)
    (hguests : s.guests = []) (i : ℕ) :
    Outcome (s.dispatch i) ControlInvariant fun _ => True := by
  unfold dispatch
  cases he : s.events[i]? with
  | none => exact h
  | some e =>
    have hmem : e ∈ s.events := List.mem_of_getElem? he
    have hrest : ControlInvariant { s with events := s.events.eraseIdx i } :=
      h.frame rfl rfl rfl rfl (fun _ _ h => h) (fun _ h => List.mem_of_mem_eraseIdx h) rfl rfl rfl
    cases e with
    | yield => exact hrest.yield_outcome (hslot.frame rfl rfl rfl rfl rfl rfl Iff.rfl) hguests
    | halt => exact hrest.contexts.halt_outcome hrest.inControl
    | processOutgoing writer pkt =>
      refine Core.processOutgoing_outcome (fun _ _ => trivial) hrest (fun _ => ?_) fun x y _ hy _ => ?_
      · exact hrest.frame rfl rfl rfl rfl (fun _ _ h => h) (fun _ h => h) rfl rfl rfl
      · have hsent : ControlInvariant { s with
            events := s.events.eraseIdx i
            sent := (writer, s.proxyUmi) :: s.sent } :=
          hrest.frame rfl rfl rfl rfl (fun _ _ h => h) (fun _ h => h) rfl rfl rfl
        exact hsent.setUmi hy.context
    | activateContext ctx =>
      have hcontext : s.HasContext ctx.umi := Or.inr ⟨ctx, hmem, rfl⟩
      exact hrest.activateContext_outcome hguests (h.contexts.pending ctx hmem)
        (h.contexts.known ctx.umi hcontext) (fun hp => h.contexts.promised ctx.umi hp hcontext)
        fun hs ha => h.loaded ctx.umi hs ha hcontext
    | other => exact hrest

/-- Every step that is enabled keeps the invariant. -/
theorem ControlInvariant.exec_outcome (h : ControlInvariant s) (hslot : SlotInvariant [] s)
    {a : Step} (henabled : s.enabled a = true) :
    Outcome (s.exec a) ControlInvariant fun _ => True := by
  have hloop : a.isHypercall = false → s.guests = [] := fun ha => (guests_of_enabled henabled ha).1
  have hnull : ∀ id, s.free id = true → id ≠ nullId := by
    intro id hfree heq
    simp [free, heq] at hfree
  cases hcall : s.yieldCall a with
  | some t =>
    rw [exec_of_yieldCall hcall]
    have hguests : t.guests = [] :=
      Core.of_yieldCall hcall (P := fun u => u.guests = []) (hloop (isHypercall_of_yieldCall hcall))
        (fun _ => hloop (isHypercall_of_yieldCall hcall))
        (fun _ _ _ => hloop (isHypercall_of_yieldCall hcall)) (fun _ _ hu => hu) fun _ _ hu => hu
    exact (h.of_yieldCall hcall).yield_outcome (hslot.of_yieldCall hcall) hguests
  | none =>
    cases a with
    | load id =>
      obtain ⟨hguests, hfree⟩ := guests_of_enabled henabled rfl
      exact h.load_outcome hguests (hnull id hfree)
    | run id => exact h.run_outcome (hnull id (guests_of_enabled henabled rfl).2)
    | start id => exact h.processGateway_outcome _
    | signalHalt id =>
      exact signalHalt_outcome (fun _ _ => trivial) hcall
        fun _ => h.contexts.halt_outcome h.inControl
    | signalYield id => exact signalYield_outcome h (h.spawnLocal fun _ h => by cases h)
    | signalResume id =>
      exact signalResume_outcome (fun _ _ => trivial) hcall fun _ => h.kick_outcome id
    | yield => cases hcall
    | spawnHalt => exact h.spawnLocal fun _ h => by cases h
    | spawnOther => exact h.spawnLocal fun _ h => by cases h
    | processIncoming id payload =>
      exact processIncoming_outcome (fun _ _ => trivial) hcall h
        fun x y _ hy => (h.setUmi hy.context).kick_outcome x
    | enqueuePacket id buf => exact h.setUmi rfl
    | dispatch i => exact h.dispatch_outcome hslot (hloop rfl) i
    | fire id now =>
      exact Core.fire_outcome (fun x hx _ _ => h.setUmi hx.context)
        fun x hx _ _ _ => (h.setUmi hx.context).kick_outcome id
    | poll ns now =>
      obtain ⟨g, gs, hguests⟩ := guests_of_enabled_hypercall henabled rfl
      change Outcome (s.poll s.guest ns now) ControlInvariant _
      rw [guest, hguests]
      exact h.poll_outcome hslot hguests ns now
    | netwrite pkt => exact h.spawnLocal fun _ h => by cases h
    | netread len =>
      exact Core.netread_outcome (fun _ _ => trivial) fun x y hy => h.setUmi hy.context
    | halt => exact h.contexts.halt_outcome h.inControl

/-- So every step of the machine keeps it. -/
theorem ControlInvariant.step {t : Core} {a : Step} (h : ControlInvariant s)
    (hslot : SlotInvariant [] s) (hstep : s.step a = some t) : ControlInvariant t := by
  obtain ⟨henabled, hexec⟩ := step_eq_some.mp hstep
  exact (h.exec_outcome hslot henabled).of_eq_ok hexec

end Steps

/-- A queued instance can be looked up. -/
theorem getInstance_of_mem_queue {s : Core} {id : UmiId} (hslot : SlotInvariant [] s)
    (hcontrol : ControlInvariant s) (hmem : id ∈ s.idleUmiQueue) : s.getInstance id = some id :=
  hslot.getInstance_of_mem hcontrol.contexts.null_not_submitted hmem

/-- The invariant holds in every state a run reaches. -/
theorem ControlInvariant.of_run {as : List Step} {t : Core}
    (hrun : Foundations.run Core.step init as = some t) : ControlInvariant t := by
  have hboth : SlotInvariant [] t ∧ ControlInvariant t :=
    run_invariant' (I := fun s => SlotInvariant [] s ∧ ControlInvariant s)
      (fun _ _ _ hs hs' => ⟨hs.1.step hs', hs.2.step hs.1 hs'⟩)
      ⟨slotInvariant_init, controlInvariant_init⟩ hrun
  exact hboth.2

/-- In every state a run reaches, at most one guest is in control; it is the guest of the active
instance, and the slot has not been loaded since the guest was last entered or resumed.  `Block`
has returned only to the guest of the active instance, and only while the slot was idle, or loaded
with an instance that was submitted more than once. -/
theorem slot_exclusive {as : List Step} {t : Core}
    (hrun : Foundations.run Core.step init as = some t) :
    t.guests.length ≤ 1 ∧
    (∀ g ∈ t.guests, t.activeUmi = some g.id ∧ g.generation = t.loads) ∧
    ∀ r ∈ t.blockReturns, r.activeUmi = some r.guest ∧
      (r.status = .idle ∨ r.status = .loaded ∧ 2 ≤ t.submitted.count r.guest) := by
  have ht := ControlInvariant.of_run hrun
  refine ⟨?_, ?_, ht.contexts.returns⟩
  · rcases ht.inControl with hloop | ⟨id, hid, -⟩
    · simp [hloop.guests]
    · simp [hid]
  · intro g hg
    rcases ht.inControl with hloop | ⟨id, hid, hactive, -⟩
    · simp [hloop.guests] at hg
    · rw [hid, List.mem_singleton] at hg
      exact hg ▸ ⟨hactive, rfl⟩

/-- Instance 2 blocks twice: the first time instance 3 is swapped in before its context is
activated, so that it blocks again, the second time it is resumed. -/
theorem slot_exclusive_swap : ∃ t, Foundations.run Core.step init
    [.load 2, .start 2, .netwrite ⟨true, true, 1⟩, .poll 1000 0, .dispatch 0, .signalResume 2,
      .load 3, .dispatch 0, .start 3] = some t ∧ ∀ g ∈ t.guests, t.activeUmi = some g.id := by
  obtain ⟨t, ht⟩ : ∃ t, Foundations.run Core.step init
      [.load 2, .start 2, .netwrite ⟨true, true, 1⟩, .poll 1000 0, .dispatch 0, .signalResume 2,
        .load 3, .dispatch 0, .start 3] = some t := ⟨_, rfl⟩
  exact ⟨t, ht, fun g hg => ((slot_exclusive ht).2.1 g hg).1⟩

/-- The status need not be idle: instance 2 is halted while it is blocked, submitted again, and
resumed before it is started. -/
theorem not_idle_of_second_submission : ∃ t, Foundations.run Core.step init
    [.load 2, .start 2, .poll 1000 0, .signalHalt 2, .load 2, .signalResume 2, .dispatch 0] =
      some t ∧
    ∃ r ∈ t.blockReturns, r.status ≠ .idle := by
  refine ⟨_, rfl, ⟨2, .loaded, some 2⟩, ?_, by decide⟩
  exact List.mem_cons_self

end Core

end Umm
