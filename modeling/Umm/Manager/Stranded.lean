import Mathlib.Data.List.Perm.Basic
import Umm.Manager.Control

/-!
# Runnable instances

While the slot is empty, an active instance of the queue is only loaded by a yield.  The end of
`Start` spawns one when instances are queued, the end of `Run` does not: an instance that `Run` gets
back may leave others behind in the queue, active and without a yield pending.
-/

namespace Umm

open Foundations

namespace Core

/-- No runnable instance is stranded: while the slot is empty and an active instance is queued, a
yield is pending. -/
def NotStranded (s : Core) : Prop :=
  s.status = .empty → ∀ id ∈ s.idleUmiQueue, (s.umis id).active = true → .yield ∈ s.events

/-- The state in which a step calls `Yield` or `Halt`: the event it performs has been taken. -/
def callState (s : Core) (a : Step) : Core :=
  match s.yieldCall a, a with
  | some t, _ => t
  | none, .dispatch i => { s with events := s.events.eraseIdx i }
  | none, _ => s

/-- The step calls `Halt` without a yield. -/
def callsHalt (s : Core) : Step → Bool
  | .halt => true
  | .signalHalt id => s.activeUmi == some id
  | .dispatch i => s.events[i]? == some .halt
  | _ => false

/-- The instance that a step halts: the active one, or the one that its yield loads, when it is to be
halted and waits for no activation. -/
def haltTarget (s : Core) (a : Step) : Option UmiId :=
  match s.yieldCall a with
  | some t =>
    t.yieldTarget.filter fun next => !t.activationPromiseMap next && t.inactiveUmiHaltMap next
  | none => if s.callsHalt a then s.activeUmi else none

/-- The instance that a step hands back.  `Halt` hands it back when no event is pending, the
breakpoint exception of `Start` when the slot is halting. -/
def leavingUmi (s : Core) (a : Step) : Option UmiId :=
  match a with
  | .start _ => if s.status = .halting then s.activeUmi else none
  | a => if (s.callState a).events = [] then s.haltTarget a else none

/-- When the instance `id` is handed back to a `Run`, no other queued instance is active, or a yield
is pending. -/
def leavesNone (s : Core) (id : UmiId) : Bool :=
  match (s.umis id).callerRestoreFrame with
  | some (.run _) =>
    s.events.contains .yield || s.idleUmiQueue.all fun x => x == id || !(s.umis x).active
  | _ => true

/-- What a step has to respect: an instance it hands back to a `Run` leaves no active one behind. -/
def runLeavesNone (s : Core) (a : Step) : Bool :=
  (s.leavingUmi a).all (s.callState a).leavesNone

section Transformers

variable {s t : Core} {id : UmiId}

theorem notStranded_of_ne (h : s.status ≠ .empty) : NotStranded s :=
  fun hempty => absurd hempty h

/-- Instances may become inactive, and events may be spawned. -/
theorem NotStranded.frame (h : NotStranded s) (hstatus : t.status = s.status)
    (hqueue : t.idleUmiQueue = s.idleUmiQueue)
    (hactive : ∀ id, (t.umis id).active = true → (s.umis id).active = true)
    (hevents : .yield ∈ s.events → .yield ∈ t.events) : NotStranded t :=
  fun hempty id hid ha => hevents (h (hstatus ▸ hempty) id (hqueue ▸ hid) (hactive id ha))

theorem active_setUmi {x : UmInstance} (hx : x.active = true → (s.umis id).active = true)
    (id' : UmiId) (h : ((s.setUmi id x).umis id').active = true) : (s.umis id').active = true := by
  by_cases hid : id' = id
  · subst hid
    exact hx (by simpa [setUmi] using h)
  · simpa [setUmi, hid] using h

theorem NotStranded.setUmi (h : NotStranded s) {x : UmInstance}
    (hx : x.active = true → (s.umis id).active = true) : NotStranded (s.setUmi id x) :=
  h.frame rfl rfl (active_setUmi hx) fun h => h

theorem NotStranded.spawnLocal (h : NotStranded s) (e : Event) : NotStranded (s.spawnLocal e) :=
  h.frame rfl rfl (fun _ h => h) (List.mem_append_left _)

/-- Performing an event other than a yield. -/
theorem NotStranded.erase (h : NotStranded s) {i : ℕ} {e : Event} (he : s.events[i]? = some e)
    (hne : e ≠ .yield) : NotStranded { s with events := s.events.eraseIdx i } := by
  refine h.frame rfl rfl (fun _ h => h) fun hmem => ?_
  obtain ⟨hi, rfl⟩ := List.getElem?_eq_some_iff.mp he
  rw [← (List.getElem_cons_eraseIdx_perm hi).mem_iff] at hmem
  exact (List.mem_cons.mp hmem).resolve_left hne.symm

/-- The end of `Start` spawns a yield when instances are queued; that of `Run` does not. -/
theorem notStranded_release {call : Call}
    (hrun : ∀ c, call = .run c →
      .yield ∈ s.events ∨ ∀ x ∈ s.idleUmiQueue, (s.umis x).active = false) :
    NotStranded (s.release id call) := by
  intro _ x hx hactive
  change .yield ∈ (s.spawnYieldAfter call).events
  unfold spawnYieldAfter
  cases call with
  | start c =>
    have hqueue : s.idleUmiQueue.length ≠ 0 := by
      intro hnil
      have hmem : x ∈ s.idleUmiQueue := hx
      simp [List.length_eq_zero_iff.mp hnil] at hmem
    simp only [if_pos hqueue]
    exact List.mem_append_right _ (List.mem_singleton_self _)
  | run c =>
    rcases hrun c rfl with hmem | hnone
    · exact hmem
    · have hinactive := hnone x hx
      simp [show (s.umis x).active = true from hactive] at hinactive

end Transformers

/-! ## Steps -/

section Steps

variable {s : Core} {id : UmiId}

theorem NotStranded.kick_outcome (h : NotStranded s) (id : UmiId) :
    Outcome (s.kick id) NotStranded fun _ => True := by
  refine Core.kick_outcome (fun _ _ => trivial) h fun ctx _ _ => ?_
  have hset : NotStranded (s.setUmi id { s.umis id with blocked := false }.disableTimer) :=
    h.setUmi fun h => h
  exact hset.frame rfl rfl (fun _ h => h) (List.mem_append_left _)

/-- `Halt`: when the active instance is handed back to a `Run`, the queued ones are inactive. -/
theorem notStranded_halt_outcome (hslot : ∀ id, s.activeUmi = some id → id ∉ s.idleUmiQueue)
    (hrun : ∀ id c, s.activeUmi = some id → s.events = [] →
      (s.umis id).callerRestoreFrame = some (.run c) →
      ∀ x ∈ s.idleUmiQueue, (s.umis x).active = false) :
    Outcome s.halt NotStranded fun _ => True := by
  refine Core.halt_outcome (fun _ _ => trivial) (fun _ => trivial) (fun _ => trivial) ?_ ?_
  · intro id _ _ _ _
    exact notStranded_of_ne fun h => by cases h
  · intro id call _ _ hactive hevents hframe
    refine notStranded_release fun c hc => Or.inr fun x hx => ?_
    have hne : x ≠ id := fun heq => hslot id hactive (heq ▸ hx)
    have hold := hrun id c hactive hevents (hc ▸ hframe) x hx
    simpa [removeInstanceState, setHalting, setUmi, hne] using hold

/-- The end of a yield that loaded `next`. -/
theorem notStranded_yieldTo_outcome {next : UmiId} (hloaded : s.status = .loaded)
    (hactive : s.activeUmi = some next) (hslot : next ∉ s.idleUmiQueue)
    (hrun : s.activationPromiseMap next = false → s.inactiveUmiHaltMap next = true →
      ∀ c, s.events = [] → (s.umis next).callerRestoreFrame = some (.run c) →
      ∀ x ∈ s.idleUmiQueue, (s.umis x).active = false) :
    Outcome (s.yieldTo next) NotStranded fun _ => True := by
  refine Core.yieldTo_outcome hloaded hactive (fun _ => ?_) (fun hp hh => ?_) fun _ => ?_
  · exact notStranded_of_ne fun h => by simp [hloaded] at h
  · refine notStranded_halt_outcome (fun id hid => ?_) fun id c hid hevents hframe => ?_
    · exact Option.some.inj (hactive.symm.trans hid) ▸ hslot
    · obtain rfl : next = id := Option.some.inj (hactive.symm.trans hid)
      exact hrun hp hh c hevents hframe
  · have hidle : NotStranded { s with status := .idle } := notStranded_of_ne fun h => by cases h
    exact hidle.kick_outcome next

/-- An instance that a yield does not find is not active. -/
theorem inactive_of_findEligible (hslot : SlotInvariant [] s) (hcontrol : ControlInvariant s)
    (hnone : s.findEligible = none) : ∀ x ∈ s.idleUmiQueue, (s.umis x).active = false := by
  intro x hx
  have hfound := List.findSome?_eq_none_iff.mp hnone x hx
  rw [getInstance_of_mem_queue hslot hcontrol hx] at hfound
  simpa using hfound

theorem leavesNone_run {c : UmiId} (h : s.leavesNone id = true)
    (hframe : (s.umis id).callerRestoreFrame = some (.run c)) :
    .yield ∈ s.events ∨ ∀ x ∈ s.idleUmiQueue, x ≠ id → (s.umis x).active = false := by
  rw [leavesNone, hframe] at h
  simp only [Bool.or_eq_true, List.contains_iff_mem, List.all_eq_true, beq_iff_eq,
    Bool.not_eq_true'] at h
  exact h.imp_right fun hall x hx hne => (hall x hx).resolve_left hne

/-- Without a pending event, a halted instance leaves no active one behind. -/
theorem leavesNone_halt {c : UmiId} (h : s.leavesNone id = true) (hevents : s.events = [])
    (hframe : (s.umis id).callerRestoreFrame = some (.run c)) :
    ∀ x ∈ s.idleUmiQueue, x ≠ id → (s.umis x).active = false := by
  refine (leavesNone_run h hframe).resolve_left ?_
  rw [hevents]
  exact List.not_mem_nil

/-- A yield strands no instance, when what it halts leaves no active one behind. -/
theorem notStranded_yield_outcome (hslot : SlotInvariant [] s) (hcontrol : ControlInvariant s)
    (hleaves : ∀ next, s.yieldTarget = some next → s.activationPromiseMap next = false →
      s.inactiveUmiHaltMap next = true → s.events = [] → s.leavesNone next = true) :
    Outcome s.yield NotStranded fun _ => True := by
  have hrun : ∀ next c, s.yieldTarget = some next → s.activationPromiseMap next = false →
      s.inactiveUmiHaltMap next = true → s.events = [] →
      (s.umis next).callerRestoreFrame = some (.run c) →
      ∀ x ∈ s.idleUmiQueue.erase next, (s.umis x).active = false := by
    intro next c hnext hp hh hevents hframe x hx
    obtain ⟨hne, hmem⟩ := (hslot.queue_nodup.mem_erase_iff).mp hx
    exact leavesNone_halt (hleaves next hnext hp hh hevents) hevents hframe x hmem hne
  have hnot : ∀ next, next ∉ s.idleUmiQueue.erase next :=
    fun next hmem => ((hslot.queue_nodup.mem_erase_iff).mp hmem).1 rfl
  refine Core.yield_outcome (fun _ _ => trivial) (fun hnone hempty x hx hactive => ?_) ?_ ?_ ?_
  · have hinactive := inactive_of_findEligible hslot hcontrol (hnone ?_ hempty) x hx
    · simp [hactive] at hinactive
    · exact hslot.empty_iff.mp hempty
  · intro old _ hold hinactive hqueue _ x hx hactive
    have hx : x ∈ s.idleUmiQueue ++ [old] := hx
    rw [hqueue, List.nil_append, List.mem_singleton] at hx
    have hold : (s.umis old).active = true := hx ▸ hactive
    simp [hold] at hinactive
  · intro next umi old hidle hold hinactive hnext humi
    obtain rfl := hslot.inactive_eq next umi humi
    have htarget : s.yieldTarget = some umi := by
      rw [yieldTarget, (activeIsInactive_of_some hold).mpr hinactive, hidle]
      exact hnext
    refine notStranded_yieldTo_outcome rfl rfl (fun hmem => ?_) fun hp hh c hevents hframe x hx => ?_
    · rcases List.mem_append.mp hmem with hmem | hmem
      · exact hnot umi hmem
      · refine hslot.active_not_mem old hold ?_
        exact List.mem_singleton.mp hmem ▸ (hslot.mem_of_findEligible hnext).1
    · rcases List.mem_append.mp hx with hx | hx
      · exact hrun umi c htarget hp hh hevents hframe x hx
      · exact List.mem_singleton.mp hx ▸ hinactive
  · intro next umi hempty hnext humi
    obtain rfl := hslot.inactive_eq next umi humi
    have htarget : s.yieldTarget = some umi := by
      rw [yieldTarget, activeIsInactive, hslot.empty_iff.mp hempty, hempty]
      exact hnext
    exact notStranded_yieldTo_outcome rfl rfl (hnot umi) fun hp hh c hevents hframe x hx =>
      hrun umi c htarget hp hh hevents hframe x hx

/-- The events of the event loop, when they are not yields. -/
theorem NotStranded.dispatch_outcome (h : NotStranded s) (hslot : SlotInvariant [] s) {i : ℕ}
    (hcall : s.yieldCall (.dispatch i) = none)
    (hleaves : s.runLeavesNone (.dispatch i) = true) :
    Outcome (s.dispatch i) NotStranded fun _ => True := by
  unfold dispatch
  cases he : s.events[i]? with
  | none => exact h
  | some e =>
    have hyield : e ≠ .yield := by
      rintro rfl
      simp [yieldCall, he] at hcall
    have hrest : NotStranded { s with events := s.events.eraseIdx i } := h.erase he hyield
    cases e with
    | yield => exact absurd rfl hyield
    | halt =>
      refine notStranded_halt_outcome hslot.active_not_mem
        fun id c hactive hevents hframe x hx => ?_
      have hactive : s.activeUmi = some id := hactive
      have hevents : s.events.eraseIdx i = [] := hevents
      simp only [runLeavesNone, leavingUmi, haltTarget, callState, callsHalt, hcall, he, hevents,
        hactive, beq_self_eq_true, if_true, Option.all_some] at hleaves
      exact leavesNone_halt hleaves rfl hframe x hx fun heq =>
        hslot.active_not_mem id hactive (heq ▸ hx)
    | processOutgoing writer pkt =>
      refine Core.processOutgoing_outcome (fun _ _ => trivial) hrest (fun _ => ?_)
        fun x y _ _ hy => ?_
      · exact hrest.frame rfl rfl (fun _ h => h) fun h => h
      · have hsent : NotStranded { s with
            events := s.events.eraseIdx i
            sent := (writer, s.proxyUmi) :: s.sent } := hrest.frame rfl rfl (fun _ h => h) fun h => h
        exact hsent.setUmi fun hactive => by simp [hy] at hactive
    | activateContext ctx =>
      have hset : NotStranded ({ s with events := s.events.eraseIdx i }.setUmi ctx.umi
          { s.umis ctx.umi with context := none }) := hrest.setUmi fun h => h
      refine Core.activateContext_outcome (fun _ => ?_) ?_
      · refine returnFromBlock_outcome (fun _ _ => trivial) (fun _ => trivial) fun _ => ?_
        exact notStranded_of_ne fun h => by cases h
      · refine hset.frame rfl rfl (active_setUmi ?_) fun h => h
        exact fun h => h
    | other => exact hrest

/-- `Halt` of the guest in control, or of the active instance by `SignalHalt`. -/
theorem notStranded_halt_of_leaves {a : Step} (hslot : SlotInvariant [] s)
    (hstate : s.callState a = s)
    (htarget : s.leavingUmi a = if s.events = [] then s.activeUmi else none)
    (hleaves : s.runLeavesNone a = true) : Outcome s.halt NotStranded fun _ => True := by
  refine notStranded_halt_outcome hslot.active_not_mem fun id c hactive hevents hframe x hx => ?_
  rw [runLeavesNone, htarget, hstate, if_pos hevents, hactive, Option.all_some] at hleaves
  exact leavesNone_halt hleaves hevents hframe x hx
    fun heq => hslot.active_not_mem id hactive (heq ▸ hx)

/-- The breakpoint exception of `Start` hands back the instance of a halting slot. -/
theorem NotStranded.start_outcome (hslot : SlotInvariant [] s)
    (hleaves : s.runLeavesNone (.start id) = true) :
    Outcome (s.start id) NotStranded fun _ => True := by
  refine Core.processGateway_outcome (fun _ _ => trivial) ?_ ?_
  · intro id' _ _
    exact notStranded_of_ne fun h => by cases h
  · intro id' call hhalting hactive hframe
    have hstate : s.callState (.start id) = s := rfl
    rw [runLeavesNone, leavingUmi, if_pos hhalting, hactive, hstate, Option.all_some] at hleaves
    refine notStranded_release fun c hc => ?_
    refine (leavesNone_run hleaves (hc ▸ hframe)).imp_right fun hnone x hx => ?_
    exact hnone x hx fun heq => hslot.active_not_mem id' hactive (heq ▸ hx)

theorem NotStranded.exec_outcome (h : NotStranded s) (hslot : SlotInvariant [] s)
    (hcontrol : ControlInvariant s) {a : Step} (henabled : s.enabled a = true)
    (hleaves : s.runLeavesNone a = true) : Outcome (s.exec a) NotStranded fun _ => True := by
  cases hcall : s.yieldCall a with
  | some t =>
    rw [exec_of_yieldCall hcall]
    refine notStranded_yield_outcome (hslot.of_yieldCall hcall) (hcontrol.of_yieldCall hcall)
      fun next hnext hp hh hevents => ?_
    have hstate : s.callState a = t := by simp only [callState, hcall]
    have htarget : s.leavingUmi a = s.haltTarget a := by
      cases a with
      | start id => cases hcall
      | _ => exact if_pos (hstate ▸ hevents)
    have hhalt : s.haltTarget a = some next := by
      rw [haltTarget, hcall]
      simp [hnext, hp, hh]
    rwa [runLeavesNone, htarget, hhalt, hstate, Option.all_some] at hleaves
  | none =>
    cases a with
    | load id =>
      refine Core.load_outcome (fun _ _ => trivial) (fun _ => ?_) (fun _ _ _ _ => ?_)
        fun hne => notStranded_of_ne hne
      · exact notStranded_of_ne fun h => by cases h
      · exact notStranded_of_ne fun h => by cases h
    | run id =>
      refine Core.run_outcome (fun _ _ => trivial) fun _ => ?_
      exact notStranded_of_ne fun h => by cases h
    | start id => exact NotStranded.start_outcome hslot hleaves
    | signalHalt id =>
      refine signalHalt_outcome (fun _ _ => trivial) hcall fun hactive => ?_
      refine notStranded_halt_of_leaves hslot ?_ ?_ hleaves
      · simp only [callState, hcall]
      · simp [leavingUmi, callState, haltTarget, callsHalt, hcall, hactive]
    | signalYield id => exact signalYield_outcome h (h.spawnLocal _)
    | signalResume id =>
      exact signalResume_outcome (fun _ _ => trivial) hcall fun _ => h.kick_outcome id
    | yield => cases hcall
    | spawnHalt => exact h.spawnLocal _
    | spawnOther => exact h.spawnLocal _
    | processIncoming id payload =>
      refine processIncoming_outcome (fun _ _ => trivial) hcall h fun x y hactive _ => ?_
      have hset : NotStranded (s.setUmi x y) := notStranded_of_ne (hslot.status_ne_empty hactive)
      exact hset.kick_outcome x
    | enqueuePacket id buf => exact h.setUmi fun h => h
    | dispatch i => exact h.dispatch_outcome hslot hcall hleaves
    | fire id now =>
      exact Core.fire_outcome (fun x _ hx _ => h.setUmi fun hactive => hx ▸ hactive)
        fun x _ hx _ _ => (h.setUmi fun hactive => hx ▸ hactive).kick_outcome id
    | poll ns now =>
      refine Core.poll_outcome (fun _ _ => trivial) h fun _ _ _ => ?_
      refine Core.block_outcome (fun _ _ => trivial) (fun _ _ => trivial) (fun _ _ _ => trivial)
        (fun _ => ?_) fun _ _ _ _ _ _ => ?_
      · exact notStranded_of_ne fun h => by cases h
      · exact notStranded_of_ne fun h => by cases h
    | netwrite pkt => exact h.spawnLocal _
    | netread len =>
      obtain ⟨g, gs, hguests⟩ := guests_of_enabled_hypercall henabled rfl
      obtain ⟨-, hactive, -⟩ := hcontrol.inControl.of_guests hguests
      refine Core.netread_outcome (fun _ _ => trivial) fun x y _ => ?_
      exact notStranded_of_ne (hslot.status_ne_empty hactive)
    | halt =>
      refine notStranded_halt_of_leaves hslot ?_ ?_ hleaves
      · rfl
      · simp [leavingUmi, callState, haltTarget, callsHalt, yieldCall]

theorem NotStranded.step {t : Core} {a : Step} (h : NotStranded s) (hslot : SlotInvariant [] s)
    (hcontrol : ControlInvariant s) (hleaves : s.runLeavesNone a = true)
    (hstep : s.step a = some t) : NotStranded t := by
  obtain ⟨henabled, hexec⟩ := step_eq_some.mp hstep
  exact (h.exec_outcome hslot hcontrol henabled hleaves).of_eq_ok hexec

end Steps

/-- In a run in which an instance that is handed back to a `Run` leaves no active one in the queue,
unless a yield is pending, no runnable instance is stranded in any state. -/
theorem runnable_not_stranded {as : List Step}
    (hleaves : AllSteps Core.step (fun s a => s.runLeavesNone a = true) init as) :
    AllStates Core.step NotStranded init as := by
  refine allStates_of_invariant
    (I := fun s => SlotInvariant [] s ∧ ControlInvariant s ∧ NotStranded s)
    (fun s hs => hs.2.2) (fun s a t ha hs ht => ?_) ?_ hleaves
  · obtain ⟨hslot, hcontrol, hs⟩ := hs
    exact ⟨hslot.step ht, hcontrol.step hslot ht, hs.step hslot hcontrol ha ht⟩
  · exact ⟨slotInvariant_init, controlInvariant_init, fun _ _ h => absurd h List.not_mem_nil⟩

/-- Instance 2 yields the slot and instance 3 is run, and handed back before a packet makes instance 2
active: the packet's yield loads instance 2. -/
theorem runnable_not_stranded_reload : AllStates Core.step NotStranded init
    [.load 2, .start 2, .netwrite ⟨true, true, 1⟩, .poll 1000 0, .dispatch 0, .yield, .run 3, .halt,
      .processIncoming 2 true, .enqueuePacket 2 [[0]]] :=
  runnable_not_stranded (by decide)

/-- When the packet arrives while instance 3 is blocked, its yield is refused; `Run` gets instance 3
back, and instance 2 stays behind in the queue. -/
theorem stranded_behind_run : ∃ t, Foundations.run Core.step init
    [.load 2, .start 2, .netwrite ⟨true, true, 1⟩, .poll 1000 0, .dispatch 0, .yield, .run 3,
      .poll 1000 0, .processIncoming 2 true, .enqueuePacket 2 [[0]], .signalResume 3, .dispatch 0,
      .halt] = some t ∧ t.guests = [] ∧ ¬ NotStranded t := by
  obtain ⟨t, ht⟩ : ∃ t, Foundations.run Core.step init
      [.load 2, .start 2, .netwrite ⟨true, true, 1⟩, .poll 1000 0, .dispatch 0, .yield, .run 3,
        .poll 1000 0, .processIncoming 2 true, .enqueuePacket 2 [[0]], .signalResume 3, .dispatch 0,
        .halt] = some t := ⟨_, rfl⟩
  have hstate : (some t).map (fun t => (t.guests, t.status, t.idleUmiQueue, (t.umis 2).active,
      t.events)) = some ([], .empty, [2], true, []) := ht ▸ rfl
  simp only [Option.map_some, Option.some.injEq, Prod.mk.injEq] at hstate
  obtain ⟨hguests, hempty, hqueue, hactive, hevents⟩ := hstate
  refine ⟨t, ht, hguests, fun h => ?_⟩
  have hyield := h hempty 2 (hqueue ▸ List.mem_singleton_self 2) hactive
  simp [hevents] at hyield

end Core

end Umm
