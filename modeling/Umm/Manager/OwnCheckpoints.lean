import Umm.Manager.Checkpoint
import Umm.Manager.Control

/-!
# Whose checkpoint a guest stops at

The debug register is one for the whole core.  A load arms it when the instance that is loaded has a
checkpoint, and nothing disarms it again: a guest whose instance has none runs with the register as
others have left it, and raises debug exceptions at their addresses, which `process_checkpoint` lets
pass.  `OwnCheckpoints` is a core without debug register, on which a guest is stopped at the address
of its own instance and nowhere else.  When checkpoints are set before their instances are loaded, the
two do the same in every run.
-/

namespace Umm

open Foundations

/-! ## What a step leaves in the slot -/

namespace Core

section InSlot

variable {s : Core} {x : Option UmiId}

/-- The slot is empty, or holds `x`. -/
def HoldsAtMost (x : Option UmiId) (s : Core) : Prop :=
  s.activeUmi = none ∨ s.activeUmi = x

/-- `Kick` loads nothing. -/
theorem kick_holds (h : s.activeUmi = x) (id : UmiId) :
    Outcome (s.kick id) (HoldsAtMost x) fun _ => True :=
  kick_outcome (fun _ _ => trivial) (Or.inr h) fun _ _ _ => Or.inr h

/-- Nor does `Halt`. -/
theorem halt_holds (h : s.activeUmi = x) : Outcome s.halt (HoldsAtMost x) fun _ => True :=
  halt_outcome (fun _ _ => trivial) (fun _ => trivial) (fun _ => trivial)
    (fun _ _ _ _ _ => Or.inr h) fun _ _ _ _ _ _ _ => Or.inl rfl

/-- The end of `Yield` keeps the instance in the slot, or empties it. -/
theorem yieldTo_holds {next umi : UmiId} (hloaded : s.status = .loaded)
    (hactive : s.activeUmi = some umi) :
    Outcome (s.yieldTo next) (HoldsAtMost (some umi)) fun _ => True := by
  have hidle : { s with status := .idle }.activeUmi = some umi := hactive
  exact yieldTo_outcome hloaded hactive (fun _ => Or.inr hactive) (fun _ _ => halt_holds hactive)
    fun _ => kick_holds hidle umi

/-- A yield that has an instance to load leaves no other one in the slot. -/
theorem yield_holds_target (hslot : SlotInvariant [] s) {next : UmiId}
    (htarget : s.yieldTarget = some next) :
    Outcome s.yield (HoldsAtMost (some next)) fun _ => True := by
  unfold yieldTarget at htarget
  split_ifs at htarget with hcond
  obtain ⟨hinactive, hstatus⟩ := Bool.and_eq_true_iff.mp hcond
  have hbusy : ¬ s.activeUmi.any (fun id => (s.umis id).active) = true := by
    cases hactive : s.activeUmi with
    | none => simp
    | some old => simpa [activeIsInactive, hactive] using hinactive
  have hstatus : s.status = .idle ∨ s.status = .empty := by simpa using hstatus
  have hstop : ¬ (s.status ≠ .idle ∧ s.status ≠ .empty) := fun h => hstatus.elim h.1 h.2
  have hqueue : ¬ s.idleUmiQueue.length = 0 := by
    intro hzero
    rw [findEligible, List.length_eq_zero_iff.mp hzero] at htarget
    cases htarget
  unfold yield
  simp only [if_neg hbusy, if_neg hstop, if_neg hqueue, htarget]
  cases humi : s.inactiveUmiMap next with
  | none => trivial
  | some umi =>
    obtain rfl := hslot.inactive_eq next umi humi
    have htake : (s.takeInactive umi).status = s.status := rfl
    simp only [htake]
    rcases hstatus with hidle | hempty
    · rw [if_pos hidle, outcome_bind]
      exact slotSwapInstance_outcome (fun _ _ => trivial) hidle fun old _ => yieldTo_holds rfl rfl
    · rw [if_neg (by simp [hempty]), if_pos hempty,
        slotLoadInstance_of_empty (htake.trans hempty), outcome_bind]
      exact yieldTo_holds rfl rfl

/-- A yield that has none to load brings none into the slot. -/
theorem yield_holds (hslot : SlotInvariant [] s) :
    Outcome s.yield (HoldsAtMost (s.yieldTarget.or s.activeUmi)) fun _ => True := by
  cases htarget : s.yieldTarget with
  | some next => exact yield_holds_target hslot htarget
  | none =>
    refine yield_outcome_of_target (fun _ _ => trivial) (Or.inr rfl) (fun _ _ _ => Or.inl rfl) ?_ ?_
    · intro next umi old hnext
      rw [htarget] at hnext
      cases hnext
    · intro next umi hempty hnext
      have hnext := hnext (hslot.empty_iff.mp hempty)
      rw [htarget] at hnext
      cases hnext

/-- `process_gateway` loads nothing. -/
theorem processGateway_holds (h : s.activeUmi = x) (frame : Option Call) :
    Outcome (s.processGateway frame) (HoldsAtMost x) fun _ => True :=
  processGateway_outcome (fun _ _ => trivial) (fun _ _ _ => Or.inr h) fun _ _ _ _ _ => Or.inl rfl

/-- Nor does the hypercall `poll`. -/
theorem poll_holds (h : s.activeUmi = x) (guest : UmiId) (ns now : ℕ) :
    Outcome (s.poll guest ns now) (HoldsAtMost x) fun _ => True :=
  poll_outcome (fun _ _ => trivial) (Or.inr h) fun _ _ _ =>
    block_outcome (fun _ _ => trivial) (fun _ _ => trivial) (fun _ _ _ => trivial)
      (fun _ => Or.inr h) fun _ _ _ _ _ _ => Or.inr h

/-- Nor does an event that does not yield. -/
theorem dispatch_holds (h : s.activeUmi = x) {i : ℕ} (hcall : s.yieldCall (.dispatch i) = none) :
    Outcome (s.dispatch i) (HoldsAtMost x) fun _ => True := by
  unfold dispatch
  cases he : s.events[i]? with
  | none => exact Or.inr h
  | some e =>
    cases e with
    | yield => simp [yieldCall, he] at hcall
    | halt => exact halt_holds h
    | processOutgoing writer pkt =>
      exact processOutgoing_outcome (fun _ _ => trivial) (Or.inr h) (fun _ => Or.inr h)
        fun _ _ _ _ _ => Or.inr h
    | activateContext ctx =>
      exact activateContext_outcome (fun _ => returnFromBlock_outcome (fun _ _ => trivial)
        (fun _ => trivial) fun _ => Or.inr h) (Or.inr h)
    | other => exact Or.inr h

/-- `Load` loads its target only. -/
theorem load_holds (s : Core) (id : UmiId) :
    Outcome (s.load id) (HoldsAtMost ((s.loadTarget (.load id)).or s.activeUmi)) fun _ => True := by
  by_cases htarget : s.status = .empty ∨ s.status = .idle ∧ s.activeIsInactive
  · have hload : s.loadTarget (.load id) = some id := if_pos htarget
    rw [hload]
    unfold load
    rcases htarget with hempty | ⟨hidle, hinactive⟩
    · rw [if_pos hempty, slotLoadInstance_of_empty hempty]
      exact Or.inr rfl
    · rw [if_neg (by simp [hidle]), if_pos hidle]
      cases hactive : s.activeUmi with
      | none => trivial
      | some old =>
        have hyields : ¬ (s.umis old).active = true :=
          Bool.eq_false_iff.mp ((activeIsInactive_of_some hactive).mp hinactive)
        simp only [if_neg hyields]
        exact slotSwapInstance_outcome (fun _ _ => trivial) hidle fun _ _ => Or.inr rfl
  · have hload : s.loadTarget (.load id) = none := if_neg htarget
    rw [hload]
    refine load_outcome (fun _ _ => trivial) (fun hempty => ?_) (fun old hidle hold hinactive => ?_)
      fun _ => Or.inr rfl
    · exact absurd (Or.inl hempty) htarget
    · exact absurd (Or.inr ⟨hidle, (activeIsInactive_of_some hold).mpr hinactive⟩) htarget

/-- So does `Run`. -/
theorem run_holds (s : Core) (id : UmiId) :
    Outcome (s.run id) (HoldsAtMost ((s.loadTarget (.run id)).or s.activeUmi)) fun _ => True := by
  refine run_outcome (fun _ _ => trivial) fun hempty => ?_
  have hload : s.loadTarget (.run id) = some id := if_pos hempty
  rw [hload]
  exact Or.inr rfl

/-- Of the steps that do not yield, `Load` and `Run` alone load an instance. -/
theorem loadTarget_of_no_call {a : Step} (hcall : s.yieldCall a = none)
    (hload : ¬ ∃ id, a = .load id ∨ a = .run id) : s.loadTarget a = none := by
  cases a with
  | load id => exact absurd ⟨id, Or.inl rfl⟩ hload
  | run id => exact absurd ⟨id, Or.inr rfl⟩ hload
  | _ => exact (congrArg (Option.bind · yieldTarget) hcall).trans rfl

/-- After a step the slot is empty, or holds the instance that the step loads, or, when it loads none,
the one it held before. -/
theorem exec_holds (hslot : SlotInvariant [] s) (a : Step) :
    Outcome (s.exec a) (HoldsAtMost ((s.loadTarget a).or s.activeUmi)) fun _ => True := by
  cases hcall : s.yieldCall a with
  | some t =>
    have hactive : t.activeUmi = s.activeUmi :=
      of_yieldCall hcall (P := fun u => u.activeUmi = s.activeUmi) rfl (fun _ => rfl)
        (fun _ _ _ => rfl) (fun _ _ hu => hu) fun _ _ hu => hu
    rw [exec_of_yieldCall hcall, loadTarget_of_yieldCall hcall, ← hactive]
    exact yield_holds (hslot.of_yieldCall hcall)
  | none =>
    by_cases hload : ∃ id, a = .load id ∨ a = .run id
    · obtain ⟨id, rfl | rfl⟩ := hload
      · exact load_holds (s.submit id) id
      · exact run_holds (s.submit id) id
    rw [loadTarget_of_no_call hcall hload, Option.none_or]
    cases a with
    | load id => exact absurd ⟨id, Or.inl rfl⟩ hload
    | run id => exact absurd ⟨id, Or.inr rfl⟩ hload
    | start id => exact processGateway_holds rfl _
    | signalHalt id => exact signalHalt_outcome (fun _ _ => trivial) hcall fun _ => halt_holds rfl
    | signalYield id => exact signalYield_outcome (Or.inr rfl) (Or.inr rfl)
    | signalResume id =>
      exact signalResume_outcome (fun _ _ => trivial) hcall fun _ => kick_holds rfl id
    | yield => cases hcall
    | spawnHalt => exact Or.inr rfl
    | spawnOther => exact Or.inr rfl
    | processIncoming id payload =>
      exact processIncoming_outcome (fun _ _ => trivial) hcall (Or.inr rfl)
        fun _ _ _ _ => kick_holds rfl _
    | enqueuePacket id buf => exact Or.inr rfl
    | dispatch i => exact dispatch_holds rfl hcall
    | fire id now =>
      exact fire_outcome (fun _ _ _ _ => Or.inr rfl) fun _ _ _ _ _ => kick_holds rfl id
    | poll ns now => exact poll_holds rfl s.guest ns now
    | netwrite pkt => exact Or.inr rfl
    | netread len => exact netread_outcome (fun _ _ => trivial) fun _ _ _ => Or.inr rfl
    | halt => exact halt_holds rfl

end InSlot

end Core

/-! ## The core without debug register -/

/-- A core on which each instance has a checkpoint of its own. -/
structure OwnCheckpoints where
  /-- The core. -/
  core : Core
  /-- `snap_addr` of the instances. -/
  snapAddr : UmiId → LinAddr
  /-- Log of the instances that `SetCheckpoint` was called on. -/
  checkpointed : List UmiId
  /-- Log of the instances of which a snapshot was made. -/
  snapshots : List UmiId
  /-- Log of the instances whose `snap_p` was fulfilled. -/
  setValues : List UmiId

namespace OwnCheckpoints

/-- The guest in control executes an instruction: a snapshot of it is made when that is its
checkpoint.  A guest that is halting aborts the core there. -/
def execute (s : OwnCheckpoints) (vaddr : LinAddr) : Option OwnCheckpoints :=
  if s.snapAddr s.core.guest = vaddr ∧ vaddr ≠ 0 then
    if s.core.status = .active then
      some { s with
        snapshots := s.core.guest :: s.snapshots
        setValues := s.core.guest :: s.setValues }
    else none
  else some s

/-- The machine. -/
def step (s : OwnCheckpoints) : CheckpointStep → Option OwnCheckpoints
  | .sched a => (s.core.step a).map fun core => { s with core }
  | .setCheckpoint id vaddr =>
    if s.core.guests.isEmpty && !s.checkpointed.contains id then
      some { s with
        snapAddr := Function.update s.snapAddr id vaddr
        checkpointed := id :: s.checkpointed }
    else none
  | .execute vaddr => if s.core.guests.isEmpty then none else s.execute vaddr

end OwnCheckpoints

namespace CheckpointCore

/-- What is left without the debug register. -/
def view (s : CheckpointCore) : OwnCheckpoints where
  core := s.core
  snapAddr := s.snapAddr
  checkpointed := s.checkpointed
  snapshots := s.snapshots
  setValues := s.setValues

/-- The checkpoint of an instance is set before the instance is loaded, and is an address of the
slot. -/
def SetBeforeLoad (s : CheckpointCore) : CheckpointStep → Prop
  | .setCheckpoint id vaddr => s.core.activeUmi ≠ some id ∧ validAddress vaddr = true
  | _ => True

instance decidableSetBeforeLoad : ∀ s a, Decidable (SetBeforeLoad s a)
  | s, .setCheckpoint id vaddr =>
    inferInstanceAs (Decidable (s.core.activeUmi ≠ some id ∧ validAddress vaddr = true))
  | _, .sched _ | _, .execute _ => isTrue trivial

/-- The invariant: the debug register is armed for the instance in the slot, if that has a
checkpoint. -/
structure Armed (s : CheckpointCore) : Prop where
  /-- Where the instances are. -/
  slot : Core.SlotInvariant [] s.core
  /-- Who is in control. -/
  control : s.core.ControlInvariant
  /-- The checkpoints are addresses of the slot. -/
  valid : ∀ id, s.snapAddr id ≠ 0 → validAddress (s.snapAddr id) = true
  /-- The instance in the slot. -/
  armed : ∀ id, s.core.activeUmi = some id → s.snapAddr id ≠ 0 →
    s.l0 = true ∧ s.dr0 = s.snapAddr id

/-- All but the logs is as it was. -/
def SameButLogs (s t : CheckpointCore) : Prop :=
  t.core = s.core ∧ t.snapAddr = s.snapAddr ∧ t.dr0 = s.dr0 ∧ t.l0 = s.l0

section Step

variable {s t : CheckpointCore} {a : CheckpointStep} {id : UmiId}

/-- A step of the core. -/
theorem Armed.sched (h : s.Armed) {b : Step} (hstep : s.step (.sched b) = some t) : t.Armed := by
  obtain ⟨core, hcore, rfl⟩ := Option.map_eq_some_iff.mp hstep
  have hslot := h.slot.step hcore
  have hcontrol := h.control.step h.slot hcore
  have hholds := (Core.exec_holds h.slot b).of_eq_ok (Core.step_eq_some.mp hcore).2
  have hnew : ∀ id, core.activeUmi = some id →
      (s.core.loadTarget b).or s.core.activeUmi = some id := fun id hid =>
    hholds.elim (fun hnone => by simp [hid] at hnone) fun hsome => hsome ▸ hid
  cases htarget : s.core.loadTarget b with
  | none =>
    rw [htarget] at hnew
    exact ⟨hslot, hcontrol, h.valid, fun id hid => h.armed id (hnew id hid)⟩
  | some id =>
    rw [htarget] at hnew
    by_cases hvalid : validAddress (s.snapAddr id) = true
    · -- the register is armed for the instance that is loaded
      simp only [slotLoadInstance, if_pos hvalid]
      refine ⟨hslot, hcontrol, h.valid, fun id' hid' _ => ⟨rfl, ?_⟩⟩
      obtain rfl := Option.some.inj (hnew id' hid')
      rfl
    · -- that one has no checkpoint
      simp only [slotLoadInstance, if_neg hvalid]
      refine ⟨hslot, hcontrol, h.valid, fun id' hid' hne => ?_⟩
      obtain rfl := Option.some.inj (hnew id' hid')
      exact absurd (h.valid id hne) hvalid

/-- A checkpoint changes the logs only. -/
theorem processCheckpoint_kept (s : CheckpointCore) :
    Outcome s.processCheckpoint s.SameButLogs fun _ => True := by
  unfold processCheckpoint
  cases s.core.activeUmi with
  | none => trivial
  | some id =>
    by_cases hzero : s.snapAddr id = 0
    · simp only [if_pos hzero]
      exact ⟨rfl, rfl, rfl, rfl⟩
    · simp only [if_neg hzero]
      refine outcome_bind.mpr (Core.setStatus_outcome (fun hallows => ?_) fun _ => trivial)
      refine outcome_bind.mpr (Core.setStatus_outcome (fun _ => ?_) fun _ => trivial)
      have hactive : s.core.status = .active := by simpa [Status.allows] using hallows
      exact ⟨congrArg (fun status => { s.core with status }) hactive.symm, rfl, rfl, rfl⟩

/-- So does an instruction. -/
theorem execute_kept (s : CheckpointCore) (vaddr : LinAddr) :
    Outcome (s.execute vaddr) s.SameButLogs fun _ => True := by
  unfold execute
  split_ifs with hbreaks
  · have hkept := processCheckpoint_kept { s with hits := (s.hit vaddr).toList ++ s.hits }
    exact hkept
  · exact ⟨rfl, rfl, rfl, rfl⟩

/-- The invariant is not about the logs. -/
theorem Armed.of_sameButLogs (h : s.Armed) (hsame : s.SameButLogs t) : t.Armed := by
  obtain ⟨hcore, hsnap, hdr0, hl0⟩ := hsame
  refine ⟨hcore ▸ h.slot, hcore ▸ h.control, hsnap ▸ h.valid, ?_⟩
  rw [hcore, hsnap, hdr0, hl0]
  exact h.armed

/-- `process_checkpoint` of an instance with a checkpoint, whatever has been logged. -/
theorem toOption_processCheckpoint (hactive : s.core.activeUmi = some id)
    (hne : s.snapAddr id ≠ 0) (hits : List UmiId) :
    ({ s with hits } : CheckpointCore).processCheckpoint.toOption =
      if s.core.status = .active then
        some { s with hits, snapshots := id :: s.snapshots, setValues := id :: s.setValues }
      else none := by
  simp only [processCheckpoint, hactive, if_neg hne]
  by_cases hstatus : s.core.status = .active
  · have hallows : s.core.status.allows .snapshot = true := by
      rw [hstatus]
      rfl
    have hback : ({ s.core with status := .snapshot } : Core).setStatus .active = .ok s.core := by
      rw [Core.setStatus_of_allows rfl, ← hstatus]
    rw [if_pos hstatus, Core.setStatus_of_allows hallows]
    simp only [bind, Except.bind]
    rw [hback]
    rfl
  · have hbad : s.core.status.allows .snapshot = false := by simpa [Status.allows] using hstatus
    rw [if_neg hstatus, Core.setStatus, hbad]
    rfl

/-- A guest without checkpoint passes every address, also those at which it raises an exception. -/
theorem view_execute_of_zero (hactive : s.core.activeUmi = some s.core.guest)
    (hset : s.snapAddr s.core.guest = 0) (vaddr : LinAddr) :
    (s.execute vaddr).toOption.map view = s.view.execute vaddr := by
  have hpass : ¬ (s.snapAddr s.core.guest = vaddr ∧ vaddr ≠ 0) := by
    rintro ⟨rfl, hne⟩
    exact hne hset
  have hview : s.view.execute vaddr = some s.view := if_neg hpass
  have hprocess : ∀ hits, ({ s with hits } : CheckpointCore).processCheckpoint =
      .ok { s with hits } := by
    intro hits
    simp only [processCheckpoint, hactive, if_pos hset]
  rw [hview]
  unfold execute
  split_ifs with hbreaks
  · rw [hprocess]
    rfl
  · rfl

/-- A guest for whose checkpoint the register is armed is stopped there and nowhere else. -/
theorem view_execute_of_armed (hactive : s.core.activeUmi = some s.core.guest)
    (hset : s.snapAddr s.core.guest ≠ 0) (hl0 : s.l0 = true)
    (hdr0 : s.dr0 = s.snapAddr s.core.guest) (vaddr : LinAddr) :
    (s.execute vaddr).toOption.map view = s.view.execute vaddr := by
  have hbreaks : s.breaksAt vaddr = true ↔ s.snapAddr s.core.guest = vaddr := by
    rw [breaksAt, hl0, hdr0, Bool.true_and, beq_iff_eq]
  unfold execute OwnCheckpoints.execute
  by_cases hhit : s.snapAddr s.core.guest = vaddr
  · have hne : vaddr ≠ 0 := hhit ▸ hset
    rw [if_pos (hbreaks.mpr hhit), if_pos ⟨hhit, hne⟩]
    rw [toOption_processCheckpoint hactive hset, apply_ite (Option.map view)]
    rfl
  · rw [if_neg (hbreaks.not.mpr hhit), if_neg fun hboth => hhit hboth.1]
    rfl

/-- An execution of an instruction does what it does without the debug register. -/
theorem Armed.view_execute (h : s.Armed) (hguests : s.core.guests ≠ []) (vaddr : LinAddr) :
    (s.execute vaddr).toOption.map view = s.view.execute vaddr := by
  obtain ⟨g, gs, hg⟩ := List.exists_cons_of_ne_nil hguests
  obtain ⟨-, hactive, -⟩ := h.control.inControl.of_guests hg
  have hguest : s.core.guest = g.id := by rw [Core.guest, hg]
  rw [← hguest] at hactive
  by_cases hset : s.snapAddr s.core.guest = 0
  · exact view_execute_of_zero hactive hset vaddr
  · obtain ⟨hl0, hdr0⟩ := h.armed _ hactive hset
    exact view_execute_of_armed hactive hset hl0 hdr0 vaddr

/-- A step does what it does without the debug register. -/
theorem Armed.view_step (h : s.Armed) (a : CheckpointStep) :
    (s.step a).map view = s.view.step a := by
  cases a with
  | sched b =>
    simp only [step, OwnCheckpoints.step, Option.map_map]
    refine congrArg (Option.map · (s.core.step b)) (funext fun core => ?_)
    simp only [Function.comp_apply]
    cases s.core.loadTarget b with
    | none => rfl
    | some id =>
      simp only [slotLoadInstance]
      split_ifs <;> rfl
  | setCheckpoint id vaddr =>
    simp only [step, OwnCheckpoints.step]
    rw [apply_ite (Option.map view)]
    rfl
  | execute vaddr =>
    simp only [step, OwnCheckpoints.step]
    by_cases hguests : s.core.guests = []
    · simp [hguests, view]
    · have hcontrol : s.core.guests.isEmpty = false := by simpa using hguests
      have hcontrol' : s.view.core.guests.isEmpty = false := hcontrol
      rw [hcontrol, hcontrol']
      exact h.view_execute hguests vaddr

/-- Every step keeps the invariant, if checkpoints are set before the load. -/
theorem Armed.step (h : s.Armed) (hset : s.SetBeforeLoad a) (hstep : s.step a = some t) :
    t.Armed := by
  cases a with
  | sched b => exact h.sched hstep
  | setCheckpoint id vaddr =>
    obtain ⟨hne, hvalid⟩ := hset
    simp only [CheckpointCore.step] at hstep
    split_ifs at hstep
    obtain rfl := Option.some.inj hstep
    refine ⟨h.slot, h.control, fun id' => ?_, fun id' hactive => ?_⟩
    · by_cases hid : id' = id
      · subst hid
        simpa using fun _ => hvalid
      · simpa [hid] using h.valid id'
    · -- the instance in the slot is another one
      have hid : id' ≠ id := fun hid => hne (hid ▸ hactive)
      simpa [hid] using h.armed id' hactive
  | execute vaddr =>
    simp only [CheckpointCore.step] at hstep
    split_ifs at hstep
    exact h.of_sameButLogs ((execute_kept s vaddr).of_eq_ok (toOption_eq_some.mp hstep))

/-- It holds after boot. -/
theorem armed_init : init.Armed where
  slot := Core.slotInvariant_init
  control := Core.controlInvariant_init
  valid := fun _ hne => absurd rfl hne
  armed := fun _ hactive => by cases hactive

end Step

/-- When every checkpoint is set before its instance is loaded, guests are stopped at the checkpoints
of their own instances and nowhere else, whatever the debug register has been armed for before: in
every run the core does what it does without a debug register. -/
theorem checkpoints_own {steps : List CheckpointStep}
    (hset : AllSteps step SetBeforeLoad init steps) :
    (run step init steps).map view = run OwnCheckpoints.step init.view steps :=
  map_run_eq_run (fun _ _ _ hset h hstep => h.step hset hstep) (fun _ a _ h => h.view_step a)
    armed_init hset

/-- Instance 2 is stopped at its checkpoint and makes way for instance 3, which has none and passes the
same address. -/
def passing : List CheckpointStep :=
  [.setCheckpoint 2 checkpointAddr, .sched (.load 2), .sched (.start 2), .execute checkpointAddr,
    .sched (.netwrite ⟨true, true, 1⟩), .sched (.poll 1000 0), .sched (.dispatch 0),
    .sched (.load 3), .sched (.start 3), .execute checkpointAddr]

/-- The exception that instance 3 raises there makes no snapshot. -/
theorem checkpoints_own_passing : ∃ s, run step init passing = some s ∧
    s.core.guest = 3 ∧ s.breaksAt checkpointAddr = true ∧ s.snapshots = [2] := by
  have hset : AllSteps step SetBeforeLoad init passing := by decide
  have hview := checkpoints_own hset
  obtain ⟨t, ht, hguest, hsnapshots⟩ : ∃ t, run OwnCheckpoints.step init.view passing = some t ∧
      t.core.guest = 3 ∧ t.snapshots = [2] := ⟨_, rfl, rfl, rfl⟩
  obtain ⟨s, hs, rfl⟩ := Option.map_eq_some_iff.mp (hview.trans ht)
  have hbreaks : (run step init passing).map (breaksAt · checkpointAddr) = some true := rfl
  rw [hs] at hbreaks
  exact ⟨s, hs, hguest, Option.some.inj hbreaks, hsnapshots⟩

end CheckpointCore

end Umm
