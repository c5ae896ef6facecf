import Mathlib.Data.List.Nodup
import Umm.Manager.YieldCalls
import Umm.PageTable.SimplePte

/-!
# Checkpoints

`SetCheckpoint` gives an instance an address and a promise.  At every load of the slot the address
goes into the debug register of the core, and when the guest executes it, `process_checkpoint` makes a
snapshot and fulfils the promise.  Nothing is cleared then, so that the guest is stopped again each
time it comes back to the address.

The machine of this file is that of a core with the debug register beside it.
-/

namespace Umm

open Foundations

/-- A core with the checkpoints of its instances. -/
structure CheckpointCore where
  /-- The core. -/
  core : Core
  /-- `snap_addr` of the instances. -/
  snapAddr : UmiId → LinAddr
  /-- `DR0`. -/
  dr0 : LinAddr
  /-- `DR7.L0`: an execution of the instruction at `DR0` raises a debug exception. -/
  l0 : Bool
  /-- Log of the instances that `SetCheckpoint` was called on. -/
  checkpointed : List UmiId
  /-- Log of the instances whose guests executed the address in `DR0` with a checkpoint set. -/
  hits : List UmiId
  /-- Log of the instances of which a snapshot was made. -/
  snapshots : List UmiId
  /-- Log of the instances whose `snap_p` was fulfilled. -/
  setValues : List UmiId

/-- What happens on a core with checkpoints. -/
inductive CheckpointStep where
  /-- A step of the core. -/
  | sched (a : Step)
  /-- `SetCheckpoint`, called once for an instance at most. -/
  | setCheckpoint (id : UmiId) (vaddr : LinAddr)
  /-- The guest in control executes the instruction at an address. -/
  | execute (vaddr : LinAddr)
deriving DecidableEq, Repr

namespace CheckpointCore

/-- A core that starts empty. -/
def init : CheckpointCore where
  core := Core.init
  snapAddr := fun _ => 0
  dr0 := 0
  l0 := false
  checkpointed := []
  hits := []
  snapshots := []
  setValues := []

/-- `set_snapshot`. -/
def setSnapshot (s : CheckpointCore) (vaddr : LinAddr) : CheckpointCore :=
  { s with dr0 := vaddr, l0 := true }

/-- What `slot_load_instance` does to the debug register. -/
def slotLoadInstance (s : CheckpointCore) (id : UmiId) : CheckpointCore :=
  if validAddress (s.snapAddr id) then s.setSnapshot (s.snapAddr id) else s

/-- `process_checkpoint`. -/
def processCheckpoint (s : CheckpointCore) : Except Abort CheckpointCore :=
  match s.core.activeUmi with
  | none => .error .nullDeref
  | some id =>
    if s.snapAddr id = 0 then .ok s
    else do
      let core ← s.core.setStatus .snapshot
      let s := { s with core, snapshots := id :: s.snapshots }
      let s := { s with setValues := id :: s.setValues }
      let core ← s.core.setStatus .active
      .ok { s with core }

/-- An execution of the instruction raises a debug exception. -/
def breaksAt (s : CheckpointCore) (vaddr : LinAddr) : Bool :=
  s.l0 && s.dr0 == vaddr

/-- The instance whose checkpoint an execution of the instruction hits. -/
def hit (s : CheckpointCore) (vaddr : LinAddr) : Option UmiId :=
  if s.breaksAt vaddr then s.core.activeUmi.filter fun id => s.snapAddr id != 0 else none

/-- The guest executes an instruction; a debug exception is handled first. -/
def execute (s : CheckpointCore) (vaddr : LinAddr) : Except Abort CheckpointCore :=
  if s.breaksAt vaddr then
    { s with hits := (s.hit vaddr).toList ++ s.hits }.processCheckpoint
  else .ok s

/-- The machine: a step that aborts is not taken. -/
def step (s : CheckpointCore) : CheckpointStep → Option CheckpointCore
  | .sched a => (s.core.step a).map fun core =>
    match s.core.loadTarget a with
    | none => { s with core }
    | some id => { s with core }.slotLoadInstance id
  | .setCheckpoint id vaddr =>
    if s.core.guests.isEmpty && !s.checkpointed.contains id then
      some { s with
        snapAddr := Function.update s.snapAddr id vaddr
        checkpointed := id :: s.checkpointed }
    else none
  | .execute vaddr => if s.core.guests.isEmpty then none else (s.execute vaddr).toOption

/-- No snapshot has been made twice of an instance, and no promise of a snapshot fulfilled twice. -/
def SnapshotOnce (s : CheckpointCore) : Prop :=
  ∀ id, s.snapshots.count id ≤ 1 ∧ s.setValues.count id ≤ 1

/-- A guest that hits a checkpoint has not hit one before. -/
def HitsFirst (s : CheckpointCore) : CheckpointStep → Prop
  | .execute vaddr => ∀ id, s.hit vaddr = some id → id ∉ s.hits
  | _ => True

instance decidableHitsFirst : ∀ s a, Decidable (HitsFirst s a)
  | s, .execute vaddr => decidable_of_iff (∀ id ∈ (s.hit vaddr).toList, id ∉ s.hits)
      (forall_congr' fun _ => by rw [Option.mem_toList])
  | _, .sched _ | _, .setCheckpoint _ _ => isTrue trivial

/-- The invariant: every hit makes a snapshot and fulfils the promise. -/
structure Logged (s : CheckpointCore) : Prop where
  /-- The snapshots are those of the hits. -/
  snapshots : s.snapshots = s.hits
  /-- So are the promises. -/
  setValues : s.setValues = s.hits

section Step

variable {s t : CheckpointCore} {vaddr : LinAddr} {id : UmiId} {a : CheckpointStep}

/-- A step other than an execution makes no snapshot. -/
theorem logs_of_step (ha : ∀ vaddr, a ≠ .execute vaddr) (hstep : s.step a = some t) :
    t.hits = s.hits ∧ t.snapshots = s.snapshots ∧ t.setValues = s.setValues := by
  cases a with
  | sched b =>
    obtain ⟨core, -, rfl⟩ := Option.map_eq_some_iff.mp hstep
    cases s.core.loadTarget b with
    | none => exact ⟨rfl, rfl, rfl⟩
    | some id =>
      simp only [slotLoadInstance]
      split_ifs
      · exact ⟨rfl, rfl, rfl⟩
      · exact ⟨rfl, rfl, rfl⟩
  | setCheckpoint id vaddr =>
    simp only [step] at hstep
    split_ifs at hstep
    obtain rfl := Option.some.inj hstep
    exact ⟨rfl, rfl, rfl⟩
  | execute vaddr => exact absurd rfl (ha vaddr)

/-- `process_checkpoint` makes a snapshot of the active instance, if it has a checkpoint. -/
theorem processCheckpoint_outcome (s : CheckpointCore) :
    Outcome s.processCheckpoint (fun t => ∃ id, s.core.activeUmi = some id ∧ t.hits = s.hits ∧
      (s.snapAddr id = 0 ∧ t.snapshots = s.snapshots ∧ t.setValues = s.setValues ∨
        s.snapAddr id ≠ 0 ∧ t.snapshots = id :: s.snapshots ∧ t.setValues = id :: s.setValues))
      fun _ => True := by
  unfold processCheckpoint
  cases hactive : s.core.activeUmi with
  | none => trivial
  | some id =>
    by_cases hzero : s.snapAddr id = 0
    · simp only [if_pos hzero]
      exact ⟨id, rfl, rfl, Or.inl ⟨hzero, rfl, rfl⟩⟩
    · simp only [if_neg hzero]
      refine outcome_bind.mpr (Core.setStatus_outcome (fun _ => ?_) fun _ => trivial)
      refine outcome_bind.mpr (Core.setStatus_outcome (fun _ => ?_) fun _ => trivial)
      exact ⟨id, rfl, rfl, Or.inr ⟨hzero, rfl, rfl⟩⟩

/-- An execution makes a snapshot of the instance whose checkpoint it hits, and fulfils its promise. -/
theorem logs_of_execute (hstep : s.step (.execute vaddr) = some t) :
    t.hits = (s.hit vaddr).toList ++ s.hits ∧ t.snapshots = (s.hit vaddr).toList ++ s.snapshots ∧
      t.setValues = (s.hit vaddr).toList ++ s.setValues := by
  simp only [step] at hstep
  split_ifs at hstep with hguests
  unfold execute at hstep
  split_ifs at hstep with hbreaks
  · have hhit : s.hit vaddr = s.core.activeUmi.filter fun id => s.snapAddr id != 0 := by
      rw [hit, if_pos hbreaks]
    have hok : ∀ m : Except Abort CheckpointCore, m.toOption = some t → m = .ok t := by
      intro m hm
      cases m with
      | error e => cases hm
      | ok u => exact congrArg Except.ok (Option.some.inj hm)
    obtain ⟨id, hactive, hhits, hprocess⟩ := (processCheckpoint_outcome _).of_eq_ok (hok _ hstep)
    change s.core.activeUmi = some id at hactive
    rw [hactive, Option.filter_some] at hhit
    rcases hprocess with ⟨hzero, hprocess⟩ | ⟨hne, hprocess⟩
    · have hzero : (s.snapAddr id != 0) = false := bne_eq_false_iff_eq.mpr hzero
      rw [hzero] at hhit
      rw [hhits]
      simp only [hhit]
      exact ⟨trivial, hprocess⟩
    · have hne : (s.snapAddr id != 0) = true := bne_iff_ne.mpr hne
      rw [if_pos hne] at hhit
      rw [hhits]
      simp only [hhit]
      exact ⟨trivial, hprocess⟩
  · have hnone : s.hit vaddr = none := by rw [hit, if_neg hbreaks]
    obtain rfl := Option.some.inj hstep
    rw [hnone]
    exact ⟨rfl, rfl, rfl⟩

/-- The logs agree in every run. -/
theorem Logged.step (h : Logged s) (hstep : s.step a = some t) : Logged t := by
  obtain ⟨hsnapshots, hsetValues⟩ := h
  cases a with
  | execute vaddr =>
    obtain ⟨hhits, hsnapshots', hsetValues'⟩ := logs_of_execute hstep
    exact ⟨by rw [hsnapshots', hhits, hsnapshots], by rw [hsetValues', hhits, hsetValues]⟩
  | _ =>
    obtain ⟨hhits, hsnapshots', hsetValues'⟩ := logs_of_step (fun _ h => by cases h) hstep
    exact ⟨by rw [hsnapshots', hhits, hsnapshots], by rw [hsetValues', hhits, hsetValues]⟩

/-- In terms of the hits. -/
theorem Logged.snapshotOnce_iff (h : Logged s) : SnapshotOnce s ↔ s.hits.Nodup := by
  rw [SnapshotOnce, h.snapshots, h.setValues, List.nodup_iff_count_le_one]
  simp only [and_self]

/-- A step keeps the snapshots single exactly when no guest hits a checkpoint again. -/
theorem Logged.snapshotOnce_step_iff (h : Logged s) (honce : SnapshotOnce s)
    (hstep : s.step a = some t) : SnapshotOnce t ↔ HitsFirst s a := by
  have hnodup := h.snapshotOnce_iff.mp honce
  rw [(h.step hstep).snapshotOnce_iff]
  cases a with
  | execute vaddr =>
    rw [(logs_of_execute hstep).1]
    cases hhit : s.hit vaddr with
    | none => exact ⟨fun _ id hid => by simp [hhit] at hid, fun _ => hnodup⟩
    | some id =>
      have hcons : (id :: s.hits).Nodup ↔ id ∉ s.hits := by
        rw [List.nodup_cons, and_iff_left hnodup]
      refine hcons.trans ⟨fun hid id' hid' => ?_, fun hfirst => hfirst id hhit⟩
      exact Option.some.inj (hhit.symm.trans hid') ▸ hid
  | _ =>
    rw [(logs_of_step (fun _ h => by cases h) hstep).1]
    exact ⟨fun _ => trivial, fun _ => hnodup⟩

end Step

/-! ## Runs -/

/-- In a run, with any number of loads in it, a snapshot of every instance is made at most once and
its promise fulfilled at most once, exactly when no guest hits the checkpoint of its instance a
second time. -/
theorem snapshotOnce_run_iff {steps : List CheckpointStep} {s : CheckpointCore}
    (hrun : run step init steps = some s) :
    AllStates step SnapshotOnce init steps ↔ AllSteps step HitsFirst init steps := by
  have hinit : Logged init ∧ SnapshotOnce init :=
    ⟨⟨rfl, rfl⟩, fun _ => ⟨Nat.zero_le 1, Nat.zero_le 1⟩⟩
  have hkept : ∀ s a t, HitsFirst s a → Logged s ∧ SnapshotOnce s → s.step a = some t →
      Logged t ∧ SnapshotOnce t :=
    fun s a t hfirst hs hstep =>
      ⟨hs.1.step hstep, (hs.1.snapshotOnce_step_iff hs.2 hstep).mpr hfirst⟩
  constructor
  · intro honce
    refine allSteps_of_allStates (D := fun s a => ∃ t, s.step a = some t)
      (fun s a t _ => hkept s a t) (fun s a haccepted hs hnot => ?_) hinit (allSteps_of_run hrun)
      honce
    obtain ⟨t, hstep⟩ := haccepted
    exact ⟨t, hstep, (hs.1.snapshotOnce_step_iff hs.2 hstep).not.mpr hnot⟩
  · exact allStates_of_invariant (fun s hs => hs.2) hkept hinit

/-- An address of the slot. -/
def checkpointAddr : LinAddr := 0xFFFFC00000001000

/-- Instance 2 reaches its checkpoint once. -/
theorem snapshotOnce_run_iff_once : AllStates step SnapshotOnce init
    [.setCheckpoint 2 checkpointAddr, .sched (.load 2), .sched (.start 2),
      .execute slotStartVAddr, .execute checkpointAddr] := by
  obtain ⟨s, hs⟩ : ∃ s, run step init [.setCheckpoint 2 checkpointAddr, .sched (.load 2),
      .sched (.start 2), .execute slotStartVAddr, .execute checkpointAddr] = some s := ⟨_, rfl⟩
  exact (snapshotOnce_run_iff hs).mpr (by decide)

/-- Instance 2 reaches its checkpoint, makes way for instance 3, and comes back to the checkpoint when
it has been loaded again. -/
theorem not_snapshotOnce_of_reload : ¬ AllStates step SnapshotOnce init
    [.setCheckpoint 2 checkpointAddr, .sched (.load 2), .sched (.start 2), .execute checkpointAddr,
      .sched (.netwrite ⟨true, true, 1⟩), .sched (.poll 1000 0), .sched (.dispatch 0),
      .sched (.load 3), .sched (.start 3), .sched .halt, .sched (.processIncoming 2 true),
      .sched (.dispatch 0), .sched (.dispatch 0), .execute checkpointAddr] := by
  intro honce
  obtain ⟨s, hs⟩ : ∃ s, run step init [.setCheckpoint 2 checkpointAddr, .sched (.load 2),
      .sched (.start 2), .execute checkpointAddr, .sched (.netwrite ⟨true, true, 1⟩),
      .sched (.poll 1000 0), .sched (.dispatch 0), .sched (.load 3), .sched (.start 3),
      .sched .halt, .sched (.processIncoming 2 true), .sched (.dispatch 0), .sched (.dispatch 0),
      .execute checkpointAddr] = some s := ⟨_, rfl⟩
  have hlog : (some s).map (fun s => (s.snapshots, s.setValues)) = some ([2, 2], [2, 2]) := hs ▸ rfl
  simp only [Option.map_some, Option.some.injEq, Prod.mk.injEq] at hlog
  have htwice := (honce.last hs 2).1
  rw [hlog.1] at htwice
  exact absurd htwice (by decide)

end CheckpointCore

end Umm
