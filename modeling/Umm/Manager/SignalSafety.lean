import Umm.Manager.YieldOrder

/-!
# Signals to the scheduler

The machine of a core lets `slot_queue_move_to_front` of an empty queue return; the source reads the
front of the queue first, which is undefined when there is none.  `execChecked` performs a step with
that read checked, as `slot_queue_pop` checks it.

A signal is founded when the slot is occupied or somebody is queued, as far as it needs either:
exactly then it reads no missing element and dereferences no missing instance.
-/

namespace Umm

open Foundations

/-- What can go wrong in a step whose reads are checked. -/
inductive Fault where
  /-- The front of an empty queue is read. -/
  | emptyFront
  /-- The core aborts or crashes. -/
  | abort (e : Abort)
deriving DecidableEq, Repr

/-- The fault is one of memory: a missing element is read or a missing instance dereferenced. -/
def Fault.isMisread : Fault → Bool
  | .emptyFront | .abort .nullDeref => true
  | _ => false

namespace Core

/-! ## Steps with checked reads -/

/-- The outcome of a function that reads no queue. -/
def liftAbort (r : Except Abort Core) : Except Fault Core :=
  r.mapError .abort

/-- `slot_queue_move_to_front`, with the read of the front checked. -/
def slotQueueMoveToFrontChecked (s : Core) (id : UmiId) : Except Fault Core :=
  if s.idleUmiQueue = [] then .error .emptyFront else .ok (s.slotQueueMoveToFront id)

/-- `SignalResume`, with the read of the front checked. -/
def signalResumeChecked (s : Core) (id : UmiId) : Except Fault Core :=
  if s.activeInstanceId = id then
    match s.activeUmi with
    | none => .error (.abort .nullDeref)
    | some x => liftAbort (s.kick x)
  else do
    let s ← s.slotQueueMoveToFrontChecked id
    liftAbort s.yield

/-- What a signal to the scheduler does, with the reads checked. -/
def execChecked (s : Core) : Step → Except Fault Core
  | .signalResume id => s.signalResumeChecked id
  | a => liftAbort (s.exec a)

/-- The step is a signal to the scheduler: `SignalResume`, `SignalYield` or its deferred `Yield`, or
`Yield`. -/
def isSignal (s : Core) : Step → Bool
  | .signalResume _ | .signalYield _ | .yield => true
  | .dispatch i => s.events[i]? == some .yield
  | _ => false

/-- The slot is occupied or somebody is queued: there is something to yield, or to yield to. -/
def hasInstance (s : Core) : Bool :=
  s.activeUmi.isSome || !s.idleUmiQueue.isEmpty

/-- What a signal needs: `SignalResume` an instance to kick or a queue to reorder, and `Yield` an
instance to unload or to load. -/
def founded (s : Core) : Step → Bool
  | .signalResume id =>
    s.activeUmi == some id || s.activeInstanceId != id && !s.idleUmiQueue.isEmpty
  | .signalYield _ => true
  | _ => s.hasInstance

/-- The signal neither reads a missing element nor dereferences a missing instance, and the one of an
instance that is neither active nor queued has the effect of `Yield`. -/
def SafeSignal (s : Core) (a : Step) : Prop :=
  Outcome (s.execChecked a) (fun _ => True) (fun e => e.isMisread = false) ∧
    ∀ id, a = .signalResume id → s.activeUmi ≠ some id → id ∉ s.idleUmiQueue →
      s.execChecked a = s.execChecked .yield

section Signals

variable {s t : Core} {a : Step} {id : UmiId}

theorem outcome_liftAbort {r : Except Abort Core} {Q : Core → Prop} {E : Fault → Prop} :
    Outcome (liftAbort r) Q E ↔ Outcome r Q fun e => E (.abort e) := by
  cases r <;> rfl

/-- The checked step does what the step does, unless it reads the front of an empty queue. -/
theorem execChecked_eq (h : s.execChecked a ≠ .error .emptyFront) :
    s.execChecked a = liftAbort (s.exec a) := by
  cases a with
  | signalResume id =>
    change s.signalResumeChecked id = liftAbort (s.signalResume id)
    change s.signalResumeChecked id ≠ .error .emptyFront at h
    unfold signalResumeChecked slotQueueMoveToFrontChecked at h ⊢
    unfold signalResume
    split_ifs at h ⊢ with hid hnil
    · cases s.activeUmi <;> rfl
    · exact absurd rfl h
    · rfl
  | _ => rfl

/-- An instance that is not queued is not moved. -/
theorem slotQueueMoveToFront_of_not_mem (hmem : id ∉ s.idleUmiQueue) :
    s.slotQueueMoveToFront id = s := by
  unfold slotQueueMoveToFront
  rw [if_neg fun hhead => hmem (List.mem_of_head? hhead), if_neg hmem]

theorem isMisread_of_crashesLoaded {e : Abort} (he : crashesLoaded e = true) :
    (Fault.abort e).isMisread = false := by
  cases e with
  | strayFrame => rfl
  | noContext id => rfl
  | _ => cases he

theorem hasInstance_iff : s.hasInstance = true ↔ s.activeUmi ≠ none ∨ s.idleUmiQueue ≠ [] := by
  simp [hasInstance, Option.isSome_iff_ne_none]

/-- `Yield` of a core that has no instance unloads the empty slot. -/
theorem SlotInvariant.yield_of_void (h : SlotInvariant [] s) (hactive : s.activeUmi = none)
    (hqueue : s.idleUmiQueue = []) : s.yield = .error .nullDeref := by
  have hstatus := h.empty_iff.mpr hactive
  have hset : s.setStatus .empty = .ok { s with status := .empty } :=
    setStatus_of_allows (by rw [hstatus]; rfl)
  unfold yield slotUnloadToQueue slotUnloadInstance
  rw [if_neg (by simp [hactive]), if_neg (by simp [hstatus]), if_pos (by simp [hqueue]), hset]
  simp only [hactive, bind, Except.bind]

/-- `Yield` misreads exactly when the core has no instance. -/
theorem SlotInvariant.yield_misread_iff (h : SlotInvariant [] s) :
    Outcome (liftAbort s.yield) (fun _ => True) (fun e => e.isMisread = false) ↔
      s.hasInstance = true := by
  rw [outcome_liftAbort]
  constructor
  · intro hyield
    by_contra hvoid
    obtain ⟨hactive, hqueue⟩ := not_or.mp (hasInstance_iff.not.mp hvoid)
    rw [h.yield_of_void (not_not.mp hactive) (not_not.mp hqueue)] at hyield
    cases hyield
  · intro hne
    exact (h.yield_yielded (hasInstance_iff.mp hne)).mono (fun _ _ => trivial)
      fun _ he => isMisread_of_crashesLoaded he

/-- `SignalResume` misreads exactly when it is not founded. -/
theorem SlotInvariant.signalResume_misread_iff (h : SlotInvariant [] s) :
    Outcome (s.signalResumeChecked id) (fun _ => True) (fun e => e.isMisread = false) ↔
      s.founded (.signalResume id) = true := by
  unfold signalResumeChecked
  by_cases hid : s.activeInstanceId = id
  · rw [if_pos hid]
    cases hactive : s.activeUmi with
    | none => simp [founded, hactive, hid, Fault.isMisread]
    | some x =>
      have hx : x = id := by simpa [activeInstanceId, hactive] using hid
      have hfounded : s.founded (.signalResume id) = true := by simp [founded, hactive, hx]
      refine iff_of_true (outcome_liftAbort.mpr ?_) hfounded
      exact Core.kick_outcome (fun _ _ => rfl) trivial fun _ _ _ => trivial
  · have hne : s.activeUmi ≠ some id := by
      intro hactive
      exact hid (by rw [activeInstanceId, hactive]; rfl)
    rw [if_neg hid, outcome_bind]
    unfold slotQueueMoveToFrontChecked
    by_cases hqueue : s.idleUmiQueue = []
    · rw [if_pos hqueue]
      simp [founded, hne, hqueue, Fault.isMisread]
    · rw [if_neg hqueue, outcome_ok, (h.slotQueueMoveToFront id).yield_misread_iff, hasInstance_iff]
      refine iff_of_true (Or.inr fun hnil => hqueue ?_) (by simp [founded, hid, hqueue])
      exact (hnil ▸ perm_slotQueueMoveToFront s id).nil_eq.symm

/-- A founded `SignalResume` of an instance that is neither active nor queued is a `Yield`. -/
theorem signalResumeChecked_of_absent (hfounded : s.founded (.signalResume id) = true)
    (hactive : s.activeUmi ≠ some id) (hmem : id ∉ s.idleUmiQueue) :
    s.signalResumeChecked id = liftAbort s.yield := by
  obtain ⟨hid, hqueue⟩ : s.activeInstanceId ≠ id ∧ s.idleUmiQueue ≠ [] := by
    simpa [founded, hactive] using hfounded
  unfold signalResumeChecked slotQueueMoveToFrontChecked
  rw [if_neg hid, if_neg hqueue, slotQueueMoveToFront_of_not_mem hmem]
  rfl

/-- A signal is safe exactly when it is founded. -/
theorem SlotInvariant.safeSignal_iff (h : SlotInvariant [] s) (hsignal : s.isSignal a = true) :
    s.SafeSignal a ↔ s.founded a = true := by
  cases a with
  | signalResume id =>
    refine ⟨fun hsafe => h.signalResume_misread_iff.mp hsafe.1, fun hfounded => ?_⟩
    refine ⟨h.signalResume_misread_iff.mpr hfounded, ?_⟩
    rintro _ ⟨⟩ hactive hmem
    exact signalResumeChecked_of_absent hfounded hactive hmem
  | signalYield id => exact iff_of_true ⟨trivial, fun _ heq => by cases heq⟩ rfl
  | yield =>
    exact (and_iff_left fun _ heq => by cases heq).trans h.yield_misread_iff
  | dispatch i =>
    have hevent : s.events[i]? = some .yield := beq_iff_eq.mp hsignal
    have hslot : SlotInvariant [] { s with events := s.events.eraseIdx i } :=
      h.frame rfl rfl rfl rfl rfl rfl Iff.rfl
    have hexec : s.exec (.dispatch i) = { s with events := s.events.eraseIdx i }.yield :=
      exec_of_yieldCall (by rw [yieldCall, if_pos hevent])
    refine (and_iff_left fun _ heq => by cases heq).trans ?_
    change Outcome (liftAbort (s.exec (.dispatch i))) _ _ ↔ _
    rw [hexec]
    exact hslot.yield_misread_iff
  | _ => cases hsignal

end Signals

/-- In every state that a run reaches, a signal to the scheduler is safe exactly when it is
founded. -/
theorem safeSignal_iff_founded {as : List Step} {s : Core} {a : Step}
    (hrun : Foundations.run step init as = some s) (hsignal : s.isSignal a = true) :
    s.SafeSignal a ↔ s.founded a = true :=
  (SlotInvariant.of_run hrun).safeSignal_iff hsignal

/-- Instance 2 has been loaded and instance 3 queued; instance 4 is no longer there. -/
theorem safeSignal_iff_founded_stale : ∃ s,
    Foundations.run step init [.load 2, .load 3] = some s ∧ s.SafeSignal (.signalResume 4) := by
  obtain ⟨s, hs⟩ : ∃ s, Foundations.run step init [.load 2, .load 3] = some s := ⟨_, rfl⟩
  have hfounded : (some s).map (fun s => s.founded (.signalResume 4)) = some true := hs ▸ rfl
  exact ⟨s, hs, (safeSignal_iff_founded hs rfl).mpr (Option.some.inj hfounded)⟩

/-- `Yield` of the empty core unloads the empty slot, at once or as an event that `SignalYield` has
spawned; and with one instance loaded and nobody queued, `SignalResume` of another one reads the
front of the empty queue. -/
theorem misread_of_unfounded : init.execChecked .yield = .error (.abort .nullDeref) ∧
    (∃ s, Foundations.run step init [.signalYield nullId] = some s ∧
      s.execChecked (.dispatch 0) = .error (.abort .nullDeref)) ∧
    ∃ s, Foundations.run step init [.load 2] = some s ∧
      s.execChecked (.signalResume 3) = .error .emptyFront :=
  ⟨rfl, ⟨_, rfl, rfl⟩, _, rfl, rfl⟩

end Core

end Umm
