import Umm.Foundations.WaitingQueue
import Umm.Manager.HaltSignal

/-!
# The order in which instances are scheduled

In a state in which the slot and its containers agree, `Yield` is determined by its target: the
first active instance of the queue, if the slot may be left.  `Yielded` says what it does to the slot
and the queue.  The queue is served in order, so that an active instance is loaded once those before
it have been.

An instance to which a halt has been signalled is halted as soon as it is loaded.
-/

namespace Umm

open Foundations

namespace Core

/-- The condition of the search in `Yield`: the identifier is that of an instance, which is active. -/
def eligible (s : Core) (id : UmiId) : Bool :=
  (s.getInstance id).any fun x => (s.umis x).active

/-- The instance `next` is loaded from the queue, in place of the one in the slot. -/
def loadNext (s : Core) (next : UmiId) : Core :=
  (s.activeUmi.elim (s.takeInactive next) fun old => (s.takeInactive next).vacate old).occupy next

/-- The ways in which a `Yield` that has loaded an instance may crash: it halts an instance that has
not been entered, or unblocks one without a context. -/
def crashesLoaded : Abort → Bool
  | .strayFrame | .noContext _ => true
  | _ => false

section Yield

variable {s : Core} {Q : Core → Prop} {E : Abort → Prop} {next : UmiId}

/-- When a yield has a target. -/
theorem of_yieldTarget (h : s.yieldTarget = some next) : s.activeIsInactive = true ∧
    (s.status = .idle ∨ s.status = .empty) ∧ s.findEligible = some next := by
  unfold yieldTarget at h
  split_ifs at h with hcond
  obtain ⟨hinactive, hstatus⟩ := Bool.and_eq_true_iff.mp hcond
  exact ⟨hinactive, by simpa using hstatus, h⟩

/-- The target of a yield is queued. -/
theorem SlotInvariant.mem_of_yieldTarget (h : SlotInvariant [] s)
    (htarget : s.yieldTarget = some next) : next ∈ s.idleUmiQueue :=
  (h.mem_of_findEligible (of_yieldTarget htarget).2.2).1

/-- `Halt` of the instance in the idle slot. -/
theorem halt_outcome_of_idle {id : UmiId} (hidle : s.status = .idle) (hactive : s.activeUmi = some id)
    (hstray : E .strayFrame) (hdefer : Q ((s.setHalting id).spawnLocal .halt))
    (hrelease : ∀ call, Q (((s.setHalting id).removeInstanceState id).release id call)) :
    Outcome s.halt Q E := by
  rw [halt_of_active hactive (by simp [hidle]) (by simp [hidle])]
  split_ifs
  · exact hdefer
  · have hremoved : ((s.setHalting id).removeInstanceState id).activeUmi = some id := hactive
    cases hframe : (((s.setHalting id).removeInstanceState id).umis id).callerRestoreFrame with
    | none =>
      unfold processGateway
      simp only [hremoved, hframe]
      exact hstray
    | some call =>
      rw [processGateway_of_halting rfl hremoved hframe]
      exact hrelease call

/-- The end of a `Yield` that has loaded `next`. -/
theorem yieldTo_outcome_of_loaded (hloaded : s.status = .loaded) (hactive : s.activeUmi = some next)
    (hcrash : ∀ e, crashesLoaded e = true → E e)
    (hpromise : Q { s with
      activationPromiseMap := Function.update s.activationPromiseMap next false })
    (hdefer : ∀ m, s.inactiveUmiHaltMap next = true →
      Q (({ s with status := .idle, inactiveUmiHaltMap := m }.setHalting next).spawnLocal .halt))
    (hrelease : ∀ m call, s.inactiveUmiHaltMap next = true →
      Q ((({ s with status := .idle, inactiveUmiHaltMap := m }.setHalting next).removeInstanceState
        next).release next call))
    (hstay : Q { s with status := .idle })
    (hwake : ∀ ctx, Q ({ s with status := .idle }.wake next ctx)) :
    Outcome (s.yieldTo next) Q E := by
  refine yieldTo_outcome hloaded hactive (fun _ => hpromise) (fun _ hhalt => ?_) fun _ => ?_
  · exact halt_outcome_of_idle rfl hactive (hcrash _ rfl) (hdefer _ hhalt)
      fun call => hrelease _ call hhalt
  · exact kick_outcome (fun _ _ => hcrash _ rfl) hstay fun ctx _ _ => hwake ctx

/-- There is no instance to unload from an empty slot. -/
theorem SlotInvariant.slotUnloadToQueue_of_none (h : SlotInvariant [] s)
    (hactive : s.activeUmi = none) : s.slotUnloadToQueue = .error .nullDeref := by
  have hset : s.setStatus .empty = .ok { s with status := .empty } :=
    setStatus_of_allows (by rw [h.empty_iff.mpr hactive]; rfl)
  unfold slotUnloadToQueue slotUnloadInstance
  rw [hset]
  simp only [hactive, bind, Except.bind]

/-- `Yield`, where the slot and its containers agree.  The one thing that goes wrong in it is that an
empty slot is unloaded. -/
theorem SlotInvariant.yield_rule (h : SlotInvariant [] s)
    (hvoid : s.activeUmi = none → s.idleUmiQueue = [] → E .nullDeref)
    (hstay : s.yieldTarget = none → Q s)
    (hvacate : ∀ old, s.idleUmiQueue = [] → s.status = .idle → s.activeUmi = some old →
      (s.umis old).active = false → Q (s.vacate old))
    (hload : ∀ next, s.yieldTarget = some next →
      Outcome ((s.loadNext next).yieldTo next) Q E) : Outcome s.yield Q E := by
  have hbusy : s.activeIsInactive = !s.activeUmi.any fun id => (s.umis id).active := by
    cases hactive : s.activeUmi <;> simp [activeIsInactive, hactive]
  unfold yield
  cases hany : s.activeUmi.any fun id => (s.umis id).active with
  | true =>
    rw [if_pos rfl]
    exact hstay (by rw [yieldTarget, hbusy, hany]; rfl)
  | false =>
    have hinactive : s.activeIsInactive = true := by rw [hbusy, hany]; rfl
    rw [if_neg Bool.false_ne_true]
    by_cases hstatus : s.status ≠ .idle ∧ s.status ≠ .empty
    · rw [if_pos hstatus]
      refine hstay ?_
      simp [yieldTarget, hstatus.1, hstatus.2]
    rw [if_neg hstatus]
    have htarget : s.yieldTarget = s.findEligible := by
      rcases not_and_or.mp hstatus with hs | hs
      · simp [yieldTarget, hinactive, not_not.mp hs]
      · simp [yieldTarget, hinactive, not_not.mp hs]
    have hidle : ∀ old, s.activeUmi = some old → s.status = .idle ∧ (s.umis old).active = false := by
      intro old hold
      refine ⟨not_not.mp fun hne => ?_, (activeIsInactive_of_some hold).mp hinactive⟩
      exact hstatus ⟨hne, h.status_ne_empty hold⟩
    by_cases hqueue : s.idleUmiQueue.length = 0
    · rw [if_pos hqueue]
      have hnil := List.length_eq_zero_iff.mp hqueue
      cases hactive : s.activeUmi with
      | none =>
        rw [h.slotUnloadToQueue_of_none hactive]
        exact hvoid hactive hnil
      | some old =>
        obtain ⟨hold, hflag⟩ := hidle old hactive
        have hunload : s.slotUnloadToQueue = .ok (s.vacate old) :=
          slotUnloadToQueue_of_idle hold hactive
        rw [hunload]
        exact hvacate old hnil hold hactive hflag
    rw [if_neg hqueue]
    cases hnext : s.findEligible with
    | none => exact hstay (htarget.trans hnext)
    | some next =>
      have humi := h.inactive_of_mem (h.mem_of_findEligible hnext).1
      have hloaded := hload next (htarget.trans hnext)
      simp only [humi]
      cases hactive : s.activeUmi with
      | none =>
        have hempty : (s.takeInactive next).status = .empty := h.empty_iff.mpr hactive
        rw [loadNext, hactive] at hloaded
        rw [if_neg (by rw [hempty]; decide), if_pos hempty, slotLoadInstance_of_empty hempty]
        exact hloaded
      | some old =>
        have hold : (s.takeInactive next).status = .idle := (hidle old hactive).1
        rw [loadNext, hactive] at hloaded
        rw [if_pos hold, slotSwapInstance_of_idle hold hactive]
        exact hloaded

/-! ## What a yield does -/

/-- What `Yield` does to the slot and the queue. -/
inductive Yielded (s : Core) : Core → Prop where
  /-- The state is left unchanged. -/
  | unchanged : Yielded s s
  /-- The instance in the idle slot is inactive and nobody is queued: it is moved to the queue. -/
  | vacated (old : UmiId) (hqueue : s.idleUmiQueue = []) (hidle : s.status = .idle)
      (hold : s.activeUmi = some old) (hinactive : (s.umis old).active = false) :
      Yielded s (s.vacate old)
  /-- The first active instance of the queue is loaded, in place of an inactive one, which is queued
  last; it is in the slot, unless it was to be halted and has been handed back. -/
  | loaded (t : Core) (pre : List UmiId) (next : UmiId) (post : List UmiId)
      (hqueue : s.idleUmiQueue = pre ++ next :: post) (hpre : ∀ z ∈ pre, s.eligible z = false)
      (hnext : s.eligible next = true ∧ (s.umis next).active = true)
      (hold : ∀ old, s.activeUmi = some old → s.status = .idle ∧ (s.umis old).active = false)
      (hqueue' : t.idleUmiQueue = pre ++ post ++ s.activeUmi.toList)
      (hslot : t.activeUmi = some next ∨ s.inactiveUmiHaltMap next = true ∧ t.activeUmi = none ∧
        ∃ call, t.handedBack = (call, next) :: s.handedBack) : Yielded s t

/-- The instance that the search finds is the first eligible one. -/
theorem SlotInvariant.split_of_findEligible (h : SlotInvariant [] s)
    (hnext : s.findEligible = some next) : ∃ pre post, s.idleUmiQueue = pre ++ next :: post ∧
      (∀ z ∈ pre, s.eligible z = false) ∧ s.eligible next = true ∧ next ∉ pre := by
  obtain ⟨pre, id, post, hqueue, hid, hpre⟩ := List.findSome?_eq_some_iff.mp hnext
  obtain ⟨hget, hactive⟩ := Option.filter_eq_some_iff.mp hid
  have hnodup := h.queue_nodup
  rw [hqueue, List.nodup_middle, List.nodup_cons] at hnodup
  have hmem : id ∈ s.idleUmiQueue := by
    rw [hqueue]
    exact List.mem_append_right pre List.mem_cons_self
  obtain rfl : next = id := by
    unfold getInstance at hget
    split_ifs at hget with hnull hslot
    · exact absurd hmem (h.active_not_mem id hslot)
    · exact h.inactive_eq id next hget
  refine ⟨pre, post, hqueue, fun z hz => ?_, ?_, fun hin => hnodup.1 (List.mem_append_left post hin)⟩
  · have hfound := hpre z hz
    unfold eligible
    cases hz' : s.getInstance z with
    | none => rfl
    | some y =>
      rw [hz'] at hfound
      simpa using hfound
  · rw [eligible, hget]
    exact hactive

/-- The queue after the instance `next` has been loaded. -/
theorem queue_loadNext {pre post : List UmiId} (hqueue : s.idleUmiQueue = pre ++ next :: post)
    (hnot : next ∉ pre) :
    (s.loadNext next).idleUmiQueue = pre ++ post ++ s.activeUmi.toList := by
  have herase : s.idleUmiQueue.erase next = pre ++ post := by
    rw [hqueue, List.erase_append_right _ hnot, List.erase_cons_head]
  cases hactive : s.activeUmi with
  | none =>
    rw [loadNext, hactive, Option.toList_none, List.append_nil]
    exact herase
  | some old =>
    rw [loadNext, hactive, Option.toList_some]
    exact congrArg (· ++ [old]) herase

/-- The end of a yield leaves the queue as it is, and `next` in the slot, unless it was to be
halted. -/
theorem yieldTo_loadNext : Outcome ((s.loadNext next).yieldTo next)
    (fun t => t.idleUmiQueue = (s.loadNext next).idleUmiQueue ∧
      (t.activeUmi = some next ∨ s.inactiveUmiHaltMap next = true ∧ t.activeUmi = none ∧
        ∃ call, t.handedBack = (call, next) :: s.handedBack)) (crashesLoaded · = true) := by
  have hmap : (s.loadNext next).inactiveUmiHaltMap = s.inactiveUmiHaltMap ∧
      (s.loadNext next).handedBack = s.handedBack := by
    unfold loadNext
    cases s.activeUmi with
    | none => exact ⟨rfl, rfl⟩
    | some old => exact ⟨rfl, rfl⟩
  refine yieldTo_outcome_of_loaded rfl rfl (fun _ he => he) ⟨rfl, Or.inl rfl⟩
    (fun m _ => ⟨rfl, Or.inl rfl⟩) (fun m call hhalt => ?_) ⟨rfl, Or.inl rfl⟩
    fun ctx => ⟨rfl, Or.inl rfl⟩
  refine ⟨?_, Or.inr ⟨hmap.1 ▸ hhalt, rfl, call, ?_⟩⟩
  · rfl
  · exact congrArg ((call, next) :: ·) hmap.2

/-- What `Yield` does, with the slot occupied or somebody queued. -/
theorem SlotInvariant.yield_yielded (h : SlotInvariant [] s)
    (hne : s.activeUmi ≠ none ∨ s.idleUmiQueue ≠ []) :
    Outcome s.yield s.Yielded (crashesLoaded · = true) := by
  refine h.yield_rule (fun hnone hnil => ?_) (fun _ => .unchanged)
    (fun old hqueue hidle hold hinactive => .vacated old hqueue hidle hold hinactive)
    fun next htarget => yieldTo_loadNext.mono (fun t ht => ?_) fun _ he => he
  · exact absurd hne (by simp [hnone, hnil])
  obtain ⟨hinactive, hstatus, hnext⟩ := of_yieldTarget htarget
  obtain ⟨pre, post, hqueue, hpre, heligible, hnot⟩ := h.split_of_findEligible hnext
  refine .loaded t pre next post hqueue hpre ⟨heligible, (h.mem_of_findEligible hnext).2⟩
    (fun old hold => ⟨?_, (activeIsInactive_of_some hold).mp hinactive⟩)
    (ht.1.trans (queue_loadNext hqueue hnot)) ht.2
  exact hstatus.resolve_right (h.status_ne_empty hold)

end Yield

/-! ## Runs -/

/-- The instance that a step loads into the slot by a `Yield`. -/
def yieldLoads (s : Core) (a : Step) : Option UmiId :=
  (s.yieldCall a).bind yieldTarget

/-- A step that calls `Yield` has not moved an instance to the front of the queue. -/
def keepsOrder (s : Core) (a : Step) : Bool :=
  (s.yieldCall a).all fun t => t.idleUmiQueue == s.idleUmiQueue

/-- The number of instances that the `Yield`s of a run load. -/
def loadsByYield (s : Core) (as : List Step) : ℕ :=
  servedIn step yieldLoads s as

section Runs

variable {s t : Core} {a : Step} {x : UmiId}

/-- A queued active instance is eligible. -/
theorem SlotInvariant.eligible_of_mem (h : SlotInvariant [] s) (hnull : x ≠ nullId)
    (hmem : x ∈ s.idleUmiQueue) (hactive : (s.umis x).active = true) : s.eligible x = true := by
  have hget : s.getInstance x = some x := by
    unfold getInstance
    rw [if_neg hnull, if_neg fun hslot => h.active_not_mem x hslot hmem, h.inactive_of_mem hmem]
  rw [eligible, hget]
  exact hactive

/-- Before it calls `Yield`, a step makes no instance inactive. -/
theorem active_of_yieldCall (h : s.yieldCall a = some t) (hactive : (s.umis x).active = true) :
    (t.umis x).active = true := by
  have hresume : ∀ (u : Core) (id : UmiId), (u.umis x).active = true →
      u.resumeYieldCall id = some t →
      (t.umis x).active = true := by
    intro u id hu hcall
    unfold resumeYieldCall at hcall
    split_ifs at hcall
    exact Option.some.inj hcall ▸ hu
  cases a with
  | yield => exact Option.some.inj h ▸ hactive
  | dispatch i =>
    simp only [yieldCall] at h
    split_ifs at h
    exact Option.some.inj h ▸ hactive
  | signalHalt id =>
    simp only [yieldCall] at h
    split_ifs at h
    exact Option.some.inj h ▸ hactive
  | signalResume id => exact hresume s id hactive h
  | processIncoming id payload =>
    obtain ⟨y, -, hcall⟩ := Option.bind_eq_some_iff.mp h
    refine hresume _ y ?_ hcall
    cases payload with
    | false => exact hactive
    | true =>
      change (Function.update s.umis y (s.umis y).setActive x).active = true
      rw [Function.update_apply]
      split_ifs
      · rfl
      · exact hactive
  | _ => cases h

/-- `Yield` serves the queue. -/
theorem SlotInvariant.yield_queueChange (h : SlotInvariant [] s) : Outcome s.yield
    (fun t => QueueChange s.eligible s.idleUmiQueue t.idleUmiQueue s.yieldTarget)
    fun _ => True := by
  refine h.yield_rule (fun _ _ => trivial) (fun hnone => ?_) (fun old hqueue _ _ _ => ?_)
    fun next htarget => yieldTo_loadNext.mono (fun t ht => ?_) fun _ _ => trivial
  · rw [hnone]
    exact .join [] (List.append_nil _).symm
  · have hnone : s.yieldTarget = none :=
      Option.eq_none_iff_forall_ne_some.mpr fun next htarget =>
        absurd (hqueue ▸ h.mem_of_yieldTarget htarget) List.not_mem_nil
    rw [hnone]
    exact .join [old] rfl
  · obtain ⟨pre, post, hqueue, hpre, heligible, hnot⟩ :=
      h.split_of_findEligible (of_yieldTarget htarget).2.2
    rw [htarget]
    exact .serve pre next post _ hqueue hpre heligible (ht.1.trans (queue_loadNext hqueue hnot))

/-- `Halt` leaves the queue as it is. -/
theorem halt_keepsQueue : Outcome s.halt (fun t => t.idleUmiQueue = s.idleUmiQueue)
    fun _ => True :=
  halt_outcome (fun _ _ => trivial) (fun _ => trivial) (fun _ => trivial)
    (fun _ _ _ _ _ => rfl) fun _ call _ _ _ _ _ => by cases call <;> rfl

/-- Unblocking an instance leaves the queue as it is. -/
theorem kick_keepsQueue {id : UmiId} : Outcome (s.kick id)
    (fun t => t.idleUmiQueue = s.idleUmiQueue) fun _ => True :=
  kick_outcome (fun _ _ => trivial) rfl fun _ _ _ => rfl

/-- The return of `Block` leaves the queue as it is. -/
theorem returnFromBlock_keepsQueue {guest : UmiId} : Outcome (s.returnFromBlock guest)
    (fun t => t.idleUmiQueue = s.idleUmiQueue) fun _ => True :=
  returnFromBlock_outcome (fun _ _ => trivial) (fun _ => trivial) fun _ => rfl

/-- A step that does not call `Yield` queues instances last, if any. -/
theorem exec_appends (hcall : s.yieldCall a = none) : Outcome (s.exec a)
    (fun t => ∃ new, t.idleUmiQueue = s.idleUmiQueue ++ new) fun _ => True := by
  have hkeep : ∀ {r : Except Abort Core},
      Outcome r (fun t => t.idleUmiQueue = s.idleUmiQueue) (fun _ => True) →
      Outcome r (fun t => ∃ new, t.idleUmiQueue = s.idleUmiQueue ++ new) fun _ => True :=
    fun hr => hr.mono (fun _ ht => ⟨[], ht.trans (List.append_nil _).symm⟩) fun _ h => h
  cases a with
  | load id =>
    refine load_outcome (fun _ _ => trivial) (fun _ => ⟨[], (List.append_nil _).symm⟩)
      (fun old _ _ _ => ⟨[old], rfl⟩) fun _ => ⟨[id], rfl⟩
  | run id => exact hkeep (run_outcome (fun _ _ => trivial) fun _ => rfl)
  | start id =>
    refine hkeep (processGateway_outcome (fun _ _ => trivial) (fun _ _ _ => rfl) ?_)
    exact fun _ call _ _ _ => by cases call <;> rfl
  | signalHalt id =>
    exact hkeep (signalHalt_outcome (fun _ _ => trivial) hcall fun _ => halt_keepsQueue)
  | signalYield id => exact hkeep (signalYield_outcome rfl rfl)
  | signalResume id =>
    exact hkeep (signalResume_outcome (fun _ _ => trivial) hcall fun _ => kick_keepsQueue)
  | yield => cases hcall
  | processIncoming id payload =>
    exact hkeep (processIncoming_outcome (fun _ _ => trivial) hcall rfl
      fun _ _ _ _ => kick_keepsQueue)
  | dispatch i =>
    change Outcome (s.dispatch i) _ _
    unfold dispatch
    cases he : s.events[i]? with
    | none => exact hkeep (outcome_ok.mpr rfl)
    | some e =>
      cases e with
      | yield =>
        simp only [yieldCall, he, if_true] at hcall
        cases hcall
      | halt => exact hkeep halt_keepsQueue
      | processOutgoing writer pkt =>
        exact hkeep (processOutgoing_outcome (fun _ _ => trivial) rfl (fun _ => rfl)
          fun _ _ _ _ _ => rfl)
      | activateContext ctx =>
        exact hkeep (activateContext_outcome (fun _ => returnFromBlock_keepsQueue) rfl)
      | other => exact hkeep rfl
  | fire id now =>
    exact hkeep (fire_outcome (fun _ _ _ _ => rfl) fun _ _ _ _ _ => kick_keepsQueue)
  | poll ns now =>
    refine hkeep (poll_outcome (fun _ _ => trivial) rfl fun _ _ _ => ?_)
    exact block_outcome (fun _ _ => trivial) (fun _ _ => trivial) (fun _ _ _ => trivial)
      (fun _ => rfl) fun _ _ _ _ _ _ => rfl
  | netread len => exact hkeep (netread_outcome (fun _ _ => trivial) fun _ _ _ => rfl)
  | halt => exact hkeep halt_keepsQueue
  | _ => exact hkeep rfl

/-- A step that keeps the order serves the queue. -/
theorem SlotInvariant.step_queueChange (h : SlotInvariant [] s) (horder : s.keepsOrder a = true)
    (hstep : s.step a = some t) (hnull : x ≠ nullId) : ∃ ready : UmiId → Bool,
      QueueChange ready s.idleUmiQueue t.idleUmiQueue (s.yieldLoads a) ∧
        (x ∈ s.idleUmiQueue → (s.umis x).active = true → ready x = true) := by
  obtain ⟨-, hexec⟩ := step_eq_some.mp hstep
  cases hcall : s.yieldCall a with
  | none =>
    obtain ⟨new, hnew⟩ := (exec_appends hcall).of_eq_ok hexec
    refine ⟨s.eligible, ?_, h.eligible_of_mem hnull⟩
    rw [yieldLoads, hcall]
    exact .join new hnew
  | some u =>
    have hslot := h.of_yieldCall hcall
    have hqueue : u.idleUmiQueue = s.idleUmiQueue := by
      simpa [keepsOrder, hcall] using horder
    rw [exec_of_yieldCall hcall] at hexec
    have hchange := hslot.yield_queueChange.of_eq_ok hexec
    rw [hqueue] at hchange
    refine ⟨u.eligible, ?_, fun hmem hactive => ?_⟩
    · rw [yieldLoads, hcall]
      exact hchange
    · exact hslot.eligible_of_mem hnull (hqueue ▸ hmem) (active_of_yieldCall hcall hactive)

/-- A step that loads an instance by a `Yield` leaves it in the slot, unless it was to be halted and
has been handed back. -/
theorem SlotInvariant.of_yieldLoads (h : SlotInvariant [] s) (hload : s.yieldLoads a = some x)
    (hstep : s.step a = some t) : t.activeUmi = some x ∨ ∃ u, s.yieldCall a = some u ∧
      u.inactiveUmiHaltMap x = true ∧ t.activeUmi = none ∧
        ∃ call, t.handedBack = (call, x) :: u.handedBack := by
  obtain ⟨-, hexec⟩ := step_eq_some.mp hstep
  obtain ⟨u, hcall, htarget⟩ := Option.bind_eq_some_iff.mp hload
  rw [exec_of_yieldCall hcall] at hexec
  have hslot : Outcome u.yield (fun t => t.activeUmi = some x ∨ u.inactiveUmiHaltMap x = true ∧
      t.activeUmi = none ∧ ∃ call, t.handedBack = (call, x) :: u.handedBack) fun _ => True := by
    refine (h.of_yieldCall hcall).yield_rule (fun _ _ => trivial) (fun hnone => ?_)
      (fun old hqueue _ _ _ => ?_) fun next hnext => ?_
    · rw [hnone] at htarget
      cases htarget
    · have hmem := (h.of_yieldCall hcall).mem_of_yieldTarget htarget
      exact absurd (hqueue ▸ hmem) List.not_mem_nil
    · obtain rfl := Option.some.inj (hnext.symm.trans htarget)
      exact yieldTo_loadNext.mono (fun _ ht => ht.2) fun _ _ => trivial
  exact (hslot.of_eq_ok hexec).imp_right fun hback => ⟨u, hcall, hback⟩

/-- In a run that moves no instance to the front of the queue, an instance that is active as long as
it is queued is loaded by a `Yield` after those before it at most. -/
theorem SlotInvariant.loaded_in_turn (h : SlotInvariant [] s) (hnull : x ≠ nullId) {as : List Step}
    {pre post : List UmiId} (horder : AllSteps Core.step (fun s a => s.keepsOrder a = true) s as)
    (hactive : AllStates Core.step (fun s => x ∈ s.idleUmiQueue → (s.umis x).active = true) s as)
    (hqueue : s.idleUmiQueue = pre ++ x :: post) (hrun : Foundations.run Core.step s as = some t)
    (hloads : pre.length < s.loadsByYield as) : ∃ as₁ a as₂ u v, as = as₁ ++ a :: as₂ ∧
      s.loadsByYield as₁ ≤ pre.length ∧ Foundations.run Core.step s as₁ = some u ∧
      u.yieldLoads a = some x ∧ u.step a = some v ∧
      (v.activeUmi = some x ∨ ∃ w, u.yieldCall a = some w ∧ w.inactiveUmiHaltMap x = true ∧
        v.activeUmi = none ∧ ∃ call, v.handedBack = (call, x) :: w.handedBack) := by
  rcases waits_run (I := SlotInvariant []) (fun _ _ _ _ hs hstep => hs.step hstep)
    (fun _ _ _ hC hs hstep => hs.step_queueChange hC hstep hnull) h horder hactive hqueue hrun with
    ⟨as₁, a, as₂, u, rfl, hu, hload, hcount⟩ | ⟨pre', post', -, hcount⟩
  · rw [run_append, hu, Option.bind_some] at hrun
    obtain ⟨v, hv, -⟩ := run_cons_eq_some.mp hrun
    have hslot : SlotInvariant [] u := run_invariant' (fun _ _ _ hs hs' => hs.step hs') h hu
    exact ⟨as₁, a, as₂, u, v, rfl, hcount, hu, hload, hv, hslot.of_yieldLoads hload hv⟩
  · have htotal : s.loadsByYield as ≤ pre.length := Nat.le_of_add_left_le hcount
    omega

end Runs

/-- `Yield` in every state in which the slot and its containers agree, with the slot occupied or
somebody queued, and every run from such a state that moves no instance to the front of the queue:
an instance that is active as long as it is queued, at position `pre.length`, is loaded after at
most that many others have been loaded by a `Yield`. -/
theorem yields_in_order {s : Core} (h : SlotInvariant [] s) :
    (s.activeUmi ≠ none ∨ s.idleUmiQueue ≠ [] →
      Outcome s.yield s.Yielded (crashesLoaded · = true)) ∧
    ∀ x pre post as t, x ≠ nullId → s.idleUmiQueue = pre ++ x :: post →
      AllSteps step (fun s a => s.keepsOrder a = true) s as →
      AllStates step (fun s => x ∈ s.idleUmiQueue → (s.umis x).active = true) s as →
      Foundations.run step s as = some t → pre.length < s.loadsByYield as →
      ∃ as₁ a as₂ u v, as = as₁ ++ a :: as₂ ∧ s.loadsByYield as₁ ≤ pre.length ∧
        Foundations.run step s as₁ = some u ∧ u.yieldLoads a = some x ∧ u.step a = some v ∧
        (v.activeUmi = some x ∨ ∃ w, u.yieldCall a = some w ∧ w.inactiveUmiHaltMap x = true ∧
          v.activeUmi = none ∧ ∃ call, v.handedBack = (call, x) :: w.handedBack) :=
  ⟨h.yield_yielded, fun _ _ _ _ _ hnull hqueue horder hactive hrun hloads =>
    h.loaded_in_turn hnull horder hactive hqueue hrun hloads⟩

/-- Instance 3 is in the slot, inactive, and instances 4 and 5 are queued; the second of two `Yield`s
loads instance 5. -/
theorem yields_in_order_second : ∃ s, Foundations.run step init
      [.load 3, .start 3, .netwrite ⟨true, true, 1⟩, .poll 1000 0, .load 4, .load 5, .dispatch 0] =
        some s ∧ Outcome s.yield s.Yielded (crashesLoaded · = true) ∧
    ∃ as₁ a as₂ u v, [.yield, .start 4, .netwrite ⟨true, true, 1⟩, .poll 1000 0, .dispatch 0,
        .yield] = as₁ ++ a :: as₂ ∧ s.loadsByYield as₁ ≤ 1 ∧ Foundations.run step s as₁ = some u ∧
      u.yieldLoads a = some 5 ∧ u.step a = some v ∧
      (v.activeUmi = some 5 ∨ ∃ w, u.yieldCall a = some w ∧ w.inactiveUmiHaltMap 5 = true ∧
        v.activeUmi = none ∧ ∃ call, v.handedBack = (call, 5) :: w.handedBack) := by
  obtain ⟨s, hs⟩ : ∃ s, Foundations.run step init
      [.load 3, .start 3, .netwrite ⟨true, true, 1⟩, .poll 1000 0, .load 4, .load 5, .dispatch 0] =
        some s := ⟨_, rfl⟩
  have hstate : (some s).map (fun s => s.idleUmiQueue) = some [4, 5] := hs ▸ rfl
  have hqueue : s.idleUmiQueue = [4] ++ 5 :: [] := Option.some.inj hstate
  have hchecks : (some s).all (fun s => decide (AllSteps step (fun s a => s.keepsOrder a = true) s
        [.yield, .start 4, .netwrite ⟨true, true, 1⟩, .poll 1000 0, .dispatch 0, .yield]) &&
      decide (AllStates step (fun s => 5 ∈ s.idleUmiQueue → (s.umis 5).active = true) s
        [.yield, .start 4, .netwrite ⟨true, true, 1⟩, .poll 1000 0, .dispatch 0, .yield]) &&
      (Foundations.run step s
        [.yield, .start 4, .netwrite ⟨true, true, 1⟩, .poll 1000 0, .dispatch 0, .yield]).isSome &&
      decide (1 < s.loadsByYield
        [.yield, .start 4, .netwrite ⟨true, true, 1⟩, .poll 1000 0, .dispatch 0, .yield])) =
      true := by
    rw [← hs]
    decide
  simp only [Option.all_some, Bool.and_eq_true, decide_eq_true_eq] at hchecks
  obtain ⟨⟨⟨horder, hactive⟩, hrun⟩, hloads⟩ := hchecks
  obtain ⟨t, ht⟩ := Option.isSome_iff_exists.mp hrun
  obtain ⟨hyield, hturn⟩ := yields_in_order (SlotInvariant.of_run hs)
  exact ⟨s, hs, hyield (Or.inr (by simp [hqueue])),
    hturn 5 [4] [] _ t (by decide) hqueue horder hactive ht hloads⟩

/-- A halt has been signalled to the queued instance 2 while it was inactive; a packet has made it
active since.  The `Yield` that loads it hands it back, and the slot is empty after it. -/
theorem not_inSlot_of_haltSignalled : ∃ s t, Foundations.run step init
      [.load 2, .start 2, .netwrite ⟨true, true, 1⟩, .poll 1000 0, .dispatch 0, .load 3, .start 3,
        .netwrite ⟨true, true, 1⟩, .poll 1000 0, .signalHalt 2, .processIncoming 2 true,
        .dispatch 0] = some s ∧
    s.idleUmiQueue = [2] ∧ (s.umis 2).active = true ∧ s.yieldTarget = some 2 ∧
    s.yield = .ok t ∧ t.activeUmi = none ∧ t.idleUmiQueue = [3] ∧
    t.handedBack = [(.start 2, 2)] := by
  obtain ⟨s, hs⟩ : ∃ s, Foundations.run step init
      [.load 2, .start 2, .netwrite ⟨true, true, 1⟩, .poll 1000 0, .dispatch 0, .load 3, .start 3,
        .netwrite ⟨true, true, 1⟩, .poll 1000 0, .signalHalt 2, .processIncoming 2 true,
        .dispatch 0] = some s := ⟨_, rfl⟩
  have hstate : (some s).map (fun s => (s.idleUmiQueue, (s.umis 2).active, s.yieldTarget)) =
      some ([2], true, some 2) := hs ▸ rfl
  simp only [Option.map_some, Option.some.injEq, Prod.mk.injEq] at hstate
  have hyield : (some s).bind (fun s => s.yield.toOption.map
      fun t => (t.activeUmi, t.idleUmiQueue, t.handedBack)) =
      some (none, [3], [(.start 2, 2)]) := hs ▸ rfl
  obtain ⟨t, ht, hafter⟩ := Option.map_eq_some_iff.mp hyield
  simp only [Prod.mk.injEq] at hafter
  exact ⟨s, t, hs, hstate.1, hstate.2.1, hstate.2.2, toOption_eq_some.mp ht, hafter⟩

end Core

end Umm
