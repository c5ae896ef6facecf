import Umm.Manager.Rules

/-!
# Steps that yield the slot

Several steps of a core end in a call of `Yield`, each from a state of its own: `yieldCall` is that
state.  What a yield does to the slot can be told beforehand: it swaps in `yieldTarget`, or, when no
instance is queued, leaves the slot empty (`yieldVacates`).
-/

namespace Umm

open Foundations

namespace Core

/-- The active instance may be swapped out: it is marked inactive. -/
def activeIsInactive (s : Core) : Bool :=
  s.activeUmi.all fun id => !(s.umis id).active

/-- The instance that `Yield` loads into the slot. -/
def yieldTarget (s : Core) : Option UmiId :=
  if s.activeIsInactive && (s.status == .idle || s.status == .empty) then s.findEligible else none

/-- `Yield` empties the slot. -/
def yieldVacates (s : Core) : Bool :=
  s.activeIsInactive && s.status == .idle && s.idleUmiQueue.isEmpty

/-- The state in which `SignalResume` calls `Yield`, if it does. -/
def resumeYieldCall (s : Core) (id : UmiId) : Option Core :=
  if s.activeInstanceId = id then none else some (s.slotQueueMoveToFront id)

/-- The state in which a step calls `Yield`, if it does. -/
def yieldCall (s : Core) : Step → Option Core
  | .yield => some s
  | .dispatch i =>
    if s.events[i]? = some .yield then some { s with events := s.events.eraseIdx i } else none
  | .signalHalt id =>
    if s.activeUmi = none ∨ s.activeUmi = some id then none
    else
      some { s.slotQueueMoveToFront id with
        inactiveUmiHaltMap := Function.update s.inactiveUmiHaltMap id true }
  | .signalResume id => s.resumeYieldCall id
  | .processIncoming id payload =>
    (s.getInstance id).bind fun x =>
      (if payload then s.setUmi x (s.umis x).setActive else s).resumeYieldCall x
  | _ => none

/-- The instance that a step loads into the slot. -/
def loadTarget (s : Core) (a : Step) : Option UmiId :=
  match a with
  | .load id =>
    if s.status = .empty ∨ s.status = .idle ∧ s.activeIsInactive then some id else none
  | .run id => if s.status = .empty then some id else none
  | _ => (s.yieldCall a).bind yieldTarget

section Rules

variable {s t : Core} {a : Step} {Q : Core → Prop} {E : Abort → Prop}

/-- Whether the instance in the slot is inactive. -/
theorem activeIsInactive_of_some {id : UmiId} (hactive : s.activeUmi = some id) :
    s.activeIsInactive = true ↔ (s.umis id).active = false := by
  simp [activeIsInactive, hactive]

/-- `SignalResume` of an instance that is not in the slot ends in `Yield`. -/
theorem signalResume_of_resumeYieldCall {id : UmiId} (h : s.resumeYieldCall id = some t) :
    s.signalResume id = t.yield := by
  unfold resumeYieldCall at h
  unfold signalResume
  split_ifs at h with hid
  rw [if_neg hid, Option.some.inj h]

/-- A step that calls `Yield` does what `Yield` does. -/
theorem exec_of_yieldCall (h : s.yieldCall a = some t) : s.exec a = t.yield := by
  cases a with
  | yield => exact congrArg yield (Option.some.inj h)
  | dispatch i =>
    simp only [yieldCall] at h
    split_ifs at h with he
    change s.dispatch i = t.yield
    unfold dispatch
    rw [he, ← Option.some.inj h]
    rfl
  | signalHalt id =>
    simp only [yieldCall] at h
    split_ifs at h with hid
    obtain ⟨hnone, hne⟩ := not_or.mp hid
    obtain ⟨x, hx⟩ := Option.ne_none_iff_exists'.mp hnone
    change s.signalHalt id = t.yield
    unfold signalHalt
    rw [hx, ← Option.some.inj h]
    exact if_neg fun heq => hne (hx.trans (congrArg some heq.symm))
  | signalResume id => exact signalResume_of_resumeYieldCall h
  | processIncoming id payload =>
    obtain ⟨x, hx, h⟩ := Option.bind_eq_some_iff.mp h
    change s.processIncoming id payload = t.yield
    unfold processIncoming
    rw [hx]
    exact signalResume_of_resumeYieldCall h
  | _ => cases h

/-- It loads what `Yield` loads. -/
theorem loadTarget_of_yieldCall (h : s.yieldCall a = some t) : s.loadTarget a = t.yieldTarget := by
  cases a with
  | load id => cases h
  | run id => cases h
  | _ => exact (congrArg (Option.bind · yieldTarget) h).trans rfl

/-- Before it calls `Yield`, a step has at most taken its event, marked instances and reordered the
queue. -/
theorem of_yieldCall {P : Core → Prop} (h : s.yieldCall a = some t) (hs : P s)
    (herase : ∀ i, P { s with events := s.events.eraseIdx i })
    (hset : ∀ x y, y.SameWait (s.umis x) → P (s.setUmi x y))
    (hmove : ∀ u id, P u → P (u.slotQueueMoveToFront id))
    (hmark : ∀ u m, P u → P { u with inactiveUmiHaltMap := m }) : P t := by
  have hresume : ∀ u id, P u → u.resumeYieldCall id = some t → P t := by
    intro u id hu hcall
    unfold resumeYieldCall at hcall
    split_ifs at hcall
    exact Option.some.inj hcall ▸ hmove u id hu
  cases a with
  | yield => exact Option.some.inj h ▸ hs
  | dispatch i =>
    simp only [yieldCall] at h
    split_ifs at h
    exact Option.some.inj h ▸ herase i
  | signalHalt id =>
    simp only [yieldCall] at h
    split_ifs at h
    exact Option.some.inj h ▸ hmark _ _ (hmove s id hs)
  | signalResume id => exact hresume s id hs h
  | processIncoming id payload =>
    obtain ⟨x, -, hcall⟩ := Option.bind_eq_some_iff.mp h
    cases payload with
    | true => exact hresume _ x (hset x _ (UmInstance.sameWait_setActive _)) hcall
    | false => exact hresume s x hs hcall
  | _ => cases h

/-- No hypercall calls `Yield`. -/
theorem isHypercall_of_yieldCall (h : s.yieldCall a = some t) : a.isHypercall = false := by
  cases a with
  | poll ns now => cases h
  | netwrite pkt => cases h
  | netread len => cases h
  | halt => cases h
  | _ => rfl

/-! ## The same steps when they do not yield -/

/-- `SignalYield` spawns an event for the active instance only. -/
theorem signalYield_outcome {id : UmiId} (hkeep : Q s) (hspawn : Q (s.spawnLocal .yield)) :
    Outcome (s.exec (.signalYield id)) Q E := by
  change Q (s.signalYield id)
  unfold signalYield
  split_ifs
  · exact hkeep
  · exact hspawn

/-- The rule of `SignalResume` when it does not yield. -/
theorem signalResume_outcome {id : UmiId} (hE : ∀ e, e.isOther = true → E e)
    (hcall : s.resumeYieldCall id = none)
    (hkick : s.activeUmi = some id → Outcome (s.kick id) Q E) :
    Outcome (s.signalResume id) Q E := by
  unfold resumeYieldCall at hcall
  unfold signalResume
  split_ifs at hcall with hid
  rw [if_pos hid]
  cases hactive : s.activeUmi with
  | none => exact hE _ rfl
  | some x =>
    have hx : x = id := by simpa [activeInstanceId, hactive] using hid
    exact hx ▸ hkick (hx ▸ hactive)

/-- The rule of `SignalHalt` when it does not yield. -/
theorem signalHalt_outcome {id : UmiId} (hE : ∀ e, e.isOther = true → E e)
    (hcall : s.yieldCall (.signalHalt id) = none)
    (hhalt : s.activeUmi = some id → Outcome s.halt Q E) : Outcome (s.signalHalt id) Q E := by
  simp only [yieldCall] at hcall
  unfold signalHalt
  cases hactive : s.activeUmi with
  | none => exact hE _ rfl
  | some x =>
    simp only [hactive, reduceCtorEq, Option.some.injEq, false_or] at hcall
    split_ifs at hcall with hx
    rw [hx]
    exact (congrArg (Outcome · Q E) (if_pos rfl)).mpr (hhalt (hx ▸ hactive))

/-- The rule of `ProcessIncoming` when it does not yield. -/
theorem processIncoming_outcome {id : UmiId} {payload : Bool}
    (hE : ∀ e, e.isOther = true → E e)
    (hcall : s.yieldCall (.processIncoming id payload) = none) (hstay : Q s)
    (hkick : ∀ x y, s.activeUmi = some x → y.SameWait (s.umis x) →
      Outcome ((s.setUmi x y).kick x) Q E) :
    Outcome (s.processIncoming id payload) Q E := by
  unfold processIncoming
  cases hx : s.getInstance id with
  | none => exact hstay
  | some x =>
    simp only [yieldCall, hx, Option.bind_some] at hcall
    cases payload with
    | true =>
      exact signalResume_outcome hE hcall
        fun hactive => hkick x _ hactive (UmInstance.sameWait_setActive _)
    | false =>
      refine signalResume_outcome hE hcall fun hactive => ?_
      have hself := hkick x _ hactive (UmInstance.SameWait.refl _)
      rwa [setUmi_self] at hself

/-! ## The yield -/

/-- What a yield can do, in terms of its target. -/
theorem yield_outcome_of_target (hE : ∀ e, e.isOther = true → E e) (hstay : Q s)
    (hvacate : ∀ old, s.activeUmi = some old → (s.status ≠ .empty → s.yieldVacates = true) →
      Q (s.vacate old))
    (hswap : ∀ next umi old, s.yieldTarget = some next → s.activeUmi = some old →
      s.inactiveUmiMap next = some umi →
      Outcome ((((s.takeInactive next).vacate old).occupy umi).yieldTo next) Q E)
    (hload : ∀ next umi, s.status = .empty → (s.activeUmi = none → s.yieldTarget = some next) →
      s.inactiveUmiMap next = some umi →
      Outcome (((s.takeInactive next).occupy umi).yieldTo next) Q E) :
    Outcome s.yield Q E := by
  refine yield_outcome hE (fun _ => hstay) ?_ ?_ ?_
  · intro old hstatus hold hinactive hqueue
    refine hvacate old hold fun hne => ?_
    rw [yieldVacates, (activeIsInactive_of_some hold).mpr hinactive, hstatus.resolve_right hne,
      hqueue]
    rfl
  · intro next umi old hidle hold hinactive hnext humi
    refine hswap next umi old ?_ hold humi
    rw [yieldTarget, (activeIsInactive_of_some hold).mpr hinactive, hidle]
    exact hnext
  · intro next umi hempty hnext humi
    refine hload next umi hempty (fun hnone => ?_) humi
    rw [yieldTarget, activeIsInactive, hnone, hempty]
    exact hnext

end Rules

end Core

end Umm
