import Umm.Manager.Wakeups

/-!
# Wake-ups by the timer

A sleeping instance is woken by `Fire`, which compares the clock with the deadline in nanoseconds.
The timer, however, is started for a whole number of microseconds: it may fire early, by less than
a microsecond.  `Fire` has then cleared `timer_set` and does not start the timer again.
-/

namespace Umm

open Foundations

/-- The instance whose timer fires, and the time the clock reads. -/
def Step.firing : Step → Option (UmiId × ℕ)
  | .fire id now => some (id, now)
  | _ => none

namespace Core

/-- The instance is blocked in the idle slot. -/
def sleepsInSlot (s : Core) (id : UmiId) : Bool :=
  s.status == .idle && s.activeUmi == some id && (s.umis id).blocked

/-- When the timer of an instance that is blocked in the idle slot fires, the saved context is
activated, or a timer is armed afterwards. -/
def WakesSleeper (s : Core) (a : Step) : Prop :=
  ∀ p ∈ a.firing, s.sleepsInSlot p.1 = true → ∀ t ∈ s.step a,
    (∃ ctx ∈ (s.umis p.1).context, ctx ∈ t.activated ∧ .activateContext ctx ∈ t.events) ∨
      (t.umis p.1).timerSet = true

instance (s : Core) (a : Step) : Decidable (s.WakesSleeper a) :=
  inferInstanceAs (Decidable (∀ p ∈ a.firing, s.sleepsInSlot p.1 = true → ∀ t ∈ s.step a,
    (∃ ctx ∈ (s.umis p.1).context, ctx ∈ t.activated ∧ .activateContext ctx ∈ t.events) ∨
      (t.umis p.1).timerSet = true))

/-- The timer of an instance that is blocked in the idle slot fires when its deadline has passed. -/
def FiresAtDeadline (s : Core) (a : Step) : Prop :=
  ∀ p ∈ a.firing, s.sleepsInSlot p.1 = true → s.enabled a = true → (s.umis p.1).timeWait ≤ p.2

section Fire

variable {s t : Core} {id : UmiId} {now : ℕ}

/-- After the deadline, `Fire` unblocks the instance in the idle slot. -/
theorem fire_of_deadline (hsleeps : s.sleepsInSlot id = true) (hwait : (s.umis id).timeWait ≠ 0)
    (hnow : (s.umis id).timeWait ≤ now) (hfire : s.fire id now = .ok t) :
    ∃ ctx, (s.umis id).context = some ctx ∧ ctx ∈ t.activated ∧ .activateContext ctx ∈ t.events := by
  simp only [sleepsInSlot, Bool.and_eq_true, beq_iff_eq] at hsleeps
  obtain ⟨⟨hstatus, hactive⟩, hblocked⟩ := hsleeps
  have hentry : s.requestSlotEntry id = true := by
    simp [requestSlotEntry, activeInstanceId, hactive, hstatus]
  have hkick : (s.setUmi id { s.umis id with timerSet := false, timeWait := 0 }).kick id = .ok t := by
    rw [← hfire, fire]
    simp only [setUmi, Function.update_self, Function.update_idem]
    rw [if_pos ⟨hwait, hnow⟩]
    exact (if_pos hentry).symm
  unfold kick at hkick
  simp only [setUmi, Function.update_self, hblocked, if_true] at hkick
  cases hctx : (s.umis id).context with
  | none => simp [hctx] at hkick
  | some ctx =>
    simp only [hctx, Except.ok.injEq] at hkick
    refine ⟨ctx, rfl, ?_, ?_⟩
    · rw [← hkick]
      exact List.mem_cons_self
    · rw [← hkick]
      exact List.mem_append_right _ (List.mem_singleton_self _)

/-- Before the deadline, `Fire` only clears `timer_set`. -/
theorem fire_of_early (hnow : now < (s.umis id).timeWait) :
    s.fire id now = .ok (s.setUmi id { s.umis id with timerSet := false }) := by
  unfold fire
  rw [if_neg]
  simp [setUmi, hnow]

/-- An early timer loses the wake-up, unless the context of the instance was activated before. -/
theorem wakesSleeper_iff (h : WakeInvariant s) (a : Step) :
    s.WakesSleeper a ↔ s.FiresAtDeadline a := by
  constructor
  · intro hwakes p hp hsleeps henabled
    obtain ⟨id, now⟩ := p
    cases a with
    | fire id' now' =>
      obtain ⟨rfl, rfl⟩ := Prod.mk.inj (Option.some.inj hp)
      by_contra hlt
      have hstep : s.step (.fire id' now') =
          some (s.setUmi id' { s.umis id' with timerSet := false }) :=
        step_eq_some.mpr ⟨henabled, fire_of_early (Nat.lt_of_not_le hlt)⟩
      have hblocked : (s.umis id').blocked = true := (Bool.and_eq_true_iff.mp hsleeps).2
      rcases hwakes _ hp hsleeps _ hstep with ⟨ctx, hctx, hmem, -⟩ | hset
      · exact h.blocked_not_activated id' ctx hblocked hctx hmem
      · simp [setUmi] at hset
    | _ => cases hp
  · intro hfires p hp hsleeps t ht
    obtain ⟨id, now⟩ := p
    cases a with
    | fire id' now' =>
      obtain ⟨rfl, rfl⟩ := Prod.mk.inj (Option.some.inj hp)
      obtain ⟨henabled, hexec⟩ := step_eq_some.mp ht
      have hset : (s.umis id').timerSet = true :=
        (Bool.and_eq_true_iff.mp (guests_of_enabled henabled rfl).2).1
      exact Or.inl (fire_of_deadline hsleeps (h.timers id' hset).1
        (hfires _ hp hsleeps henabled) hexec)
    | _ => cases hp

end Fire

/-- A timer fires less than a microsecond early. -/
theorem timer_due {as : List Step} {t : Core} (hrun : Foundations.run Core.step init as = some t)
    {id : UmiId} {now : ℕ} (henabled : t.enabled (.fire id now) = true) :
    (t.umis id).timeWait < now + 1000 := by
  obtain ⟨-, hadmits⟩ := guests_of_enabled henabled rfl
  obtain ⟨hset, hdue⟩ := Bool.and_eq_true_iff.mp hadmits
  obtain ⟨-, -, hlt⟩ := (WakeInvariant.of_run hrun).timers id hset
  have hdue := of_decide_eq_true hdue
  omega

/-- In a run, every firing timer of a sleeping instance wakes it, or a timer is armed again, exactly
when every such timer fires after the deadline. -/
theorem timer_wakes_iff (as : List Step) :
    AllSteps Core.step WakesSleeper init as ↔ AllSteps Core.step FiresAtDeadline init as := by
  refine allSteps_congr
    (I := fun s => SlotInvariant [] s ∧ ControlInvariant s ∧ WakeInvariant s)
    (fun s a hs => wakesSleeper_iff hs.2.2 a)
    (fun _ _ _ hs hs' => ⟨hs.1.step hs', hs.2.1.step hs.1 hs', hs.2.2.step hs.2.1 hs'⟩)
    ⟨slotInvariant_init, controlInvariant_init, wakeInvariant_init⟩

/-- Instance 2 sleeps for one and a half microseconds; its timer fires after one. -/
theorem not_wakesSleeper_of_early : ¬ AllSteps Core.step WakesSleeper init
    [.load 2, .start 2, .poll 1500 0, .fire 2 1000] := by
  decide

end Core

end Umm
