import Umm.Manager.Frames

/-!
# Halting a queued instance

`SignalHalt` of a queued instance moves it to the front of the queue, marks it as to be halted and
yields.  `Yield` takes the first active instance of the queue, and completes a promised activation
before it looks at the mark; so an inactive instance is passed over, and an instance that waits for
its activation is started with the mark still pending.
-/

namespace Umm

open Foundations

namespace Core

/-- Since the log of the returns was `back`, the instance `umi` has been loaded into the slot and set
halting: it is still there, or it has been handed back. -/
def HaltedSince (back : List (Call × UmiId)) (umi : UmiId) (t : Core) : Prop :=
  t.activeUmi = some umi ∧ t.status = .halting ∨ ∃ call, t.handedBack = (call, umi) :: back

/-- The state in which `SignalHalt` of the queued instance `umi` yields. -/
def haltSignalled (s : Core) (umi : UmiId) : Core :=
  { s.slotQueueMoveToFront umi with
    inactiveUmiHaltMap := Function.update s.inactiveUmiHaltMap umi true }

section Yield

variable {s : Core} {next umi old : UmiId}

/-- The instance in the idle slot is queued. -/
theorem slotUnloadToQueue_of_idle (hidle : s.status = .idle) (hactive : s.activeUmi = some old) :
    s.slotUnloadToQueue = .ok (s.vacate old) := by
  unfold slotUnloadToQueue slotUnloadInstance
  rw [setStatus_of_allows (by simp [Status.allows, hidle])]
  simp only [hactive, bind, Except.bind]
  rfl

/-- The idle slot is swapped. -/
theorem slotSwapInstance_of_idle (hidle : s.status = .idle) (hactive : s.activeUmi = some old) :
    s.slotSwapInstance umi = .ok ((s.vacate old).occupy umi) := by
  have hunload := slotUnloadToQueue_of_idle hidle hactive
  have hload : (s.vacate old).slotLoadInstance umi = .ok ((s.vacate old).occupy umi) :=
    slotLoadInstance_of_empty rfl
  unfold slotSwapInstance
  rw [if_pos (by simp [hidle]), hunload]
  exact hload

/-- `Yield` of an inactive instance in the idle slot loads the eligible one. -/
theorem yield_of_eligible (hidle : s.status = .idle) (hactive : s.activeUmi = some old)
    (hinactive : (s.umis old).active = false) (hnext : s.findEligible = some next)
    (humi : s.inactiveUmiMap next = some umi) :
    s.yield = (((s.takeInactive next).vacate old).occupy umi).yieldTo next := by
  have hqueue : s.idleUmiQueue.length ≠ 0 := by
    intro hnil
    simp [findEligible, List.length_eq_zero_iff.mp hnil] at hnext
  have htake : (s.takeInactive next).status = .idle := hidle
  have hswap : (s.takeInactive next).slotSwapInstance umi =
      .ok (((s.takeInactive next).vacate old).occupy umi) :=
    slotSwapInstance_of_idle hidle hactive
  unfold yield
  rw [if_neg (by simp [hactive, hinactive]), if_neg (by simp [hidle]), if_neg hqueue]
  simp only [hnext, humi, htake, if_true, hswap]
  rfl

/-- The end of a yield to an instance that is to be halted and waits for no activation. -/
theorem yieldTo_of_halt (hloaded : s.status = .loaded)
    (hpromise : s.activationPromiseMap next = false) (hhalt : s.inactiveUmiHaltMap next = true) :
    s.yieldTo next = { s with
      status := .idle
      inactiveUmiHaltMap := Function.update s.inactiveUmiHaltMap next false }.halt := by
  unfold yieldTo
  simp only [hpromise, Bool.false_eq_true, if_false, hhalt, if_true]
  rw [setStatus_of_allows (by simp [Status.allows, hloaded])]
  rfl

/-- An active instance at the front of the queue is the eligible one. -/
theorem findEligible_of_front (hslot : SlotInvariant [] s) (hcontrol : ControlInvariant s)
    (hfront : s.idleUmiQueue.head? = some umi) (hactive : (s.umis umi).active = true) :
    s.findEligible = some umi := by
  obtain ⟨rest, hqueue⟩ : ∃ rest, s.idleUmiQueue = umi :: rest := by
    cases hq : s.idleUmiQueue with
    | nil => simp [hq] at hfront
    | cons u rest =>
      rw [hq] at hfront
      exact ⟨rest, by rw [Option.some.inj hfront]⟩
  have hget := getInstance_of_mem_queue hslot hcontrol (hqueue ▸ List.mem_cons_self)
  unfold findEligible
  rw [hqueue, List.findSome?_cons, hget]
  simp only [Option.filter, hactive, if_true]

/-- A queued instance moves to the front. -/
theorem head?_slotQueueMoveToFront (hmem : umi ∈ s.idleUmiQueue) :
    (s.slotQueueMoveToFront umi).idleUmiQueue.head? = some umi := by
  unfold slotQueueMoveToFront
  split_ifs with hfront
  · exact hfront
  · rfl

end Yield

section SignalHalt

variable {s : Core} {umi x : UmiId}

/-- `Halt` of an instance that has been entered, in the idle slot. -/
theorem halt_of_idle (hidle : s.status = .idle) (hactive : s.activeUmi = some umi)
    (hentered : s.Entered umi) : ∃ t, s.halt = .ok t ∧ t.HaltedSince s.handedBack umi := by
  have hempty : s.status ≠ .empty := by simp [hidle]
  have hfinished : s.status ≠ .finished := by simp [hidle]
  by_cases hevents : s.events = []
  · obtain ⟨call, hframe⟩ := Option.ne_none_iff_exists'.mp hentered
    exact ⟨_, halt_of_entered hactive hempty hfinished hevents hframe, Or.inr ⟨call, rfl⟩⟩
  · refine ⟨_, (halt_of_active hactive hempty hfinished).trans (if_pos ?_), Or.inl ⟨hactive, rfl⟩⟩
    exact fun h => hevents (List.length_eq_zero_iff.mp h)

/-- A loaded instance that is to be halted is, unless it waits for its activation. -/
theorem yieldTo_halts (hloaded : s.status = .loaded) (hactive : s.activeUmi = some umi)
    (hpromise : s.activationPromiseMap umi = false) (hhalt : s.inactiveUmiHaltMap umi = true)
    (hentered : s.Entered umi) : ∃ t, s.yieldTo umi = .ok t ∧ t.HaltedSince s.handedBack umi := by
  rw [yieldTo_of_halt hloaded hpromise hhalt]
  exact halt_of_idle (s := { s with
    status := .idle
    inactiveUmiHaltMap := Function.update s.inactiveUmiHaltMap umi false }) rfl hactive hentered

theorem signalHalt_of_queued (hslot : SlotInvariant [] s) (hactive : s.activeUmi = some x)
    (hmem : umi ∈ s.idleUmiQueue) :
    s.yieldCall (.signalHalt umi) = some (s.haltSignalled umi) := by
  have hne : ¬(s.activeUmi = none ∨ s.activeUmi = some umi) := by
    rintro (h | h)
    · simp [hactive] at h
    · exact hslot.active_not_mem umi h hmem
  exact if_neg hne

/-- An active instance that has been activated is loaded and set halting. -/
theorem signalHalt_halts (hslot : SlotInvariant [] s) (hcontrol : ControlInvariant s)
    {P : Call × UmiId → Prop} (hframe : FrameInvariant P s) (hidle : s.status = .idle)
    (hactive : s.activeUmi = some x) (hinactive : (s.umis x).active = false)
    (hmem : umi ∈ s.idleUmiQueue) (humi : (s.umis umi).active = true)
    (hpromise : s.activationPromiseMap umi = false) :
    ∃ t, s.signalHalt umi = .ok t ∧ t.HaltedSince s.handedBack umi := by
  have hcall := signalHalt_of_queued hslot hactive hmem
  have hnext : (s.haltSignalled umi).findEligible = some umi :=
    findEligible_of_front (hslot.of_yieldCall hcall) (hcontrol.of_yieldCall hcall)
      (head?_slotQueueMoveToFront hmem) humi
  have hmap : (s.haltSignalled umi).inactiveUmiMap umi = some umi := hslot.inactive_of_mem hmem
  obtain ⟨loaded, hloaded⟩ : ∃ t : Core,
      t = (((s.haltSignalled umi).takeInactive umi).vacate x).occupy umi := ⟨_, rfl⟩
  have hyield : s.signalHalt umi = loaded.yieldTo umi := by
    rw [hloaded]
    exact (exec_of_yieldCall hcall).trans (yield_of_eligible hidle hactive hinactive hnext hmap)
  have hback : loaded.handedBack = s.handedBack := by rw [hloaded]; rfl
  have hmarked : loaded.inactiveUmiHaltMap umi = true := by
    rw [hloaded]
    exact Function.update_self umi true s.inactiveUmiHaltMap
  have hentered : loaded.Entered umi := by
    rw [hloaded]
    exact hframe.queued umi hmem hpromise
  rw [hyield, ← hback]
  exact yieldTo_halts (by rw [hloaded]; rfl) (by rw [hloaded]; rfl) (by rw [hloaded]; exact hpromise)
    hmarked hentered

/-- An instance that a yield sets halting is active and waits for no activation. -/
theorem yieldTo_haltedSince (umi : UmiId) {next : UmiId} (hloaded : s.status = .loaded)
    (hactive : s.activeUmi = some next) :
    Outcome (s.yieldTo next) (fun t => t.HaltedSince s.handedBack umi →
      next = umi ∧ s.activationPromiseMap next = false) fun _ => True := by
  have hback : ∀ t : Core, t.handedBack = s.handedBack → t.status ≠ .halting →
      ¬ t.HaltedSince s.handedBack umi := by
    rintro t ht hne (⟨-, hs⟩ | ⟨call, hcall⟩)
    · exact hne hs
    · exact List.cons_ne_self _ _ (hcall.symm.trans ht)
  refine Core.yieldTo_outcome hloaded hactive (fun _ => ?_) (fun hp _ => ?_) fun _ => ?_
  · exact fun h => absurd h (hback _ rfl (by simp [hloaded]))
  · refine Core.halt_outcome (fun _ _ => trivial) (fun _ => trivial) (fun _ => trivial) ?_ ?_
    · intro id _ _ hid _ hhalted
      rcases hhalted with ⟨ha, -⟩ | ⟨call, hcall⟩
      · exact ⟨Option.some.inj (hactive.symm.trans ha), hp⟩
      · exact absurd hcall.symm (List.cons_ne_self _ _)
    · intro id call _ _ hid _ _ hhalted
      obtain rfl : next = id := Option.some.inj (hactive.symm.trans hid)
      rcases hhalted with ⟨ha, -⟩ | ⟨call', hcall⟩
      · cases ha
      · exact ⟨(Prod.mk.inj (List.cons.inj hcall).1).2, hp⟩
  · exact Core.kick_outcome (fun _ _ => trivial) (fun h => absurd h (hback _ rfl fun h => by cases h))
      fun _ _ _ h => absurd h (hback _ rfl fun h => by cases h)

/-- Only an active instance that waits for no activation is loaded and set halting. -/
theorem signalHalt_haltedSince (hslot : SlotInvariant [] s) (hidle : s.status = .idle)
    (hactive : s.activeUmi = some x) (hmem : umi ∈ s.idleUmiQueue) :
    Outcome (s.signalHalt umi) (fun t => t.HaltedSince s.handedBack umi →
      (s.umis umi).active = true ∧ s.activationPromiseMap umi = false) fun _ => True := by
  have hcall := signalHalt_of_queued hslot hactive hmem
  have hslot' := hslot.of_yieldCall hcall
  have hmem' : umi ∈ (s.haltSignalled umi).idleUmiQueue :=
    (perm_slotQueueMoveToFront s umi).mem_iff.mpr hmem
  have hne : s.activeUmi ≠ some umi := fun h => hslot.active_not_mem umi h hmem
  change Outcome (s.exec (.signalHalt umi)) _ _
  rw [exec_of_yieldCall hcall]
  refine Core.yield_outcome (fun _ _ => trivial) ?_ ?_ ?_ ?_
  · rintro - (⟨ha, -⟩ | ⟨call, hcall⟩)
    · exact absurd ha hne
    · exact absurd hcall.symm (List.cons_ne_self _ _)
  · intro old _ _ _ hqueue
    simp [hqueue] at hmem'
  · intro next umi' old _ hold _ hnext humi'
    obtain rfl := hslot'.inactive_eq next umi' humi'
    refine (yieldTo_haltedSince umi rfl rfl).mono (fun t ht hhalted => ?_) fun _ h => h
    obtain ⟨rfl, hp⟩ := ht hhalted
    exact ⟨(hslot'.mem_of_findEligible hnext).2, hp⟩
  · intro next umi' hempty
    have hs : s.status = .empty := hempty
    simp [hidle] at hs

end SignalHalt

/-- In every state a run reaches in which the slot is idle and its instance inactive, `SignalHalt` of
a queued instance loads it and sets it halting exactly when the instance is active and waits for no
activation. -/
theorem signalHalt_iff {as : List Step} {t : Core} (hrun : Foundations.run Core.step init as = some t)
    {x umi : UmiId} (hidle : t.status = .idle) (hactive : t.activeUmi = some x)
    (hinactive : (t.umis x).active = false) (hmem : umi ∈ t.idleUmiQueue) :
    (∃ u, t.signalHalt umi = .ok u ∧ u.HaltedSince t.handedBack umi) ↔
      (t.umis umi).active = true ∧ t.activationPromiseMap umi = false := by
  have hslot := SlotInvariant.of_run hrun
  constructor
  · rintro ⟨u, hu, hhalted⟩
    exact (signalHalt_haltedSince hslot hidle hactive hmem).of_eq_ok hu hhalted
  · rintro ⟨humi, hpromise⟩
    exact signalHalt_halts hslot (ControlInvariant.of_run hrun) (FrameInvariant.of_run hrun) hidle
      hactive hinactive hmem humi hpromise

/-- Instance 2 is swapped out for instance 3; a packet makes it active while instance 3 still is, and
then instance 3 becomes inactive. -/
theorem signalHalt_iff_active : ∃ t, Foundations.run Core.step init
    [.load 2, .start 2, .netwrite ⟨true, true, 1⟩, .poll 1000 0, .dispatch 0, .load 3, .start 3,
      .netwrite ⟨true, true, 1⟩, .poll 1000 0, .processIncoming 2 true, .dispatch 0] = some t ∧
    ∃ u, t.signalHalt 2 = .ok u ∧ u.HaltedSince t.handedBack 2 := by
  obtain ⟨t, ht⟩ : ∃ t, Foundations.run Core.step init
      [.load 2, .start 2, .netwrite ⟨true, true, 1⟩, .poll 1000 0, .dispatch 0, .load 3, .start 3,
        .netwrite ⟨true, true, 1⟩, .poll 1000 0, .processIncoming 2 true, .dispatch 0] = some t :=
    ⟨_, rfl⟩
  have hstate : (some t).map (fun t => (t.status, t.activeUmi, (t.umis 3).active, t.idleUmiQueue,
      (t.umis 2).active, t.activationPromiseMap 2)) =
      some (.idle, some 3, false, [2], true, false) := ht ▸ rfl
  simp only [Option.map_some, Option.some.injEq, Prod.mk.injEq] at hstate
  obtain ⟨hidle, hactive, hinactive, hqueue, humi, hpromise⟩ := hstate
  have hmem : 2 ∈ t.idleUmiQueue := hqueue ▸ List.mem_singleton_self 2
  exact ⟨t, ht, (signalHalt_iff ht hidle hactive hinactive hmem).mpr ⟨humi, hpromise⟩⟩

/-- Without the packet instance 2 is still inactive: it is passed over. -/
theorem not_haltedSince_of_inactive : ∃ t, Foundations.run Core.step init
    [.load 2, .start 2, .netwrite ⟨true, true, 1⟩, .poll 1000 0, .dispatch 0, .load 3, .start 3,
      .netwrite ⟨true, true, 1⟩, .poll 1000 0, .dispatch 0] = some t ∧
    t.status = .idle ∧ t.activeUmi = some 3 ∧ (t.umis 3).active = false ∧ 2 ∈ t.idleUmiQueue ∧
    ¬ ∃ u, t.signalHalt 2 = .ok u ∧ u.HaltedSince t.handedBack 2 := by
  obtain ⟨t, ht⟩ : ∃ t, Foundations.run Core.step init
      [.load 2, .start 2, .netwrite ⟨true, true, 1⟩, .poll 1000 0, .dispatch 0, .load 3, .start 3,
        .netwrite ⟨true, true, 1⟩, .poll 1000 0, .dispatch 0] = some t := ⟨_, rfl⟩
  have hstate : (some t).map (fun t => (t.status, t.activeUmi, (t.umis 3).active, t.idleUmiQueue,
      t.handedBack, (t.signalHalt 2).toOption.map fun u => (u.activeUmi, u.handedBack))) =
      some (.idle, some 3, false, [2], [], some (some 3, [])) := ht ▸ rfl
  simp only [Option.map_some, Option.some.injEq, Prod.mk.injEq] at hstate
  obtain ⟨hidle, hactive, hinactive, hqueue, hback, hsignal⟩ := hstate
  refine ⟨t, ht, hidle, hactive, hinactive, hqueue ▸ List.mem_singleton_self 2, ?_⟩
  rintro ⟨u, hu, hhalted⟩
  simp only [hu, Except.toOption, Option.map_some, Option.some.injEq, Prod.mk.injEq] at hsignal
  rcases hhalted with ⟨hloaded, -⟩ | ⟨call, hcall⟩
  · simp [hsignal.1] at hloaded
  · simp [hsignal.2] at hcall

end Core

end Umm
