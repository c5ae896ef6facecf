import Umm.Manager.Frames

/-!
# Halts that wait for each other

A `Halt` that finds events pending spawns another `Halt` and returns.  `Drains` says that the event
loop, which takes the oldest event first, comes to a `Halt` that reaches the gateway.  The other
events may be of any kind, as long as they spawn nothing and leave the instance in the slot
(`QuietStep`).

One `Halt` waits for the other events at most once each.  Two of them count each other as pending
events, for ever.
-/

namespace Umm

open Foundations

namespace Core

/-- The instance `id`, entered by `call`, occupies the slot, and the event loop is in control. -/
structure Occupies (s : Core) (id : UmiId) (call : Call) : Prop where
  /-- The instance is in the slot. -/
  active : s.activeUmi = some id
  /-- The slot is in use. -/
  not_empty : s.status ≠ .empty
  /-- The instance has not finished. -/
  not_finished : s.status ≠ .finished
  /-- The gateway has saved the frame of the call. -/
  frame : (s.umis id).callerRestoreFrame = some call
  /-- No guest is in control. -/
  guests : s.guests = []

/-- The event loop takes the oldest event, `k` times. -/
def fifo (k : ℕ) : List Step :=
  List.replicate k (.dispatch 0)

/-- The oldest event is a `Halt`, or else it spawns nothing and leaves the instance in the slot. -/
def QuietStep (id : UmiId) (call : Call) (s : Core) (a : Step) : Prop :=
  ∀ e es, s.events = e :: es → e = .halt ∨
    ∃ t, s.step a = some t ∧ t.events = es ∧ t.Occupies id call

/-- The steps of the event loop before a `Halt` is the only event that is pending. -/
def stepBeforeLast (s : Core) (a : Step) : Option Core :=
  if s.events = [.halt] then none else s.step a

/-- The pending events other than `Halt`s are quiet when the event loop comes to them. -/
def Quiet (id : UmiId) (call : Call) (s : Core) : Prop :=
  ∀ k, AllSteps stepBeforeLast (QuietStep id call) s (fifo k)

/-- After some events the event loop performs a `Halt` that reaches the gateway, which hands the
instance back to its call. -/
def Drains (id : UmiId) (call : Call) (s : Core) : Prop :=
  ∃ k t u, Foundations.run step s (fifo k) = some t ∧ t.events.head? = some .halt ∧
    t.step (.dispatch 0) = some u ∧ u.handedBack = (call, id) :: t.handedBack

section Drain

variable {s t : Core} {id : UmiId} {call : Call} {e : Event} {es : List Event}

/-- Performing the oldest event. -/
theorem step_dispatch_zero (hguests : s.guests = []) (hevents : s.events = e :: es) :
    s.step (.dispatch 0) = ({ s with events := es }.performEvent e).toOption := by
  have henabled : s.enabled (.dispatch 0) = true := by
    simp [enabled, Step.isHypercall, admits, hguests, hevents]
  rw [step, if_pos henabled]
  simp [exec, dispatch, hevents]

/-- Without events there is no step. -/
theorem step_dispatch_nil (hevents : s.events = []) : s.step (.dispatch 0) = none := by
  simp [step, enabled, Step.isHypercall, admits, hevents]

theorem Quiet.step (hquiet : s.Quiet id call) (hlast : s.events ≠ [.halt])
    (hstep : s.step (.dispatch 0) = some t) : t.Quiet id call :=
  fun k => (hquiet (k + 1)).2 t (by rwa [stepBeforeLast, if_neg hlast])

/-- A `Halt` with other events pending goes to the end of the queue. -/
theorem Occupies.halt_step (h : s.Occupies id call) (hevents : s.events = .halt :: es)
    (hes : es ≠ []) : ∃ t, s.step (.dispatch 0) = some t ∧ t.events = es ++ [.halt] ∧
      t.handedBack = s.handedBack ∧ t.Occupies id call := by
  have hhalt := halt_of_active (s := { s with events := es }) h.active h.not_empty h.not_finished
  rw [if_pos fun hnil => hes (List.length_eq_zero_iff.mp hnil)] at hhalt
  refine ⟨({ s with events := es }.setHalting id).spawnLocal .halt, ?_, rfl, rfl, ⟨h.active,
    by simp [setHalting, spawnLocal], by simp [setHalting, spawnLocal], ?_, h.guests⟩⟩
  · rw [step_dispatch_zero h.guests hevents, performEvent, hhalt]
    rfl
  · exact (frame_setUmi (s := s) (UmInstance.sameWait_setActive (s.umis id)).frame id).trans h.frame

/-- The last event, a `Halt`, reaches the gateway. -/
theorem Occupies.drains_of_last (h : s.Occupies id call) (hevents : s.events = [.halt]) :
    s.Drains id call := by
  have hhalt := halt_of_entered (s := { s with events := [] }) h.active h.not_empty h.not_finished
    rfl h.frame
  have hstep := step_dispatch_zero h.guests hevents
  rw [performEvent, hhalt] at hstep
  exact ⟨0, s, _, rfl, congrArg List.head? hevents, hstep, rfl⟩

theorem Drains.of_step (hstep : s.step (.dispatch 0) = some t) (ht : t.Drains id call) :
    s.Drains id call := by
  obtain ⟨k, u, v, hrun, hhead, hlast, hback⟩ := ht
  exact ⟨k + 1, u, v, run_cons_eq_some.mpr ⟨t, hstep, hrun⟩, hhead, hlast, hback⟩

/-- An event that is not a `Halt` leaves the queue and the instance in the slot. -/
theorem Quiet.head_step (hquiet : s.Quiet id call) (hevents : s.events = e :: es)
    (he : e ≠ .halt) :
    ∃ t, s.step (.dispatch 0) = some t ∧ t.events = es ∧ t.Occupies id call :=
  ((hquiet 1).1 e es hevents).resolve_left he

/-- A single `Halt` comes to the gateway: every other event is performed once, and the `Halt` is
deferred at most once. -/
theorem drains_of_one (h : s.Occupies id call) (hquiet : s.Quiet id call)
    (hone : s.events.count .halt = 1) : s.Drains id call := by
  induction hn : s.events.length using Nat.strongRecOn generalizing s with
  | ind n ih =>
    cases hevents : s.events with
    | nil => simp [hevents] at hone
    | cons e es =>
      rw [hevents, List.length_cons] at hn
      by_cases he : e = .halt
      · subst he
        rw [hevents, List.count_cons_self] at hone
        cases hes : es with
        | nil => exact h.drains_of_last (hes ▸ hevents)
        | cons e' es' =>
          -- the `Halt` is deferred, and the event after it is not another one
          have hlast : s.events ≠ [.halt] := by simp [hevents, hes]
          obtain ⟨t, hstep, hevents', -, ht⟩ := h.halt_step hevents (by simp [hes])
          have hne : e' ≠ .halt := by
            rintro rfl
            simp [hes] at hone
          rw [hes, List.cons_append] at hevents'
          rw [hes] at hone hn
          have hquiet' := hquiet.step hlast hstep
          have hlast' : t.events ≠ [.halt] := by simp [hevents', hne]
          obtain ⟨u, hstep', hevents'', hu⟩ : ∃ u, t.step (.dispatch 0) = some u ∧
              u.events = es' ++ [.halt] ∧ u.Occupies id call := hquiet'.head_step hevents' hne
          refine Drains.of_step hstep (Drains.of_step hstep' (ih _ ?_ hu
            (hquiet'.step hlast' hstep') ?_ rfl))
          · simp only [hevents'', List.length_append, List.length_cons, List.length_nil] at hn ⊢
            omega
          · rw [List.count_cons_of_ne hne] at hone
            rw [hevents'', List.count_append, List.count_singleton_self]
            omega
      · obtain ⟨t, hstep, hevents', ht⟩ := hquiet.head_step hevents he
        have hlast : s.events ≠ [.halt] := by simp [hevents, he]
        refine Drains.of_step hstep (ih _ ?_ ht (hquiet.step hlast hstep) ?_ rfl)
        · rw [hevents']
          omega
        · rw [hevents, List.count_cons_of_ne he] at hone
          rwa [hevents']

/-- While two `Halt`s are pending, the event loop keeps them pending. -/
theorem two_halts_step (h : s.Occupies id call) (hquiet : s.Quiet id call)
    (htwo : 2 ≤ s.events.count .halt) (hstep : s.step (.dispatch 0) = some t) :
    t.Occupies id call ∧ t.Quiet id call ∧ 2 ≤ t.events.count .halt := by
  have hlast : s.events ≠ [.halt] := by
    intro hlast
    simp [hlast] at htwo
  cases hevents : s.events with
  | nil => simp [hevents] at htwo
  | cons e es =>
    rw [hevents] at htwo
    by_cases he : e = .halt
    · subst he
      rw [List.count_cons_self] at htwo
      have hes : es ≠ [] := by
        rintro rfl
        simp at htwo
      obtain ⟨u, hu, hevents', -, hocc⟩ := h.halt_step hevents hes
      obtain rfl := Option.some.inj (hstep.symm.trans hu)
      refine ⟨hocc, hquiet.step hlast hstep, ?_⟩
      rwa [hevents', List.count_append, List.count_singleton_self]
    · rw [List.count_cons_of_ne he] at htwo
      obtain ⟨u, hu, hevents', hocc⟩ := hquiet.head_step hevents he
      obtain rfl := Option.some.inj (hstep.symm.trans hu)
      exact ⟨hocc, hquiet.step hlast hstep, by rwa [hevents']⟩

/-- Two `Halt`s wait for each other. -/
theorem not_drains_of_two (h : s.Occupies id call) (hquiet : s.Quiet id call)
    (htwo : 2 ≤ s.events.count .halt) : ¬ s.Drains id call := by
  rintro ⟨k, t, u, hrun, hhead, hlast, hback⟩
  obtain ⟨ht, -, htwo'⟩ : t.Occupies id call ∧ t.Quiet id call ∧ 2 ≤ t.events.count .halt := by
    induction k generalizing s with
    | zero => exact Option.some.inj hrun ▸ ⟨h, hquiet, htwo⟩
    | succ k ih =>
      obtain ⟨s', hstep, hrun⟩ := run_cons_eq_some.mp hrun
      obtain ⟨h', hquiet', htwo'⟩ := two_halts_step h hquiet htwo hstep
      exact ih h' hquiet' htwo' hrun
  -- a `Halt` at the head finds the other one pending, and is deferred
  obtain ⟨es, hevents⟩ : ∃ es, t.events = .halt :: es := by
    cases hevents : t.events with
    | nil => simp [hevents] at hhead
    | cons e es =>
      rw [hevents] at hhead
      exact ⟨es, congrArg (· :: es) (Option.some.inj hhead)⟩
  have hes : es ≠ [] := by
    rintro rfl
    simp [hevents] at htwo'
  obtain ⟨v, hv, -, hkept, -⟩ := ht.halt_step hevents hes
  obtain rfl := Option.some.inj (hlast.symm.trans hv)
  rw [hkept] at hback
  exact List.cons_ne_self _ _ hback.symm

/-- The events of other components of the host are quiet. -/
theorem quiet_of_others (h : s.Occupies id call)
    (hevents : ∀ e ∈ s.events, e = .halt ∨ e = .other) : s.Quiet id call := by
  intro k
  induction k generalizing s with
  | zero => trivial
  | succ k ih =>
    cases hes : s.events with
    | nil =>
      refine ⟨fun e es hes' => by simp [hes] at hes', fun t ht => ?_⟩
      rw [stepBeforeLast, if_neg (by simp [hes]), step_dispatch_nil hes] at ht
      cases ht
    | cons e es =>
      rw [hes] at hevents
      obtain ⟨he, hrest⟩ := List.forall_mem_cons.mp hevents
      rcases he with rfl | rfl
      · refine ⟨fun e' es' hes' => Or.inl (List.cons.inj (hes'.symm.trans hes)).1, fun t ht => ?_⟩
        unfold stepBeforeLast at ht
        split_ifs at ht with hlast
        have hne : es ≠ [] := fun hnil => hlast (hnil ▸ hes)
        obtain ⟨u, hu, hevents', -, hocc⟩ := h.halt_step hes hne
        obtain rfl := Option.some.inj (ht.symm.trans hu)
        refine ih hocc fun e he => ?_
        rw [hevents', List.mem_append, List.mem_singleton] at he
        exact he.elim (hrest e) Or.inl
      · have hstep : s.step (.dispatch 0) = some { s with events := es } :=
          step_dispatch_zero h.guests hes
        have hocc : ({ s with events := es } : Core).Occupies id call :=
          ⟨h.active, h.not_empty, h.not_finished, h.frame, h.guests⟩
        refine ⟨fun e' es' hes' => Or.inr ⟨_, hstep, (List.cons.inj (hes.symm.trans hes')).2, hocc⟩,
          fun t ht => ?_⟩
        rw [stepBeforeLast, if_neg (by simp [hes])] at ht
        obtain rfl := Option.some.inj (ht.symm.trans hstep)
        exact ih hocc hrest

end Drain

/-- Whatever the other events and the order of the queue: the `Halt`s that are pending for the
instance in the slot drain exactly when there is one of them. -/
theorem drains_iff {s : Core} {id : UmiId} {call : Call} (h : s.Occupies id call)
    (hquiet : s.Quiet id call) (hpending : 1 ≤ s.events.count .halt) :
    s.Drains id call ↔ s.events.count .halt = 1 := by
  refine ⟨fun hdrains => ?_, drains_of_one h hquiet⟩
  by_contra hne
  exact not_drains_of_two h hquiet (by omega) hdrains

/-- Instance 2 is started and blocks; then a `Halt` for it is pending, and an event that is not. -/
theorem drains_iff_one : ∃ t, Foundations.run step init
    [.load 2, .start 2, .poll 1000 0, .spawnHalt, .spawnOther] = some t ∧
      t.Drains 2 (.start 2) := by
  obtain ⟨t, ht⟩ : ∃ t, Foundations.run step init
      [.load 2, .start 2, .poll 1000 0, .spawnHalt, .spawnOther] = some t := ⟨_, rfl⟩
  have hstate : (some t).map (fun t => (t.activeUmi, t.status, (t.umis 2).callerRestoreFrame,
      t.guests, t.events)) = some (some 2, .idle, some (.start 2), [], [.halt, .other]) := ht ▸ rfl
  simp only [Option.map_some, Option.some.injEq, Prod.mk.injEq] at hstate
  obtain ⟨hactive, hstatus, hframe, hguests, hevents⟩ := hstate
  have hocc : t.Occupies 2 (.start 2) :=
    ⟨hactive, by simp [hstatus], by simp [hstatus], hframe, hguests⟩
  have hquiet := quiet_of_others hocc (by simp [hevents])
  have hone : t.events.count .halt = 1 := by rw [hevents]; decide
  exact ⟨t, ht, (drains_iff hocc hquiet (Nat.le_of_eq hone.symm)).mpr hone⟩

/-- There, with a second `Halt` in place of the other event, none of them reaches the gateway. -/
theorem not_drains_of_two_halts : ∃ t, Foundations.run step init
    [.load 2, .start 2, .poll 1000 0, .spawnHalt, .spawnHalt] = some t ∧
      t.Occupies 2 (.start 2) ∧ t.events = [.halt, .halt] ∧ ¬ t.Drains 2 (.start 2) := by
  obtain ⟨t, ht⟩ : ∃ t, Foundations.run step init
      [.load 2, .start 2, .poll 1000 0, .spawnHalt, .spawnHalt] = some t := ⟨_, rfl⟩
  have hstate : (some t).map (fun t => (t.activeUmi, t.status, (t.umis 2).callerRestoreFrame,
      t.guests, t.events)) = some (some 2, .idle, some (.start 2), [], [.halt, .halt]) := ht ▸ rfl
  simp only [Option.map_some, Option.some.injEq, Prod.mk.injEq] at hstate
  obtain ⟨hactive, hstatus, hframe, hguests, hevents⟩ := hstate
  have hocc : t.Occupies 2 (.start 2) :=
    ⟨hactive, by simp [hstatus], by simp [hstatus], hframe, hguests⟩
  have hquiet := quiet_of_others hocc (by simp [hevents])
  exact ⟨t, ht, hocc, hevents, not_drains_of_two hocc hquiet (by rw [hevents]; decide)⟩

end Core

end Umm
