import Mathlib.Data.List.Count
import Mathlib.Data.List.Perm.Basic
import Umm.Manager.Control

/-!
# Blocked contexts and their timers

An instance that blocks saves its context and may arm its timer; a kick passes the context to
`ActivateContext` and disarms the timer.  Three sources can kick an instance, and the context is
only resumed later, when its activation is performed.  `WakeInvariant` ties the flag `blocked_`, the
saved context, the timer and the pending activations together: no context is activated twice, and of
an instance that was submitted once, at most one activation is pending, and none while it is blocked
or in control.
-/

namespace Umm

open Foundations

/-- The instance whose blocking flags the abort finds inconsistent. -/
def Abort.wakeFault : Abort → Option UmiId
  | .noContext id | .timerAlreadySet id => some id
  | _ => none

/-- The aborts of other kinds find no blocking flags inconsistent. -/
theorem Abort.wakeFault_of_isOther {e : Abort} (he : e.isOther = true) : e.wakeFault = none := by
  cases e with
  | noContext id => cases he
  | timerAlreadySet id => cases he
  | _ => rfl

/-- The context an event activates. -/
def Event.activation : Event → Option EventContext
  | .activateContext ctx => some ctx
  | _ => none

namespace UmInstance

/-- An armed timer is due before the deadline, by less than a microsecond. -/
def TimerSound (x : UmInstance) : Prop :=
  x.timerSet = true → x.timeWait ≠ 0 ∧ x.timerDue ≤ x.timeWait ∧ x.timeWait < x.timerDue + 1000

/-- The two states of an instance block alike, and the first arms no timer of its own. -/
structure WaitsAs (x y : UmInstance) : Prop where
  /-- The instance is blocked in both or in neither. -/
  blocked : x.blocked = y.blocked
  /-- The saved contexts are the same. -/
  context : x.context = y.context
  /-- An armed timer is that of the second state. -/
  armed : x.timerSet = true →
    y.timerSet = true ∧ x.timeWait = y.timeWait ∧ x.timerDue = y.timerDue

variable {x y : UmInstance}

/-- An instance blocks as it does. -/
theorem WaitsAs.refl (x : UmInstance) : x.WaitsAs x :=
  ⟨rfl, rfl, fun h => ⟨h, rfl, rfl⟩⟩

/-- An instance that waits alike blocks alike. -/
theorem SameWait.waitsAs (h : x.SameWait y) : x.WaitsAs y :=
  ⟨h.blocked, h.context, fun hset => ⟨h.timerSet ▸ hset, h.timeWait, h.timerDue⟩⟩

/-- A timer that is not armed may be forgotten. -/
theorem SameContext.waitsAs (h : x.SameContext y) (hset : x.timerSet = false) : x.WaitsAs y :=
  ⟨h.blocked, h.context, fun h => by simp [hset] at h⟩

/-- A timer that is kept stays sound. -/
theorem TimerSound.mono (h : y.TimerSound) (hxy : x.WaitsAs y) : x.TimerSound := by
  intro hset
  obtain ⟨hset', hwait, hdue⟩ := hxy.armed hset
  rw [hwait, hdue]
  exact h hset'

/-- Without a timer there is nothing to ask. -/
theorem timerSound_of_not_set (h : x.timerSet = false) : x.TimerSound :=
  fun hset => by simp [h] at hset

/-- `enable_timer` rounds the duration down to microseconds. -/
theorem timerSound_sleep {now ns : ℕ} (hset : x.timerSet = false) :
    ({ x with timeWait := now + ns }.enableTimer now).TimerSound := by
  unfold enableTimer
  split_ifs with hwait
  · exact timerSound_of_not_set hset
  · simp only [hset, Bool.false_eq_true, false_or] at hwait
    intro _
    simp only
    omega

end UmInstance

namespace Core

/-- The contexts whose activation is pending. -/
def activations (s : Core) : List EventContext :=
  s.events.filterMap Event.activation

/-- The activations are events. -/
theorem mem_activations {s : Core} {ctx : EventContext} :
    ctx ∈ s.activations ↔ .activateContext ctx ∈ s.events := by
  unfold activations
  rw [List.mem_filterMap]
  constructor
  · rintro ⟨e, he, hctx⟩
    cases e with
    | activateContext ctx' =>
      obtain rfl := Option.some.inj hctx
      exact he
    | _ => cases hctx
  · exact fun h => ⟨_, h, rfl⟩

/-- An activation of the instance `id` is pending. -/
def Waking (s : Core) (id : UmiId) : Prop :=
  id ∈ s.activations.map EventContext.umi

/-- What ties the flags of the instance `id` together. -/
structure WakeSound (s : Core) (id : UmiId) : Prop where
  /-- A blocked instance has a saved context. -/
  blocked_context : (s.umis id).blocked = true → ∃ ctx, (s.umis id).context = some ctx
  /-- A timer is armed for a blocked instance only. -/
  timer_blocked : (s.umis id).timerSet = true → (s.umis id).blocked = true
  /-- No activation of a blocked instance is pending. -/
  blocked_not_waking : (s.umis id).blocked = true → ¬ s.Waking id
  /-- At most one activation is pending. -/
  waking_once : (s.activations.map EventContext.umi).count id ≤ 1
  /-- The instance in control is not blocked. -/
  guest_not_blocked : ∀ g ∈ s.guests, g.id = id → (s.umis id).blocked = false
  /-- No activation of the instance in control is pending. -/
  guest_not_waking : ∀ g ∈ s.guests, g.id = id → ¬ s.Waking id

/-- The invariant of the saved contexts, the timers and the pending activations. -/
structure WakeInvariant (s : Core) : Prop where
  /-- The context an instance saved is its own. -/
  saved_umi : ∀ id ctx, (s.umis id).context = some ctx → ctx.umi = id
  /-- The saved contexts are numbered. -/
  saved_lt : ∀ id ctx, (s.umis id).context = some ctx → ctx.serial < s.contexts
  /-- The activated contexts are numbered. -/
  activated_lt : ∀ ctx ∈ s.activated, ctx.serial < s.contexts
  /-- No context was activated twice. -/
  activated_nodup : s.activated.Nodup
  /-- The context of a blocked instance was not activated. -/
  blocked_not_activated : ∀ id ctx, (s.umis id).blocked = true → (s.umis id).context = some ctx →
    ctx ∉ s.activated
  /-- The armed timers are due in time. -/
  timers : ∀ id, (s.umis id).TimerSound
  /-- The flags of an instance that was submitted once. -/
  once : ∀ id, s.submitted.count id ≤ 1 → s.WakeSound id

/-- The abort blames only instances that were submitted more than once. -/
def Excused (s : Core) (e : Abort) : Prop :=
  ∀ id, e.wakeFault = some id → 2 ≤ s.submitted.count id

/-- The aborts of other kinds are excused. -/
theorem excused_of_isOther {s : Core} (e : Abort) (he : e.isOther = true) : s.Excused e :=
  fun id hid => by simp [Abort.wakeFault_of_isOther he] at hid

/-- The invariant holds after boot. -/
theorem wakeInvariant_init : WakeInvariant init where
  saved_umi := fun _ _ h => by cases h
  saved_lt := fun _ _ h => by cases h
  activated_lt := fun _ h => absurd h List.not_mem_nil
  activated_nodup := List.nodup_nil
  blocked_not_activated := fun _ _ h => by cases h
  timers := fun _ => UmInstance.timerSound_of_not_set rfl
  once := fun _ _ =>
    { blocked_context := fun h => by cases h
      timer_blocked := fun h => by cases h
      blocked_not_waking := fun h => by cases h
      waking_once := Nat.zero_le 1
      guest_not_blocked := fun _ h => absurd h List.not_mem_nil
      guest_not_waking := fun _ h => absurd h List.not_mem_nil }

section Transformers

variable {s t : Core} {id : UmiId}

/-- An activation that is pending was pending before, if none was added. -/
theorem Waking.of_sublist (hevents : t.activations.Sublist s.activations) (h : t.Waking id) :
    s.Waking id :=
  (hevents.map _).subset h

/-- The flags of an instance may be taken over from another state. -/
theorem WakeSound.frame (h : s.WakeSound id) (humi : (t.umis id).WaitsAs (s.umis id))
    (hguests : ∀ g ∈ t.guests, g ∈ s.guests) (hevents : t.activations.Sublist s.activations) :
    t.WakeSound id where
  blocked_context := by
    rw [humi.blocked, humi.context]
    exact h.blocked_context
  timer_blocked := fun hset => humi.blocked.trans (h.timer_blocked (humi.armed hset).1)
  blocked_not_waking := fun hblocked hwaking =>
    h.blocked_not_waking (humi.blocked.symm.trans hblocked) (hwaking.of_sublist hevents)
  waking_once := Nat.le_trans ((hevents.map _).count_le id) h.waking_once
  guest_not_blocked := fun g hg hid =>
    humi.blocked.trans (h.guest_not_blocked g (hguests g hg) hid)
  guest_not_waking := fun g hg hid hwaking =>
    h.guest_not_waking g (hguests g hg) hid (hwaking.of_sublist hevents)

/-- The invariant is kept when the instances block as before and no activation is added. -/
theorem WakeInvariant.frame (h : WakeInvariant s) (humis : ∀ id, (t.umis id).WaitsAs (s.umis id))
    (hguests : ∀ g ∈ t.guests, g ∈ s.guests) (hevents : t.activations.Sublist s.activations)
    (hcontexts : t.contexts = s.contexts) (hactivated : t.activated = s.activated)
    (hsubmitted : ∀ id, s.submitted.count id ≤ t.submitted.count id) : WakeInvariant t where
  saved_umi := fun id ctx hctx => h.saved_umi id ctx ((humis id).context.symm.trans hctx)
  saved_lt := fun id ctx hctx =>
    hcontexts ▸ h.saved_lt id ctx ((humis id).context.symm.trans hctx)
  activated_lt := by
    rw [hactivated, hcontexts]
    exact h.activated_lt
  activated_nodup := hactivated ▸ h.activated_nodup
  blocked_not_activated := fun id ctx hblocked hctx => hactivated ▸
    h.blocked_not_activated id ctx ((humis id).blocked.symm.trans hblocked)
      ((humis id).context.symm.trans hctx)
  timers := fun id => (h.timers id).mono (humis id)
  once := fun id hid =>
    (h.once id (Nat.le_trans (hsubmitted id) hid)).frame (humis id) hguests hevents

/-- Only the state of the instance `id` is replaced. -/
theorem waitsAs_setUmi {x : UmInstance} (hx : x.WaitsAs (s.umis id)) (id' : UmiId) :
    ((s.setUmi id x).umis id').WaitsAs (s.umis id') := by
  by_cases h : id' = id
  · subst h
    simpa [setUmi] using hx
  · simpa [setUmi, h] using UmInstance.WaitsAs.refl (s.umis id')

/-- An instance may be set to one that blocks alike. -/
theorem WakeInvariant.setUmi (h : WakeInvariant s) {x : UmInstance} (hx : x.WaitsAs (s.umis id)) :
    WakeInvariant (s.setUmi id x) :=
  h.frame (waitsAs_setUmi hx) (fun _ h => h) (List.Sublist.refl _) rfl rfl fun _ => Nat.le_refl _

/-- A state that differs in nothing the invariant speaks about. -/
theorem WakeInvariant.of_eq (h : WakeInvariant s) (humis : t.umis = s.umis)
    (hguests : t.guests = s.guests) (hevents : t.activations = s.activations)
    (hcontexts : t.contexts = s.contexts) (hactivated : t.activated = s.activated)
    (hsubmitted : t.submitted = s.submitted) : WakeInvariant t :=
  h.frame (fun _ => humis ▸ UmInstance.WaitsAs.refl _) (fun _ hg => hguests ▸ hg)
    (hevents ▸ List.Sublist.refl _) hcontexts hactivated fun _ => hsubmitted ▸ Nat.le_refl _

/-- An event that activates no context changes nothing. -/
theorem activations_spawnLocal {e : Event} (he : e.activation = none) :
    (s.spawnLocal e).activations = s.activations := by
  simp [activations, spawnLocal, he]

/-- A `Yield` that is spawned activates nothing. -/
theorem activations_spawnYieldAfter (call : Call) :
    (s.spawnYieldAfter call).activations = s.activations := by
  unfold activations spawnYieldAfter
  cases call with
  | run id => rfl
  | start id =>
    simp only
    split_ifs
    · simp [Event.activation]
    · rfl

/-- An event that activates nothing may be spawned. -/
theorem WakeInvariant.spawnLocal (h : WakeInvariant s) {e : Event} (he : e.activation = none) :
    WakeInvariant (s.spawnLocal e) :=
  h.of_eq rfl rfl (activations_spawnLocal he) rfl rfl rfl

/-- Waking an instance adds its activation. -/
theorem activations_wake {ctx : EventContext} :
    (s.wake id ctx).activations = s.activations ++ [ctx] := by
  simp [activations, wake, spawnLocal, setUmi, Event.activation]

/-- What the invariant says of the instance `id`. -/
structure WakesAt (s : Core) (id : UmiId) : Prop where
  /-- Its saved context is its own, and numbered. -/
  saved : ∀ ctx, (s.umis id).context = some ctx → ctx.umi = id ∧ ctx.serial < s.contexts
  /-- Its context was not activated if it is blocked. -/
  not_activated : ∀ ctx, (s.umis id).blocked = true → (s.umis id).context = some ctx →
    ctx ∉ s.activated
  /-- Its timer is due in time. -/
  timer : (s.umis id).TimerSound
  /-- Its flags, if it was submitted once. -/
  once : s.submitted.count id ≤ 1 → s.WakeSound id

/-- Only an instance whose activation is pending may wake. -/
theorem WakeInvariant.wakesAt (h : WakeInvariant s) (id : UmiId) : s.WakesAt id :=
  ⟨fun ctx hctx => ⟨h.saved_umi id ctx hctx, h.saved_lt id ctx hctx⟩, h.blocked_not_activated id,
    h.timers id, h.once id⟩

/-- A state that differs only in the instance `id`, its contexts and its activations. -/
structure ChangesOnly (s : Core) (id : UmiId) (t : Core) : Prop where
  /-- The other instances stay. -/
  umis : ∀ id' ≠ id, t.umis id' = s.umis id'
  /-- Nobody else gets control. -/
  guests : ∀ g ∈ t.guests, g ∈ s.guests
  /-- The activations of the others that are pending stay. -/
  waking : ∀ id' ≠ id, (t.activations.map EventContext.umi).count id' =
    (s.activations.map EventContext.umi).count id'
  /-- Contexts are numbered on. -/
  contexts : s.contexts ≤ t.contexts
  /-- Only contexts of the instance are activated. -/
  activated : ∀ ctx ∈ t.activated, ctx ∈ s.activated ∨ ctx.umi = id ∧ ctx.serial < t.contexts
  /-- Nothing is submitted. -/
  submitted : t.submitted = s.submitted

/-- The other instances keep what the invariant says of them. -/
theorem ChangesOnly.wakesAt (hst : s.ChangesOnly id t) {id' : UmiId} (hid : id' ≠ id)
    (h : s.WakesAt id') : t.WakesAt id' := by
  have humi := hst.umis id' hid
  have hcount := hst.waking id' hid
  have hwaking : t.Waking id' → s.Waking id' := by
    intro hw
    rw [Waking, ← List.count_pos_iff] at hw ⊢
    rwa [hcount] at hw
  refine ⟨fun ctx hctx => ?_, fun ctx hblocked hctx hmem => ?_, humi ▸ h.timer, fun hsub => ?_⟩
  · obtain ⟨howner, hlt⟩ := h.saved ctx (humi ▸ hctx)
    exact ⟨howner, Nat.lt_of_lt_of_le hlt hst.contexts⟩
  · rw [humi] at hblocked hctx
    rcases hst.activated ctx hmem with hmem | ⟨hother, -⟩
    · exact h.not_activated ctx hblocked hctx hmem
    · exact hid ((h.saved ctx hctx).1.symm.trans hother)
  · obtain ⟨hcontext, htimer, hnot, hone, hguest, hnotGuest⟩ := h.once (hst.submitted ▸ hsub)
    exact ⟨humi ▸ hcontext, humi ▸ htimer, fun hb hw => hnot (humi ▸ hb) (hwaking hw),
      hcount ▸ hone, fun g hg => humi ▸ hguest g (hst.guests g hg),
      fun g hg hgid hw => hnotGuest g (hst.guests g hg) hgid (hwaking hw)⟩

/-- The invariant after a change of the instance `id`. -/
theorem WakeInvariant.change (h : WakeInvariant s) (hst : s.ChangesOnly id t)
    (hnodup : t.activated.Nodup) (hself : t.WakesAt id) : WakeInvariant t := by
  have hall : ∀ id', t.WakesAt id' := by
    intro id'
    by_cases hid : id' = id
    · exact hid ▸ hself
    · exact hst.wakesAt hid (h.wakesAt id')
  refine ⟨fun id' ctx hctx => ((hall id').saved ctx hctx).1,
    fun id' ctx hctx => ((hall id').saved ctx hctx).2, fun ctx hctx => ?_, hnodup,
    fun id' => (hall id').not_activated, fun id' => (hall id').timer, fun id' => (hall id').once⟩
  rcases hst.activated ctx hctx with hmem | ⟨-, hlt⟩
  · exact Nat.lt_of_lt_of_le (h.activated_lt ctx hmem) hst.contexts
  · exact hlt

/-- Waking a blocked instance passes its context to `ActivateContext`. -/
theorem WakeInvariant.wake (h : WakeInvariant s) {ctx : EventContext}
    (hblocked : (s.umis id).blocked = true) (hctx : (s.umis id).context = some ctx) :
    WakeInvariant (s.wake id ctx) := by
  have humi : ctx.umi = id := h.saved_umi id ctx hctx
  have hself : (s.wake id ctx).umis id = { s.umis id with blocked := false }.disableTimer := by
    simp [Core.wake, Core.spawnLocal, Core.setUmi]
  have hunblocked : ((s.wake id ctx).umis id).blocked = false := hself ▸ rfl
  have hcount : ∀ id', ((s.wake id ctx).activations.map EventContext.umi).count id' =
      (s.activations.map EventContext.umi).count id' + if id' = id then 1 else 0 := by
    intro id'
    rw [activations_wake, List.map_append, List.count_append, List.map_singleton,
      List.count_singleton, humi]
    exact congrArg _ (if_congr (beq_iff_eq.trans eq_comm) rfl rfl)
  have hchange : s.ChangesOnly id (s.wake id ctx) := by
    refine { umis := fun id' hid' => ?_, guests := fun _ hg => hg, waking := fun id' hid' => ?_,
             contexts := Nat.le_refl _, activated := fun ctx' hctx' => ?_, submitted := rfl }
    · simp [Core.wake, Core.spawnLocal, Core.setUmi, hid']
    · rw [hcount, if_neg hid', Nat.add_zero]
    · rcases List.mem_cons.mp hctx' with rfl | hctx'
      · exact Or.inr ⟨humi, h.saved_lt id ctx' hctx⟩
      · exact Or.inl hctx'
  refine h.change hchange ?_ ?_
  · exact List.nodup_cons.mpr ⟨h.blocked_not_activated id ctx hblocked hctx, h.activated_nodup⟩
  · refine { saved := fun ctx' hctx' => ?_, not_activated := fun ctx' hb => ?_, timer := ?_,
             once := fun hid => ?_ }
    · rw [hself] at hctx'
      exact ⟨h.saved_umi id ctx' hctx', h.saved_lt id ctx' hctx'⟩
    · rw [hunblocked] at hb
      cases hb
    · rw [hself]
      exact UmInstance.timerSound_of_not_set rfl
    · have hold := h.once id hid
      have hzero : (s.activations.map EventContext.umi).count id = 0 :=
        List.count_eq_zero.mpr (hold.blocked_not_waking hblocked)
      refine ⟨fun hb => ?_, fun hset => ?_, fun hb => ?_, ?_, fun _ _ _ => hunblocked,
        fun g hg hgid => ?_⟩
      · rw [hunblocked] at hb
        cases hb
      · rw [hself] at hset
        cases hset
      · rw [hunblocked] at hb
        cases hb
      · exact Nat.le_of_eq (by rw [hcount, hzero, if_pos rfl])
      · rw [hold.guest_not_blocked g hg hgid] at hblocked
        cases hblocked

/-- Blocking the instance `id`, of which no activation is pending, saves a new context. -/
theorem WakeInvariant.blockExecution (h : WakeInvariant s) {x : UmInstance} (hx : x.TimerSound)
    (hwaking : s.submitted.count id ≤ 1 → ¬ s.Waking id) :
    WakeInvariant ((s.setUmi id x).blockExecution id id) := by
  generalize ht : (s.setUmi id x).blockExecution id id = t
  have hself : t.umis id = { x with context := some ⟨id, id, s.contexts⟩, blocked := true } := by
    simp [← ht, Core.blockExecution, Core.setUmi]
  have hblocked : (t.umis id).blocked = true := by rw [hself]
  have hcontexts : t.contexts = s.contexts + 1 := by rw [← ht]; rfl
  have hactivated : t.activated = s.activated := by rw [← ht]; rfl
  have hevents : t.activations = s.activations := by rw [← ht]; rfl
  have hguests : t.guests = [] := by rw [← ht]; rfl
  have hsubmitted : t.submitted = s.submitted := by rw [← ht]; rfl
  have hno : ∀ g ∈ t.guests, False := by simp [hguests]
  have hchange : s.ChangesOnly id t := by
    refine { umis := fun id' hid' => ?_, guests := fun g hg => (hno g hg).elim,
             waking := fun _ _ => by rw [hevents], contexts := by omega,
             activated := fun ctx hctx => Or.inl (hactivated ▸ hctx), submitted := hsubmitted }
    simp [← ht, Core.blockExecution, Core.setUmi, hid']
  refine h.change hchange (hactivated ▸ h.activated_nodup) ?_
  rw [← hsubmitted] at hwaking
  refine { saved := fun ctx hctx => ?_, not_activated := fun ctx _ hctx => ?_,
           timer := by rw [hself]; exact hx, once := fun hid => ?_ }
  · rw [hself] at hctx
    obtain rfl := Option.some.inj hctx
    exact ⟨rfl, hcontexts ▸ Nat.lt_succ_self _⟩
  · rw [hself] at hctx
    obtain rfl := Option.some.inj hctx
    exact fun hmem => absurd (h.activated_lt _ (hactivated ▸ hmem)) (Nat.lt_irrefl _)
  · refine ⟨fun _ => ?_, fun _ => hblocked, fun _ => ?_,
      hevents ▸ (h.once id (hsubmitted ▸ hid)).waking_once, fun g hg => (hno g hg).elim,
      fun g hg => (hno g hg).elim⟩
    · rw [hself]
      exact ⟨_, rfl⟩
    · rw [Waking, hevents]
      exact hwaking hid

/-- Giving control to the guest of the instance `id`, which is not blocked and of which no activation
is pending. -/
theorem WakeInvariant.control (h : WakeInvariant s) (id : UmiId)
    (hid : s.submitted.count id ≤ 1 → (s.umis id).blocked = false ∧ ¬ s.Waking id)
    (humis : ∀ id, (t.umis id).WaitsAs (s.umis id)) (hguests : ∀ g ∈ t.guests, g.id = id)
    (hevents : t.activations = s.activations) (hcontexts : t.contexts = s.contexts)
    (hactivated : t.activated = s.activated) (hsubmitted : t.submitted = s.submitted) :
    WakeInvariant t := by
  have hloop : WakeInvariant { t with guests := [] } :=
    h.frame humis (fun _ h => absurd h List.not_mem_nil) (hevents ▸ List.Sublist.refl _) hcontexts
      hactivated fun _ => hsubmitted ▸ Nat.le_refl _
  refine ⟨hloop.saved_umi, hloop.saved_lt, hloop.activated_lt, hloop.activated_nodup,
    hloop.blocked_not_activated, hloop.timers, fun id' hid' => ?_⟩
  obtain ⟨hcontext, htimer, hnot, hone, -, -⟩ := hloop.once id' hid'
  refine ⟨hcontext, htimer, hnot, hone, fun g hg heq => ?_, fun g hg heq => ?_⟩
  · obtain rfl : id = id' := (hguests g hg).symm.trans heq
    exact (humis id).blocked.trans (hid (hsubmitted ▸ hid')).1
  · obtain rfl : id = id' := (hguests g hg).symm.trans heq
    rw [Waking, hevents]
    exact (hid (hsubmitted ▸ hid')).2

/-- Dropping the saved context of an instance that is not blocked. -/
theorem WakeInvariant.dropContext (h : WakeInvariant s)
    (hid : s.submitted.count id ≤ 1 → (s.umis id).blocked = false) :
    WakeInvariant (s.setUmi id { s.umis id with context := none }) := by
  generalize ht : s.setUmi id { s.umis id with context := none } = t
  have hself : t.umis id = { s.umis id with context := none } := by simp [← ht, Core.setUmi]
  have hdropped : (t.umis id).context = none := hself ▸ rfl
  have hblocked : (t.umis id).blocked = (s.umis id).blocked := by rw [hself]
  have htimer : (t.umis id).timerSet = (s.umis id).timerSet := by rw [hself]
  have hactivated : t.activated = s.activated := by rw [← ht]; rfl
  have hevents : t.activations = s.activations := by rw [← ht]; rfl
  have hguests : t.guests = s.guests := by rw [← ht]; rfl
  have hsubmitted : t.submitted = s.submitted := by rw [← ht]; rfl
  have hchange : s.ChangesOnly id t := by
    refine { umis := fun id' hid' => ?_, guests := fun g hg => hguests ▸ hg,
             waking := fun _ _ => by rw [hevents], contexts := by rw [← ht]; exact Nat.le_refl _,
             activated := fun ctx hctx => Or.inl (hactivated ▸ hctx), submitted := hsubmitted }
    simp [← ht, Core.setUmi, hid']
  refine h.change hchange (hactivated ▸ h.activated_nodup) ?_
  refine { saved := fun ctx hctx => ?_, not_activated := fun ctx _ hctx => ?_,
           timer := by rw [hself]; exact h.timers id, once := fun hsub => ?_ }
  · rw [hdropped] at hctx
    cases hctx
  · rw [hdropped] at hctx
    cases hctx
  · rw [hsubmitted] at hsub
    obtain ⟨-, htimerBlocked, hnot, hone, hguest, hnotGuest⟩ := h.once id hsub
    refine ⟨fun hb => ?_, ?_, ?_, hevents ▸ hone, ?_, ?_⟩
    · rw [hblocked, hid hsub] at hb
      cases hb
    · rw [htimer, hblocked]
      exact htimerBlocked
    · rw [hblocked, Waking, hevents]
      exact hnot
    · rw [hguests, hblocked]
      exact hguest
    · rw [hguests, Waking, hevents]
      exact hnotGuest

end Transformers

/-! ## Steps -/

section Steps

variable {s : Core} {id : UmiId}

/-- `Kick` keeps the invariant. -/
theorem WakeInvariant.kick_outcome (h : WakeInvariant s) (id : UmiId) :
    Outcome (s.kick id) WakeInvariant s.Excused := by
  refine Core.kick_outcome (fun hblocked hnone id' hid' => ?_) h
    fun ctx hblocked hctx => h.wake hblocked hctx
  obtain rfl : id = id' := Option.some.inj hid'
  by_contra hlt
  obtain ⟨ctx, hctx⟩ := (h.once id (by omega)).blocked_context hblocked
  simp [hnone] at hctx

/-- The return of the instance keeps the invariant. -/
theorem WakeInvariant.release (h : WakeInvariant s) (call : Call) :
    WakeInvariant (s.release id call) :=
  h.frame (fun _ => .refl _) (fun _ h => absurd h List.not_mem_nil)
    (by rw [← s.activations_spawnYieldAfter call]; exact List.Sublist.refl _) rfl rfl
    fun _ => Nat.le_refl _

/-- `Halt` keeps the invariant. -/
theorem WakeInvariant.halt_outcome (h : WakeInvariant s) :
    Outcome s.halt WakeInvariant s.Excused := by
  have hhalting : ∀ id, WakeInvariant (s.setHalting id) := by
    intro id
    have hset := h.setUmi (UmInstance.sameWait_setActive (s.umis id)).waitsAs
    exact hset.of_eq rfl rfl rfl rfl rfl rfl
  refine Core.halt_outcome excused_of_isOther (fun _ _ h => by cases h) (fun _ _ h => by cases h)
    (fun id _ _ _ _ => (hhalting id).spawnLocal rfl) fun id call _ _ _ _ _ => ?_
  have hremoved : WakeInvariant ((s.setHalting id).removeInstanceState id) :=
    (hhalting id).of_eq rfl rfl rfl rfl rfl rfl
  exact hremoved.release call

/-- So does the end of `Yield`. -/
theorem WakeInvariant.yieldTo_outcome {next umi : UmiId} (h : WakeInvariant s)
    (hloaded : s.status = .loaded) (hactive : s.activeUmi = some umi) :
    Outcome (s.yieldTo next) WakeInvariant s.Excused := by
  refine Core.yieldTo_outcome hloaded hactive (fun _ => ?_) (fun _ _ => ?_) fun _ => ?_
  · exact h.of_eq rfl rfl rfl rfl rfl rfl
  · have hidle : WakeInvariant { s with
        status := .idle
        inactiveUmiHaltMap := Function.update s.inactiveUmiHaltMap next false } :=
      h.of_eq rfl rfl rfl rfl rfl rfl
    exact hidle.halt_outcome
  · have hidle : WakeInvariant { s with status := .idle } := h.of_eq rfl rfl rfl rfl rfl rfl
    exact hidle.kick_outcome umi

/-- `Yield` keeps the invariant. -/
theorem WakeInvariant.yield_outcome (h : WakeInvariant s) :
    Outcome s.yield WakeInvariant s.Excused := by
  refine Core.yield_outcome excused_of_isOther (fun _ => h) (fun old _ _ _ _ => ?_)
    (fun next umi old _ _ _ _ _ => ?_) fun next umi _ _ _ => ?_
  · exact h.of_eq rfl rfl rfl rfl rfl rfl
  · have hloaded : WakeInvariant (((s.takeInactive next).vacate old).occupy umi) :=
      h.of_eq rfl rfl rfl rfl rfl rfl
    exact hloaded.yieldTo_outcome rfl rfl
  · have hloaded : WakeInvariant ((s.takeInactive next).occupy umi) :=
      h.of_eq rfl rfl rfl rfl rfl rfl
    exact hloaded.yieldTo_outcome rfl rfl

/-- Entering an instance that has no context, unless it was submitted more than once. -/
theorem WakeInvariant.enter (h : WakeInvariant s) (frame : Option Call)
    (hfresh : s.HasContext id → 2 ≤ s.submitted.count id) : WakeInvariant (s.enter id frame) := by
  refine h.control id (fun hid => ?_) (waitsAs_setUmi ⟨rfl, rfl, fun h => ⟨h, rfl, rfl⟩⟩)
    (fun g hg => List.mem_singleton.mp hg ▸ rfl) rfl rfl rfl rfl
  have hnot : ¬ s.HasContext id := fun hhas => by
    have := hfresh hhas
    omega
  refine ⟨Bool.eq_false_iff.mpr fun hblocked => ?_, fun hwaking => ?_⟩
  · exact hnot (Or.inl ((h.once id hid).blocked_context hblocked))
  · obtain ⟨ctx, hctx, humi⟩ := List.mem_map.mp hwaking
    exact hnot (Or.inr ⟨ctx, mem_activations.mp hctx, humi⟩)

/-- `process_gateway` keeps the invariant, if the loaded instance has no context. -/
theorem WakeInvariant.processGateway_outcome (h : WakeInvariant s) (hfresh : s.LoadedFresh)
    (frame : Option Call) : Outcome (s.processGateway frame) WakeInvariant s.Excused := by
  refine Core.processGateway_outcome excused_of_isOther (fun id hloaded hactive => ?_)
    fun id call _ _ _ => h.release call
  exact h.enter frame (hfresh id hloaded hactive)

/-- An instance may be submitted. -/
theorem WakeInvariant.submit (h : WakeInvariant s) (id : UmiId) : WakeInvariant (s.submit id) :=
  h.frame (fun _ => .refl _) (fun _ h => h) (List.Sublist.refl _) rfl rfl
    fun _ => List.count_le_count_cons

/-- `Load` keeps the invariant. -/
theorem WakeInvariant.load_outcome (h : WakeInvariant s) :
    Outcome ((s.submit id).load id) WakeInvariant s.Excused := by
  have hsubmit := h.submit id
  refine Core.load_outcome excused_of_isOther (fun _ => ?_) (fun old _ _ _ => ?_) fun _ => ?_
  · exact hsubmit.of_eq rfl rfl rfl rfl rfl rfl
  · exact hsubmit.of_eq rfl rfl rfl rfl rfl rfl
  · exact hsubmit.of_eq rfl rfl rfl rfl rfl rfl

/-- `Run` keeps the invariant. -/
theorem WakeInvariant.run_outcome (h : WakeInvariant s) (hcontexts : ContextInvariant s) :
    Outcome ((s.submit id).run id) WakeInvariant s.Excused := by
  refine Core.run_outcome excused_of_isOther fun _ => ?_
  have hloaded : WakeInvariant ((s.submit id).occupy id) :=
    (h.submit id).of_eq rfl rfl rfl rfl rfl rfl
  exact hloaded.enter _ fun hhas => hcontexts.two_le_count hhas

/-- Up to the call of `Yield`, a step that yields keeps the invariant. -/
theorem WakeInvariant.of_yieldCall (h : WakeInvariant s) {t : Core} {a : Step}
    (hcall : s.yieldCall a = some t) : WakeInvariant t :=
  Core.of_yieldCall hcall h
    (fun i => h.frame (fun _ => .refl _) (fun _ h => h)
      (List.Sublist.filterMap _ (List.eraseIdx_sublist _ i)) rfl rfl fun _ => Nat.le_refl _)
    (fun _ _ hy => h.setUmi hy.waitsAs) (fun _ _ hu => hu.of_eq rfl rfl rfl rfl rfl rfl)
    fun _ _ hu => hu.of_eq rfl rfl rfl rfl rfl rfl

/-- The guest in control may block: its timer is not set. -/
theorem WakeInvariant.poll_outcome (h : WakeInvariant s) (hcontrol : ControlInvariant s)
    {g : Guest} {gs : List Guest} (hguests : s.guests = g :: gs) (ns now : ℕ) :
    Outcome (s.poll g.id ns now) WakeInvariant s.Excused := by
  obtain ⟨hg, hactive, -⟩ := hcontrol.inControl.of_guests hguests
  have hmem : g ∈ s.guests := hguests ▸ List.mem_cons_self
  have hawake : s.submitted.count g.id ≤ 1 →
      (s.umis g.id).blocked = false ∧ (s.umis g.id).timerSet = false ∧ ¬ s.Waking g.id := by
    intro hid
    have honce := h.once g.id hid
    have hblocked := honce.guest_not_blocked g hmem rfl
    refine ⟨hblocked, Bool.eq_false_iff.mpr fun hset => ?_, honce.guest_not_waking g hmem rfl⟩
    simp [honce.timer_blocked hset] at hblocked
  have hidle : WakeInvariant { s with status := .idle } := h.of_eq rfl rfl rfl rfl rfl rfl
  refine Core.poll_outcome excused_of_isOther h fun _ _ _ => ?_
  refine Core.block_outcome excused_of_isOther (fun _ _ _ h => by cases h) ?_ (fun _ => ?_) ?_
  · intro id hid hset id' hid'
    obtain rfl : g.id = id := Option.some.inj (hactive.symm.trans hid)
    obtain rfl : g.id = id' := Option.some.inj hid'
    by_contra hlt
    simp [(hawake (by omega)).2.1] at hset
  · exact hidle.control g.id (fun hid => ⟨(hawake hid).1, (hawake hid).2.2⟩) (fun _ => .refl _)
      (fun g' hg' => List.mem_singleton.mp hg' ▸ rfl) rfl rfl rfl rfl
  · intro id x _ hid _ hx
    obtain rfl : g.id = id := Option.some.inj (hactive.symm.trans hid)
    refine hidle.blockExecution ?_ fun hid => (hawake hid).2.2
    rcases hx with rfl | ⟨hset, rfl⟩
    · exact h.timers g.id
    · exact UmInstance.timerSound_sleep hset

/-- Performing a pending activation: of its instance no other one is pending. -/
theorem WakeInvariant.activateContext_outcome (h : WakeInvariant s) {i : ℕ} {ctx : EventContext}
    (he : s.events[i]? = some (.activateContext ctx)) (hguest : ctx.guest = ctx.umi) :
    Outcome ({ s with events := s.events.eraseIdx i }.activateContext ctx) WakeInvariant
      s.Excused := by
  generalize ht : { s with events := s.events.eraseIdx i } = t
  have hrest : WakeInvariant t := by
    rw [← ht]
    exact h.frame (fun _ => .refl _) (fun _ h => h)
      (List.Sublist.filterMap _ (List.eraseIdx_sublist _ i)) rfl rfl fun _ => Nat.le_refl _
  have hperm : s.activations.Perm (ctx :: t.activations) := by
    obtain ⟨hi, he'⟩ := List.getElem?_eq_some_iff.mp he
    have hevents := (List.getElem_cons_eraseIdx_perm hi).symm
    rw [he'] at hevents
    rw [← ht]
    exact hevents.filterMap _
  have hcount : (s.activations.map EventContext.umi).count ctx.umi =
      (t.activations.map EventContext.umi).count ctx.umi + 1 := by
    rw [(hperm.map EventContext.umi).count_eq, List.map_cons, List.count_cons_self]
  have hawake : t.submitted.count ctx.umi ≤ 1 →
      (t.umis ctx.umi).blocked = false ∧ ¬ t.Waking ctx.umi := by
    intro hid
    rw [← ht] at hid
    have honce := h.once ctx.umi hid
    refine ⟨Bool.eq_false_iff.mpr fun hblocked => ?_, fun hwaking => ?_⟩
    · rw [← ht] at hblocked
      refine honce.blocked_not_waking hblocked (List.one_le_count_iff.mp ?_)
      omega
    · have hone := honce.waking_once
      have hpos := List.one_le_count_iff.mpr hwaking
      omega
  have hdropped := hrest.dropContext fun hid => (hawake hid).1
  refine Core.activateContext_outcome (fun _ => ?_) ?_
  · refine returnFromBlock_outcome (fun e he => ?_) (fun _ _ h => by cases h) fun _ => ?_
    · exact excused_of_isOther e he
    · refine hdropped.control ctx.umi (fun hid => ?_) (fun _ => .refl _) (fun g hg => ?_)
        rfl rfl rfl rfl
      · obtain ⟨hblocked, hwaking⟩ := hawake hid
        exact ⟨by simpa [Core.setUmi] using hblocked, hwaking⟩
      · rw [List.mem_singleton.mp hg]
        exact hguest
  · rw [hguest]
    exact hrest.blockExecution (hrest.timers ctx.umi) fun hid => (hawake hid).2

/-- An event that does not yield keeps the invariant. -/
theorem WakeInvariant.dispatch_outcome (h : WakeInvariant s) (hcontrol : ControlInvariant s)
    {i : ℕ} (hcall : s.yieldCall (.dispatch i) = none) :
    Outcome (s.dispatch i) WakeInvariant s.Excused := by
  have hrest : WakeInvariant { s with events := s.events.eraseIdx i } :=
    h.frame (fun _ => .refl _) (fun _ h => h)
      (List.Sublist.filterMap _ (List.eraseIdx_sublist _ i)) rfl rfl fun _ => Nat.le_refl _
  unfold dispatch
  cases he : s.events[i]? with
  | none => exact h
  | some e =>
    cases e with
    | yield => simp [yieldCall, he] at hcall
    | halt => exact hrest.halt_outcome
    | processOutgoing writer pkt =>
      refine Core.processOutgoing_outcome excused_of_isOther hrest (fun _ => ?_) fun x y _ hy _ => ?_
      · exact hrest.of_eq rfl rfl rfl rfl rfl rfl
      · have hsent : WakeInvariant { s with
            events := s.events.eraseIdx i
            sent := (writer, s.proxyUmi) :: s.sent } :=
          hrest.of_eq rfl rfl rfl rfl rfl rfl
        exact hsent.setUmi hy.waitsAs
    | activateContext ctx =>
      exact h.activateContext_outcome he
        (hcontrol.contexts.pending ctx (List.mem_of_getElem? he))
    | other => exact hrest

/-- Every step that is enabled keeps the invariant, or aborts excused. -/
theorem WakeInvariant.exec_outcome (h : WakeInvariant s) (hcontrol : ControlInvariant s)
    {a : Step} (henabled : s.enabled a = true) :
    Outcome (s.exec a) WakeInvariant s.Excused := by
  cases hcall : s.yieldCall a with
  | some t =>
    rw [exec_of_yieldCall hcall]
    have hsubmitted : t.submitted = s.submitted :=
      Core.of_yieldCall hcall (P := fun u => u.submitted = s.submitted) rfl (fun _ => rfl)
        (fun _ _ _ => rfl) (fun _ _ hu => hu) fun _ _ hu => hu
    refine (h.of_yieldCall hcall).yield_outcome.mono (fun _ h => h) fun e he id hid => ?_
    exact hsubmitted ▸ he id hid
  | none =>
    cases a with
    | load id => exact h.load_outcome
    | run id => exact h.run_outcome hcontrol.contexts
    | start id => exact h.processGateway_outcome hcontrol.loaded _
    | signalHalt id => exact signalHalt_outcome excused_of_isOther hcall fun _ => h.halt_outcome
    | signalYield id => exact signalYield_outcome h (h.spawnLocal rfl)
    | signalResume id =>
      exact signalResume_outcome excused_of_isOther hcall fun _ => h.kick_outcome id
    | yield => cases hcall
    | spawnHalt => exact h.spawnLocal rfl
    | spawnOther => exact h.spawnLocal rfl
    | processIncoming id payload =>
      exact processIncoming_outcome excused_of_isOther hcall h
        fun x y _ hy => (h.setUmi hy.waitsAs).kick_outcome x
    | enqueuePacket id buf => exact h.setUmi ⟨rfl, rfl, fun h => ⟨h, rfl, rfl⟩⟩
    | dispatch i => exact h.dispatch_outcome hcontrol hcall
    | fire id now =>
      exact Core.fire_outcome (fun x hx _ hset => h.setUmi (hx.waitsAs hset))
        fun x hx _ hset _ => (h.setUmi (hx.waitsAs hset)).kick_outcome id
    | poll ns now =>
      obtain ⟨g, gs, hguests⟩ := guests_of_enabled_hypercall henabled rfl
      change Outcome (s.poll s.guest ns now) WakeInvariant _
      rw [guest, hguests]
      exact h.poll_outcome hcontrol hguests ns now
    | netwrite pkt => exact h.spawnLocal rfl
    | netread len =>
      exact Core.netread_outcome excused_of_isOther fun x y hy => h.setUmi hy.waitsAs
    | halt => exact h.halt_outcome

/-- So every step of the machine keeps it. -/
theorem WakeInvariant.step {t : Core} {a : Step} (h : WakeInvariant s)
    (hcontrol : ControlInvariant s) (hstep : s.step a = some t) : WakeInvariant t := by
  obtain ⟨henabled, hexec⟩ := step_eq_some.mp hstep
  exact (h.exec_outcome hcontrol henabled).of_eq_ok hexec

end Steps

/-- The invariant holds in every state a run reaches. -/
theorem WakeInvariant.of_run {as : List Step} {t : Core}
    (hrun : Foundations.run Core.step init as = some t) : WakeInvariant t := by
  have hall : SlotInvariant [] t ∧ ControlInvariant t ∧ WakeInvariant t :=
    run_invariant' (I := fun s => SlotInvariant [] s ∧ ControlInvariant s ∧ WakeInvariant s)
      (fun _ _ _ hs hs' => ⟨hs.1.step hs', hs.2.1.step hs.1 hs', hs.2.2.step hs.2.1 hs'⟩)
      ⟨slotInvariant_init, controlInvariant_init, wakeInvariant_init⟩ hrun
  exact hall.2.2

/-- In every state a run reaches, no context has been passed to `ActivateContext` twice; and of an
instance that was submitted once: when it is blocked it has a saved context, which has not been
activated; a timer is armed only while it is blocked; and no step finds it blocked without a context
or going to sleep with its timer set. -/
theorem contexts_resumed_once {as : List Step} {t : Core}
    (hrun : Foundations.run Core.step init as = some t) :
    t.activated.Nodup ∧
    ∀ id, t.submitted.count id ≤ 1 →
      ((t.umis id).blocked = true →
        ∃ ctx, (t.umis id).context = some ctx ∧ ctx.umi = id ∧ ctx ∉ t.activated) ∧
      ((t.umis id).timerSet = true → (t.umis id).blocked = true) ∧
      ∀ a, t.enabled a = true →
        t.exec a ≠ .error (.noContext id) ∧ t.exec a ≠ .error (.timerAlreadySet id) := by
  have ht := WakeInvariant.of_run hrun
  refine ⟨ht.activated_nodup, fun id hid => ⟨fun hblocked => ?_, (ht.once id hid).timer_blocked,
    fun a henabled => ?_⟩⟩
  · obtain ⟨ctx, hctx⟩ := (ht.once id hid).blocked_context hblocked
    exact ⟨ctx, hctx, ht.saved_umi id ctx hctx, ht.blocked_not_activated id ctx hblocked hctx⟩
  · have hexec := ht.exec_outcome (ControlInvariant.of_run hrun) henabled
    have hnot : ∀ e, e.wakeFault = some id → t.exec a ≠ .error e := by
      intro e he herr
      have := hexec.of_eq_error herr id he
      omega
    exact ⟨hnot _ rfl, hnot _ rfl⟩

/-- Instance 2 sleeps, is kicked by its timer, and finds the slot taken by instance 3 when it
resumes: it blocks again, and is kicked once more when a packet swaps it back in. -/
theorem contexts_resumed_once_refused : ∃ t, Foundations.run Core.step init
    [.load 2, .start 2, .netwrite ⟨true, true, 1⟩, .poll 1000 0, .dispatch 0, .fire 2 1000,
      .load 3, .dispatch 0, .start 3, .netwrite ⟨true, true, 1⟩, .poll 1000 1000, .dispatch 0,
      .processIncoming 2 true, .dispatch 0] = some t ∧ t.activated.Nodup := by
  obtain ⟨t, ht⟩ : ∃ t, Foundations.run Core.step init
      [.load 2, .start 2, .netwrite ⟨true, true, 1⟩, .poll 1000 0, .dispatch 0, .fire 2 1000,
        .load 3, .dispatch 0, .start 3, .netwrite ⟨true, true, 1⟩, .poll 1000 1000, .dispatch 0,
        .processIncoming 2 true, .dispatch 0] = some t := ⟨_, rfl⟩
  exact ⟨t, ht, (contexts_resumed_once ht).1⟩

end Core

end Umm
