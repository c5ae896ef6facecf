import Umm.Manager.Machine

/-!
# What the scheduler's functions can do

One rule for each function that may abort, in terms of `Outcome`: a premise for each way the
function returns, saying what the state is then, and one for each way it can offend the status
machine or find the flags of an instance inconsistent.  The other aborts share the premise `hE`.

The states a function returns are named by the transformers of the first section (`vacate`,
`occupy`, `enter`, `release`, …), which never abort; the invariants are proved for these.
-/

namespace Umm

open Foundations

/-- The abort is one of the status machine: a rejected transition, or `Halt` with an empty slot. -/
def Abort.concernsStatus : Abort → Bool
  | .badStatus _ _ | .haltEmpty => true
  | _ => false

/-- The abort is none of those that the rules tell apart. -/
def Abort.isOther : Abort → Bool
  | .badStatus _ _ | .haltEmpty | .noContext _ | .timerAlreadySet _ => false
  | _ => true

/-- The aborts of other kinds do not concern the status. -/
theorem Abort.concernsStatus_of_isOther (e : Abort) (he : e.isOther = true) :
    e.concernsStatus = false := by
  cases e with
  | badStatus old new => cases he
  | haltEmpty => cases he
  | _ => rfl

/-- The two states of an instance differ in nothing the gateway and the event contexts depend on. -/
structure UmInstance.SameContext (x y : UmInstance) : Prop where
  /-- The instance is blocked in both or in neither. -/
  blocked : x.blocked = y.blocked
  /-- The saved contexts are the same. -/
  context : x.context = y.context
  /-- The saved frames are the same. -/
  frame : x.callerRestoreFrame = y.callerRestoreFrame

/-- They do not differ in their timers either. -/
structure UmInstance.SameWait (x y : UmInstance) : Prop extends UmInstance.SameContext x y where
  /-- The timer is armed in both or in neither. -/
  timerSet : x.timerSet = y.timerSet
  /-- They sleep until the same time. -/
  timeWait : x.timeWait = y.timeWait
  /-- Their timers are due at the same time. -/
  timerDue : x.timerDue = y.timerDue

/-- An instance waits as it does. -/
theorem UmInstance.SameWait.refl (x : UmInstance) : x.SameWait x :=
  ⟨⟨rfl, rfl, rfl⟩, rfl, rfl, rfl⟩

/-- `SetActive` changes nothing about what the instance waits for. -/
theorem UmInstance.sameWait_setActive (x : UmInstance) : x.setActive.SameWait x :=
  ⟨⟨rfl, rfl, rfl⟩, rfl, rfl, rfl⟩

/-- `SetInactive` changes nothing about what the instance waits for. -/
theorem UmInstance.sameWait_setInactive (x : UmInstance) : x.setInactive.SameWait x :=
  ⟨⟨rfl, rfl, rfl⟩, rfl, rfl, rfl⟩

/-- `ReadPacket` changes nothing about what the instance waits for. -/
theorem UmInstance.sameWait_readPacket (x : UmInstance) (len : ℕ) :
    (x.readPacket len).SameWait x := by
  unfold readPacket
  split
  · exact .refl x
  · split_ifs <;> exact ⟨⟨rfl, rfl, rfl⟩, rfl, rfl, rfl⟩

namespace Core

/-! ## State transformers -/

/-- The instance `id` leaves the slot for the end of the queue. -/
def vacate (s : Core) (id : UmiId) : Core :=
  { (s.emplaceInactive id).slotQueuePush id with status := .empty, activeUmi := none }

/-- The instance `id` is loaded into the slot. -/
def occupy (s : Core) (id : UmiId) : Core :=
  { s with proxyUmi := id, activeUmi := some id, loads := s.loads + 1, status := .loaded }

/-- The guest of the loaded instance `id` gets control; `frame` is where it will return to. -/
def enter (s : Core) (id : UmiId) (frame : Option Call) : Core :=
  { s.setUmi id { s.umis id with callerRestoreFrame := frame } with
    status := .active
    guests := [⟨id, s.loads⟩]
    entered := frame.toList.map (·, id) ++ s.entered }

/-- The instance `id` leaves the slot for good: `call` returns it. -/
def release (s : Core) (id : UmiId) (call : Call) : Core :=
  { s.spawnYieldAfter call with
    status := .empty
    activeUmi := none
    guests := []
    handedBack := (call, id) :: s.handedBack }

/-- The instance `id` in the slot is set halting. -/
def setHalting (s : Core) (id : UmiId) : Core :=
  { s.setUmi id (s.umis id).setActive with status := .halting }

/-- The instance `id` is unblocked: the activation of its context is an event. -/
def wake (s : Core) (id : UmiId) (ctx : EventContext) : Core :=
  ({ s with activated := ctx :: s.activated }.setUmi id
    { s.umis id with blocked := false }.disableTimer).spawnLocal (.activateContext ctx)

/-- `Block` returns to `guest`, which is in control again. -/
def resume (s : Core) (guest : UmiId) : Core :=
  { s with
    status := .active
    guests := [⟨guest, s.loads⟩]
    blockReturns := ⟨guest, s.status, s.activeUmi⟩ :: s.blockReturns }

/-! ## Rules -/

section Rules

variable {s : Core} {Q : Core → Prop} {E : Abort → Prop}

/-- The rule of `UmmStatus::set`: the transition is allowed, or the core aborts. -/
theorem setStatus_outcome {new : Status}
    (hok : s.status.allows new = true → Q { s with status := new })
    (hbad : s.status.allows new = false → E (.badStatus s.status new)) :
    Outcome (s.setStatus new) Q E := by
  unfold setStatus
  cases h : s.status.allows new with
  | true => exact hok h
  | false => exact hbad h

/-- A transition that is accepted. -/
theorem setStatus_of_allows {new : Status} (h : s.status.allows new = true) :
    s.setStatus new = .ok { s with status := new } := by
  rw [setStatus, if_pos h]

/-- `slot_load_instance` occupies an empty slot. -/
theorem slotLoadInstance_of_empty {id : UmiId} (h : s.status = .empty) :
    s.slotLoadInstance id = .ok (s.occupy id) :=
  setStatus_of_allows (by simp [Status.allows, h])

/-- The rule of `slot_unload_instance` with the push to the queue: the slot is vacated. -/
theorem slotUnloadToQueue_outcome (hE : ∀ e, e.isOther = true → E e)
    (hstatus : s.status = .idle ∨ s.status = .empty)
    (hvacate : ∀ id, s.activeUmi = some id → Q (s.vacate id)) :
    Outcome s.slotUnloadToQueue Q E := by
  have hset : s.setStatus .empty = .ok { s with status := .empty } :=
    setStatus_of_allows (by rcases hstatus with h | h <;> simp [Status.allows, h])
  unfold slotUnloadToQueue slotUnloadInstance
  rw [hset]
  cases hactive : s.activeUmi with
  | none => exact hE _ rfl
  | some id => exact hvacate id hactive

/-- The rule of `Kick`: a blocked instance is woken with its context, another one stays as it is. -/
theorem kick_outcome {id : UmiId}
    (hlost : (s.umis id).blocked = true → (s.umis id).context = none → E (.noContext id))
    (hstay : Q s)
    (hwake : ∀ ctx, (s.umis id).blocked = true → (s.umis id).context = some ctx →
      Q (s.wake id ctx)) :
    Outcome (s.kick id) Q E := by
  unfold kick
  cases hblocked : (s.umis id).blocked with
  | false => exact hstay
  | true =>
    cases hctx : (s.umis id).context with
    | none => exact hlost hblocked hctx
    | some ctx => exact hwake ctx hblocked hctx

/-- `Start` and `Run` spawn at most a `Yield` after the breakpoint exception. -/
theorem mem_events_spawnYieldAfter {call : Call} {e : Event}
    (he : e ∈ (s.spawnYieldAfter call).events) : e ∈ s.events ∨ e = .yield := by
  unfold spawnYieldAfter at he
  cases call with
  | run id => exact Or.inl he
  | start id =>
    simp only at he
    split_ifs at he
    · exact (List.mem_append.mp he).imp_right List.mem_singleton.mp
    · exact Or.inl he

/-- Once the instance has finished, the call it was entered by returns it. -/
theorem resumeCall_of_finished {call : Call} {id : UmiId} (hactive : s.activeUmi = some id) :
    { s with status := .finished, guests := [] }.resumeCall call = .ok (s.release id call) := by
  have hset : ({ s with status := .finished, guests := [] }.spawnYieldAfter call).setStatus .empty =
      .ok { s.spawnYieldAfter call with status := .empty, guests := [] } :=
    setStatus_of_allows (by simp [spawnYieldAfter, Status.allows])
  unfold resumeCall slotUnloadInstance
  rw [hset]
  simp [release, spawnYieldAfter, hactive, bind, Except.bind]

/-- The rule of `process_gateway`: the guest of a loaded slot is entered, that of a halting slot is
released. -/
theorem processGateway_outcome {frame : Option Call} (hE : ∀ e, e.isOther = true → E e)
    (henter : ∀ id, s.status = .loaded → s.activeUmi = some id → Q (s.enter id frame))
    (hrelease : ∀ id call, s.status = .halting → s.activeUmi = some id →
      (s.umis id).callerRestoreFrame = some call → Q (s.release id call)) :
    Outcome (s.processGateway frame) Q E := by
  unfold processGateway
  cases hstatus : s.status with
  | loaded =>
    cases hactive : s.activeUmi with
    | none => exact hE _ rfl
    | some id =>
      have hset : (s.setUmi id { s.umis id with callerRestoreFrame := frame }).setStatus .active =
          .ok { s.setUmi id { s.umis id with callerRestoreFrame := frame } with
            status := .active } :=
        setStatus_of_allows (by simp [setUmi, Status.allows, hstatus])
      simp only [hset]
      exact henter id hstatus hactive
  | halting =>
    cases hactive : s.activeUmi with
    | none => exact hE _ rfl
    | some id =>
      cases hframe : (s.umis id).callerRestoreFrame with
      | none =>
        simp only [hframe]
        exact hE _ rfl
      | some call =>
        have hset : s.setStatus .finished = .ok { s with status := .finished } :=
          setStatus_of_allows (by simp [Status.allows, hstatus])
        simp only [hframe, hset]
        have hresume : { s with status := .finished, guests := [] }.resumeCall call =
            .ok (s.release id call) := resumeCall_of_finished hactive
        exact (congrArg (Outcome · Q E) hresume).mpr (hrelease id call hstatus hactive hframe)
  | empty => exact hE _ rfl
  | active => exact hE _ rfl
  | snapshot => exact hE _ rfl
  | idle => exact hE _ rfl
  | finished => exact hE _ rfl

/-- The rule of `Halt`: it is put off while events are pending, or the instance is removed. -/
theorem halt_outcome (hE : ∀ e, e.isOther = true → E e)
    (hempty : s.status = .empty → E .haltEmpty)
    (hfinished : s.status = .finished → E (.badStatus .finished .halting))
    (hdefer : ∀ id, s.status ≠ .empty → s.status ≠ .finished → s.activeUmi = some id →
      s.events ≠ [] → Q ((s.setHalting id).spawnLocal .halt))
    (hrelease : ∀ id call, s.status ≠ .empty → s.status ≠ .finished → s.activeUmi = some id →
      s.events = [] → (s.umis id).callerRestoreFrame = some call →
      Q (((s.setHalting id).removeInstanceState id).release id call)) :
    Outcome s.halt Q E := by
  unfold halt
  by_cases hstatus : s.status = .empty
  · rw [if_pos hstatus]
    exact hempty hstatus
  rw [if_neg hstatus]
  cases hactive : s.activeUmi with
  | none => exact hE _ rfl
  | some id =>
    refine outcome_bind.mpr (setStatus_outcome (fun hok => ?_) (fun hbad => ?_))
    · have hfin : s.status ≠ .finished := by
        intro hfin
        simp [setUmi, Status.allows, hfin] at hok
      change Outcome (if s.events.length ≠ 0 then .ok ((s.setHalting id).spawnLocal .halt)
        else ((s.setHalting id).removeInstanceState id).processGateway none) Q E
      by_cases hevents : s.events.length ≠ 0
      · rw [if_pos hevents]
        exact hdefer id hstatus hfin hactive (by simpa using hevents)
      · rw [if_neg hevents]
        refine processGateway_outcome hE (fun _ h => by cases h) ?_
        intro id' call _ hid' hframe
        obtain rfl : id = id' := Option.some.inj (hactive.symm.trans hid')
        refine hrelease id call hstatus hfin hactive (by simpa using hevents) ?_
        simpa [removeInstanceState, setHalting, setUmi] using hframe
    · have hfin : s.status = .finished := by
        cases h : s.status <;> simp_all [setUmi, Status.allows]
      change E (.badStatus s.status .halting)
      rw [hfin]
      exact hfinished hfin

/-- The rule of `slot_swap_instance`: the old instance makes way for the new one. -/
theorem slotSwapInstance_outcome {id : UmiId} (hE : ∀ e, e.isOther = true → E e)
    (hstatus : s.status = .idle)
    (hswap : ∀ old, s.activeUmi = some old → Q ((s.vacate old).occupy id)) :
    Outcome (s.slotSwapInstance id) Q E := by
  have hne : s.status ≠ .empty := by simp [hstatus]
  unfold slotSwapInstance
  rw [if_pos hne, outcome_bind]
  refine slotUnloadToQueue_outcome hE (Or.inl hstatus) fun old hold => ?_
  change Outcome ((s.vacate old).slotLoadInstance id) Q E
  rw [slotLoadInstance_of_empty rfl]
  exact hswap old hold

/-- The rule of `Load`: into an empty slot, in the place of an inactive instance, or to the queue. -/
theorem load_outcome {id : UmiId} (hE : ∀ e, e.isOther = true → E e)
    (hload : s.status = .empty → Q (s.occupy id))
    (hswap : ∀ old, s.status = .idle → s.activeUmi = some old → (s.umis old).active = false →
      Q ((s.vacate old).occupy id))
    (hqueue : s.status ≠ .empty → Q (s.queueInstanceActivation id)) :
    Outcome (s.load id) Q E := by
  unfold load
  by_cases hempty : s.status = .empty
  · rw [if_pos hempty, slotLoadInstance_of_empty hempty]
    exact hload hempty
  rw [if_neg hempty]
  by_cases hidle : s.status = .idle
  · rw [if_pos hidle]
    cases hactive : s.activeUmi with
    | none => exact hE _ rfl
    | some old =>
      cases hyield : (s.umis old).active with
      | true =>
        simp only [hyield, if_true]
        exact hqueue hempty
      | false =>
        simp only [hyield, Bool.false_eq_true, if_false]
        refine slotSwapInstance_outcome hE hidle fun old' hold' => ?_
        obtain rfl : old = old' := Option.some.inj (hactive.symm.trans hold')
        exact hswap old hidle hactive hyield
  · rw [if_neg hidle]
    exact hqueue hempty

/-- The rule of `Run`: the instance is loaded into an empty slot and entered. -/
theorem run_outcome {id : UmiId} (hE : ∀ e, e.isOther = true → E e)
    (hrun : s.status = .empty → Q ((s.occupy id).enter id (some (.run id)))) :
    Outcome (s.run id) Q E := by
  unfold run
  by_cases hempty : s.status = .empty
  · rw [if_pos hempty, slotLoadInstance_of_empty hempty, outcome_bind, outcome_ok]
    refine processGateway_outcome hE (fun id' _ hid' => ?_) fun _ _ h => by cases h
    obtain rfl : id = id' := Option.some.inj hid'
    exact hrun hempty
  · rw [if_neg hempty]
    exact hE _ rfl

/-- The rule of the end of `Block`: the status is active again, and the guest goes on. -/
theorem returnFromBlock_outcome {guest : UmiId} (hE : ∀ e, e.isOther = true → E e)
    (hbad : s.status = .empty ∨ s.status = .active → E (.badStatus s.status .active))
    (hresume : s.status = .loaded ∨ s.status = .snapshot ∨ s.status = .idle → Q (s.resume guest)) :
    Outcome (s.returnFromBlock guest) Q E := by
  unfold returnFromBlock
  by_cases hdone : s.status = .halting ∨ s.status = .finished
  · rw [if_pos hdone]
    exact hE _ rfl
  rw [if_neg hdone]
  refine outcome_bind.mpr (setStatus_outcome (fun hok => ?_) (fun hno => hbad ?_))
  · refine hresume ?_
    cases h : s.status <;> simp_all [Status.allows]
  · cases h : s.status <;> simp_all [Status.allows]

/-- Only the active instance may enter the slot. -/
theorem active_of_requestSlotEntry {id : UmiId} (hnull : id ≠ nullId)
    (h : s.requestSlotEntry id = true) : s.activeUmi = some id := by
  have hid : s.activeInstanceId = id := beq_iff_eq.mp (Bool.and_eq_true_iff.mp h).1
  unfold activeInstanceId at hid
  cases hactive : s.activeUmi with
  | none => exact absurd (hactive ▸ hid).symm hnull
  | some x => exact congrArg some (by simpa [hactive] using hid)

/-- The rule of an event that activates a context. -/
theorem activateContext_outcome {ctx : EventContext}
    (hreturn : (s.setUmi ctx.umi { s.umis ctx.umi with context := none }).requestSlotEntry ctx.umi =
        true →
      Outcome ((s.setUmi ctx.umi { s.umis ctx.umi with context := none }).returnFromBlock ctx.guest)
        Q E)
    (hblock : Q ((s.setUmi ctx.umi { s.umis ctx.umi with context := none }).blockExecution ctx.guest
      ctx.umi)) :
    Outcome (s.activateContext ctx) Q E := by
  unfold activateContext
  by_cases hreq : (s.setUmi ctx.umi
      { s.umis ctx.umi with context := none }).requestSlotEntry ctx.umi = true
  · simp only [if_pos hreq]
    exact hreturn hreq
  · simp only [if_neg hreq]
    exact hblock

/-- To set an instance to what it is changes nothing. -/
theorem setUmi_self (s : Core) (id : UmiId) : s.setUmi id (s.umis id) = s := by
  rw [setUmi, Function.update_eq_self]

/-- The rule of `Sleep`: the instance returns at once, or is suspended with a timer or without. -/
theorem sleep_outcome {guest id : UmiId} {ns now : ℕ}
    (htimer : (s.umis id).timerSet = true → E (.timerAlreadySet id))
    (hreturn : Outcome (s.returnFromBlock guest) Q E)
    (hsuspend : ∀ x, x.SameContext (s.umis id) →
      x = s.umis id ∨
        (s.umis id).timerSet = false ∧ x = { s.umis id with timeWait := now + ns }.enableTimer now →
      Q ((s.setUmi id x).blockExecution guest id)) :
    Outcome (s.sleep guest id ns now) Q E := by
  unfold sleep
  split_ifs with hset hzero hactive
  · exact htimer hset
  · exact hreturn
  · refine hsuspend _ ⟨?_, ?_, ?_⟩ (Or.inr ⟨Bool.eq_false_iff.mpr hset, rfl⟩)
    · simp
    · simp
    · unfold UmInstance.enableTimer
      split_ifs <;> rfl
  · have hself := hsuspend _ ⟨rfl, rfl, rfl⟩ (Or.inl rfl)
    rwa [setUmi_self] at hself

/-- The rule of `Block`: the instance returns at once, is suspended, or the core aborts. -/
theorem block_outcome {guest : UmiId} {ns now : ℕ} (hE : ∀ e, e.isOther = true → E e)
    (hbad : s.status ≠ .active → s.status ≠ .loaded → E (.badStatus s.status .idle))
    (htimer : ∀ id, s.activeUmi = some id → (s.umis id).timerSet = true → E (.timerAlreadySet id))
    (hreturn : s.status = .active ∨ s.status = .loaded → Q ({ s with status := .idle }.resume guest))
    (hsuspend : ∀ id x, s.status = .active ∨ s.status = .loaded → s.activeUmi = some id →
      x.SameContext (s.umis id) →
      x = s.umis id ∨
        (s.umis id).timerSet = false ∧ x = { s.umis id with timeWait := now + ns }.enableTimer now →
      Q (({ s with status := .idle }.setUmi id x).blockExecution guest id)) :
    Outcome (s.block guest ns now) Q E := by
  unfold block
  refine outcome_bind.mpr (setStatus_outcome (fun hok => ?_) fun hno => hbad ?_ ?_)
  · have hstatus : s.status = .active ∨ s.status = .loaded := by
      cases h : s.status <;> simp_all [Status.allows]
    obtain ⟨t, ht⟩ : ∃ t : Core, t = { s with status := .idle } := ⟨_, rfl⟩
    rw [← ht] at hreturn hsuspend ⊢
    have hidle : t.status = .idle := by rw [ht]
    have humis : t.umis = s.umis := by rw [ht]
    cases hactive : t.activeUmi with
    | none => exact hE _ rfl
    | some id =>
      have hid : s.activeUmi = some id := by rw [← hactive, ht]
      refine sleep_outcome (fun hset => htimer id hid (humis ▸ hset))
        (returnFromBlock_outcome hE ?_ fun _ => hreturn hstatus) fun x hx hx' => ?_
      · rintro (h | h) <;> rw [hidle] at h <;> cases h
      · exact hsuspend id x hstatus hid (humis ▸ hx) (humis ▸ hx')
  · intro h
    simp [Status.allows, h] at hno
  · intro h
    simp [Status.allows, h] at hno

/-- The rule of the hypercall `poll`: it blocks when there is no data. -/
theorem poll_outcome {guest : UmiId} {ns now : ℕ} (hE : ∀ e, e.isOther = true → E e)
    (hstay : Q s)
    (hblock : ∀ id, s.activeUmi = some id → (s.umis id).hasData = false →
      Outcome (s.block guest ns now) Q E) :
    Outcome (s.poll guest ns now) Q E := by
  unfold poll
  cases hactive : s.activeUmi with
  | none => exact hE _ rfl
  | some id =>
    cases hdata : (s.umis id).hasData with
    | true => simpa [hdata] using hstay
    | false => simpa [hdata] using hblock id hactive hdata

/-- The rule of `Fire`: the timer is off, and the instance may be kicked. -/
theorem fire_outcome {id : UmiId} {now : ℕ}
    (hstay : ∀ x, x.SameContext (s.umis id) → x.active = (s.umis id).active → x.timerSet = false →
      Q (s.setUmi id x))
    (hkick : ∀ x, x.SameContext (s.umis id) → x.active = (s.umis id).active → x.timerSet = false →
      s.requestSlotEntry id = true → Outcome ((s.setUmi id x).kick id) Q E) :
    Outcome (s.fire id now) Q E := by
  have htwice : ∀ x y, (s.setUmi id x).setUmi id y = s.setUmi id y := by
    intro x y
    simp [setUmi]
  unfold fire
  simp only [htwice]
  split_ifs with hdue hentry
  · refine hkick _ ⟨?_, ?_, ?_⟩ ?_ ?_ hentry <;> simp [setUmi]
  · refine hstay _ ⟨?_, ?_, ?_⟩ ?_ ?_ <;> simp [setUmi]
  · exact hstay _ ⟨rfl, rfl, rfl⟩ rfl rfl

/-- The rule of the end of `Yield`, once the next instance is in the slot. -/
theorem yieldTo_outcome {next umi : UmiId} (hloaded : s.status = .loaded)
    (hactive : s.activeUmi = some umi)
    (hpromise : s.activationPromiseMap next = true →
      Q { s with activationPromiseMap := Function.update s.activationPromiseMap next false })
    (hhalt : s.activationPromiseMap next = false → s.inactiveUmiHaltMap next = true →
      Outcome ({ s with
        status := .idle
        inactiveUmiHaltMap := Function.update s.inactiveUmiHaltMap next false }.halt) Q E)
    (hkick : s.activationPromiseMap next = false → Outcome ({ s with status := .idle }.kick umi) Q E) :
    Outcome (s.yieldTo next) Q E := by
  have hset : ∀ t : Core, t.status = .loaded → t.setStatus .idle = .ok { t with status := .idle } :=
    fun t ht => setStatus_of_allows (by simp [Status.allows, ht])
  unfold yieldTo
  cases hp : s.activationPromiseMap next with
  | true =>
    simp only [if_true]
    exact hpromise hp
  | false =>
    cases hh : s.inactiveUmiHaltMap next with
    | true =>
      simp only [Bool.false_eq_true, if_false, if_true]
      rw [hset { s with
        inactiveUmiHaltMap := Function.update s.inactiveUmiHaltMap next false } hloaded]
      exact hhalt hp hh
    | false =>
      simp only [Bool.false_eq_true, if_false]
      rw [hset s hloaded, outcome_bind, outcome_ok]
      obtain ⟨t, ht⟩ : ∃ t : Core, t = { s with status := .idle } := ⟨_, rfl⟩
      have htactive : t.activeUmi = some umi := by rw [ht]; exact hactive
      rw [← ht, htactive]
      exact ht ▸ hkick hp

/-- The rule of `Yield`: nothing happens, the slot is vacated, or an instance is loaded. -/
theorem yield_outcome (hE : ∀ e, e.isOther = true → E e)
    (hstay : (s.activeUmi = none → s.status = .empty → s.findEligible = none) → Q s)
    (hvacate : ∀ old, s.status = .idle ∨ s.status = .empty → s.activeUmi = some old →
      (s.umis old).active = false → s.idleUmiQueue = [] → Q (s.vacate old))
    (hswap : ∀ next umi old, s.status = .idle → s.activeUmi = some old →
      (s.umis old).active = false → s.findEligible = some next → s.inactiveUmiMap next = some umi →
      Outcome ((((s.takeInactive next).vacate old).occupy umi).yieldTo next) Q E)
    (hload : ∀ next umi, s.status = .empty → s.findEligible = some next →
      s.inactiveUmiMap next = some umi →
      Outcome (((s.takeInactive next).occupy umi).yieldTo next) Q E) :
    Outcome s.yield Q E := by
  unfold yield
  by_cases hbusy : s.activeUmi.any (fun id => (s.umis id).active) = true
  · rw [if_pos hbusy]
    exact hstay fun hnone => by simp [hnone] at hbusy
  have hinactive : ∀ old, s.activeUmi = some old → (s.umis old).active = false := by
    intro old hold
    simpa [hold] using hbusy
  rw [if_neg hbusy]
  by_cases hstatus : s.status ≠ .idle ∧ s.status ≠ .empty
  · rw [if_pos hstatus]
    exact hstay fun _ hempty => absurd hempty hstatus.2
  rw [if_neg hstatus]
  have hstatus : s.status = .idle ∨ s.status = .empty := by
    by_contra h
    exact hstatus (not_or.mp h)
  by_cases hqueue : s.idleUmiQueue.length = 0
  · rw [if_pos hqueue]
    refine slotUnloadToQueue_outcome hE hstatus fun old hold => ?_
    exact hvacate old hstatus hold (hinactive old hold) (List.length_eq_zero_iff.mp hqueue)
  rw [if_neg hqueue]
  cases hnext : s.findEligible with
  | none => exact hstay fun _ _ => hnext
  | some next =>
    cases humi : s.inactiveUmiMap next with
    | none =>
      simp only [humi]
      exact hE _ rfl
    | some umi =>
      simp only [humi]
      have htake : (s.takeInactive next).status = s.status := rfl
      rw [htake]
      rcases hstatus with hidle | hempty
      · rw [if_pos hidle, outcome_bind]
        refine slotSwapInstance_outcome hE hidle fun old hold => ?_
        exact hswap next umi old hidle hold (hinactive old hold) hnext humi
      · rw [if_neg (by simp [hempty]), if_pos hempty,
          slotLoadInstance_of_empty (htake.trans hempty), outcome_bind]
        exact hload next umi hempty hnext humi

/-- The rule of `ProcessOutgoing`: a TCP packet goes out in the name of the proxy's instance. -/
theorem processOutgoing_outcome {writer : UmiId} {pkt : OutPacket}
    (hE : ∀ e, e.isOther = true → E e) (hstay : Q s)
    (hsend : pkt.isExternalTcp = true → Q { s with sent := (writer, s.proxyUmi) :: s.sent })
    (hsendPayload : ∀ x y, pkt.isExternalTcp = true → y.SameWait (s.umis x) → y.active = false →
      Q ({ s with sent := (writer, s.proxyUmi) :: s.sent }.setUmi x y)) :
    Outcome (s.processOutgoing writer pkt) Q E := by
  unfold processOutgoing
  split_ifs with hexternal hpayload
  · simp only
    split
    · exact hE _ rfl
    · exact hsendPayload _ _ hexternal (UmInstance.sameWait_setInactive _) rfl
  · exact hsend hexternal
  · exact hstay

/-- The rule of the hypercall `netread`: only what the instance has to read changes. -/
theorem netread_outcome {len : ℕ} (hE : ∀ e, e.isOther = true → E e)
    (hread : ∀ x y, y.SameWait (s.umis x) → Q (s.setUmi x y)) :
    Outcome (s.netread len) Q E := by
  unfold netread
  cases hactive : s.activeUmi with
  | none => exact hE _ rfl
  | some id => exact hread id _ (UmInstance.sameWait_readPacket _ len)

end Rules

end Core

end Umm
