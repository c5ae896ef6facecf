import Umm.Manager.Control

/-!
# The frames that the gateway saves and restores

`Start` and `Run` enter the loaded instance through the gateway, which saves their exception frame
in the instance; when the instance halts, the gateway restores the frame, and the interrupted call
continues and returns what is in the slot.  `FrameInvariant` says that the saved frame is that of
the last call that entered the instance, and that an instance that can run, resume or be swapped in
without an activation has been entered.
-/

namespace Umm

open Foundations

/-- The calls that enter an instance: `Start` and `Run` of it. -/
def Call.IsOf (call : Call) (id : UmiId) : Prop :=
  call = .start id ∨ call = .run id

namespace Core

/-- The call that entered the instance `id` last. -/
def lastEntry (s : Core) (id : UmiId) : Option Call :=
  (s.entered.find? fun e => e.2 == id).map Prod.fst

/-- The instance `id` has a saved frame. -/
def Entered (s : Core) (id : UmiId) : Prop :=
  (s.umis id).callerRestoreFrame ≠ none

/-- The context is saved in an instance, or its activation is pending. -/
def HoldsContext (s : Core) (ctx : EventContext) : Prop :=
  (∃ id, (s.umis id).context = some ctx) ∨ .activateContext ctx ∈ s.events

/-- The instance `id` waits to be entered: its activation is promised, or it is loaded. -/
def fresh (s : Core) (id : UmiId) : Bool :=
  s.activationPromiseMap id || (s.status == .loaded && s.activeUmi == some id)

/-- The invariant of the saved frames; `P` holds of the entries. -/
structure FrameInvariant (P : Call × UmiId → Prop) (s : Core) : Prop where
  /-- The saved frame is that of the last entry. -/
  saved : ∀ id, (s.umis id).callerRestoreFrame = s.lastEntry id
  /-- The entries satisfy `P`. -/
  entries : ∀ e ∈ s.entered, P e
  /-- An instance is entered at most once each time it is submitted. -/
  entered_le : ∀ id, (s.entered.map Prod.snd).count id + (s.fresh id).toNat ≤ s.submitted.count id
  /-- The guest in control has been entered. -/
  guests : ∀ g ∈ s.guests, s.Entered g.id
  /-- The guests of the contexts have been entered. -/
  contexts : ∀ ctx, s.HoldsContext ctx → s.Entered ctx.guest
  /-- The instance in the idle slot has been entered. -/
  idle : ∀ id, s.status = .idle → s.activeUmi = some id → s.Entered id
  /-- A queued instance that waits for no activation has been entered. -/
  queued : ∀ id ∈ s.idleUmiQueue, s.activationPromiseMap id = false → s.Entered id

/-- Since the log of the returns was `back`, at most one instance was handed back: to the call whose
frame it had saved, leaving the slot empty. -/
def Returned (back : List (Call × UmiId)) (s : Core) : Prop :=
  s.handedBack = back ∨ ∃ id call, s.handedBack = (call, id) :: back ∧
    (s.umis id).callerRestoreFrame = some call ∧ s.status = .empty ∧ s.activeUmi = none

/-- What a step does to the frames of the state. -/
def FramesKept (P : Call × UmiId → Prop) (back : List (Call × UmiId)) (s : Core) : Prop :=
  FrameInvariant P s ∧ s.Returned back

/-- The invariant holds after boot. -/
theorem frameInvariant_init {P : Call × UmiId → Prop} : FrameInvariant P init where
  saved := fun _ => rfl
  entries := fun _ h => absurd h List.not_mem_nil
  entered_le := fun _ => Nat.le_refl _
  guests := fun _ h => absurd h List.not_mem_nil
  contexts := fun _ h => by
    rcases h with ⟨_, h⟩ | h
    · cases h
    · exact absurd h List.not_mem_nil
  idle := fun _ h => by cases h
  queued := fun _ h => absurd h List.not_mem_nil

section Transformers

variable {P : Call × UmiId → Prop} {s t : Core} {id : UmiId}

/-- The last entry is in the log. -/
theorem lastEntry_eq_some {call : Call} (h : s.lastEntry id = some call) :
    (call, id) ∈ s.entered := by
  obtain ⟨e, he, rfl⟩ := Option.map_eq_some_iff.mp h
  have hid : e.2 = id := by simpa using List.find?_some he
  exact hid ▸ List.mem_of_find?_eq_some he

/-- An instance that waits to be entered in both states, or in neither, has as much room. -/
theorem fresh_le (hfresh : ∀ id, t.fresh id = true → s.fresh id = true)
    (hsubmitted : t.submitted = s.submitted) (id : UmiId) :
    (t.fresh id).toNat + s.submitted.count id ≤ (s.fresh id).toNat + t.submitted.count id := by
  rw [hsubmitted]
  refine Nat.add_le_add_right ?_ _
  cases ht : t.fresh id with
  | false => exact Nat.zero_le _
  | true => simp [hfresh id ht]

/-- Outside the status `loaded` only the promised instances wait to be entered. -/
theorem fresh_le_of_ne (hstatus : t.status ≠ .loaded)
    (hpromise : t.activationPromiseMap = s.activationPromiseMap)
    (hsubmitted : t.submitted = s.submitted) (id : UmiId) :
    (t.fresh id).toNat + s.submitted.count id ≤ (s.fresh id).toNat + t.submitted.count id := by
  refine fresh_le (fun id hid => ?_) hsubmitted id
  simp only [fresh, Bool.or_eq_true, Bool.and_eq_true, beq_iff_eq] at hid ⊢
  exact Or.inl (hpromise ▸ hid.resolve_right fun h => hstatus h.1)

/-- The frames and the log of the entries are kept. -/
theorem FrameInvariant.frame (h : FrameInvariant P s)
    (hframe : ∀ id, (t.umis id).callerRestoreFrame = (s.umis id).callerRestoreFrame)
    (hentered : t.entered = s.entered)
    (hfresh : ∀ id, (t.fresh id).toNat + s.submitted.count id ≤
      (s.fresh id).toNat + t.submitted.count id)
    (hguests : ∀ g ∈ t.guests, s.Entered g.id)
    (hcontexts : ∀ ctx, t.HoldsContext ctx → s.Entered ctx.guest)
    (hidle : ∀ id, t.status = .idle → t.activeUmi = some id → s.Entered id)
    (hqueued : ∀ id ∈ t.idleUmiQueue, t.activationPromiseMap id = false → s.Entered id) :
    FrameInvariant P t := by
  have hmono : ∀ id, s.Entered id → t.Entered id := fun id hid => by rwa [Entered, hframe]
  exact {
    saved := fun id => by rw [hframe, h.saved, lastEntry, lastEntry, hentered]
    entries := hentered ▸ h.entries
    entered_le := fun id => by
      have hle := h.entered_le id
      have hroom := hfresh id
      rw [hentered]
      omega
    guests := fun g hg => hmono _ (hguests g hg)
    contexts := fun ctx hctx => hmono _ (hcontexts ctx hctx)
    idle := fun id hstatus hactive => hmono id (hidle id hstatus hactive)
    queued := fun id hid hp => hmono id (hqueued id hid hp) }

/-- The slot and the queue are kept, too. -/
theorem FrameInvariant.of_eq (h : FrameInvariant P s)
    (hframe : ∀ id, (t.umis id).callerRestoreFrame = (s.umis id).callerRestoreFrame)
    (hentered : t.entered = s.entered) (hsubmitted : t.submitted = s.submitted)
    (hpromise : t.activationPromiseMap = s.activationPromiseMap) (hstatus : t.status = s.status)
    (hactive : t.activeUmi = s.activeUmi) (hqueue : ∀ id ∈ t.idleUmiQueue, id ∈ s.idleUmiQueue)
    (hguests : ∀ g ∈ t.guests, s.Entered g.id)
    (hcontexts : ∀ ctx, t.HoldsContext ctx → s.Entered ctx.guest) : FrameInvariant P t := by
  refine h.frame hframe hentered (fresh_le (fun id hid => ?_) hsubmitted) hguests hcontexts
    (fun id hs ha => ?_) fun id hid hp => ?_
  · rwa [fresh, hpromise, hstatus, hactive] at hid
  · exact h.idle id (hstatus ▸ hs) (hactive ▸ ha)
  · exact h.queued id (hqueue id hid) (hpromise ▸ hp)

/-- The saved frames stay, if that of the instance which is set does. -/
theorem frame_setUmi {x : UmInstance} (hx : x.callerRestoreFrame = (s.umis id).callerRestoreFrame)
    (id' : UmiId) : ((s.setUmi id x).umis id').callerRestoreFrame =
      (s.umis id').callerRestoreFrame := by
  by_cases h : id' = id
  · subst h
    simpa [setUmi] using hx
  · simp [setUmi, h]

/-- What has been entered has been entered. -/
theorem Entered.setUmi {id' : UmiId} (h : s.Entered id') {x : UmInstance}
    (hx : x.callerRestoreFrame = (s.umis id).callerRestoreFrame) : (s.setUmi id x).Entered id' :=
  fun hnone => h ((frame_setUmi hx id').symm.trans hnone)

/-- Replacing the state of an instance by one with the same frame; its context may be dropped. -/
theorem FrameInvariant.setUmi (h : FrameInvariant P s) {x : UmInstance}
    (hx : x.callerRestoreFrame = (s.umis id).callerRestoreFrame)
    (hcontext : ∀ ctx, x.context = some ctx → s.Entered ctx.guest) :
    FrameInvariant P (s.setUmi id x) := by
  refine h.of_eq (frame_setUmi hx) rfl rfl rfl rfl rfl (fun _ h => h) h.guests fun ctx hctx => ?_
  rcases hctx with ⟨id', hctx⟩ | hctx
  · by_cases hid : id' = id
    · subst hid
      exact hcontext ctx (by simpa [Core.setUmi] using hctx)
    · exact h.contexts ctx (Or.inl ⟨id', by simpa [Core.setUmi, hid] using hctx⟩)
  · exact h.contexts ctx (Or.inr hctx)

/-- An instance may be set to one with the same context and frame. -/
theorem FrameInvariant.setSame (h : FrameInvariant P s) {x : UmInstance}
    (hx : x.SameContext (s.umis id)) : FrameInvariant P (s.setUmi id x) :=
  h.setUmi hx.frame fun _ hctx => h.contexts _ (Or.inl ⟨id, hx.context.symm.trans hctx⟩)

/-- Spawning an event; a context it activates is one of a guest that was entered. -/
theorem FrameInvariant.spawnLocal (h : FrameInvariant P s) {e : Event}
    (he : ∀ ctx, e = .activateContext ctx → s.Entered ctx.guest) :
    FrameInvariant P (s.spawnLocal e) := by
  refine h.of_eq (fun _ => rfl) rfl rfl rfl rfl rfl (fun _ h => h) h.guests fun ctx hctx => ?_
  rcases hctx with hctx | hctx
  · exact h.contexts ctx (Or.inl hctx)
  · rcases List.mem_append.mp hctx with hctx | hctx
    · exact h.contexts ctx (Or.inr hctx)
    · exact he ctx (List.mem_singleton.mp hctx).symm

/-- Waking an instance makes its saved context pending. -/
theorem FrameInvariant.wake (h : FrameInvariant P s) {ctx : EventContext}
    (hctx : (s.umis id).context = some ctx) : FrameInvariant P (s.wake id ctx) := by
  have hguest : s.Entered ctx.guest := h.contexts ctx (Or.inl ⟨id, hctx⟩)
  have hlogged : FrameInvariant P { s with activated := ctx :: s.activated } :=
    h.of_eq (fun _ => rfl) rfl rfl rfl rfl rfl (fun _ h => h) h.guests h.contexts
  have hframe : { s.umis id with blocked := false }.disableTimer.callerRestoreFrame =
      (s.umis id).callerRestoreFrame := rfl
  have hset := hlogged.setUmi hframe fun ctx' hctx' => h.contexts ctx' (Or.inl ⟨id, hctx'⟩)
  refine hset.spawnLocal fun ctx' hctx' => ?_
  obtain rfl := Event.activateContext.inj hctx'
  exact hguest.setUmi hframe

/-- A guest that was entered saves its context. -/
theorem FrameInvariant.blockExecution (h : FrameInvariant P s) {guest : UmiId}
    (hguest : s.Entered guest) : FrameInvariant P (s.blockExecution guest id) := by
  have hset : FrameInvariant P (s.setUmi id
      { s.umis id with context := some ⟨guest, id, s.contexts⟩, blocked := true }) :=
    h.setUmi rfl fun ctx hctx => Option.some.inj hctx ▸ hguest
  exact hset.of_eq (fun _ => rfl) rfl rfl rfl rfl rfl (fun _ h => h)
    (fun _ h => absurd h List.not_mem_nil) hset.contexts

/-- `Block` returns to a guest that was entered. -/
theorem FrameInvariant.resume (h : FrameInvariant P s) {guest : UmiId}
    (hguest : s.Entered guest) : FrameInvariant P (s.resume guest) := by
  exact h.frame (fun _ => rfl) rfl (fresh_le_of_ne (fun h => by cases h) rfl rfl)
    (fun g hg => List.mem_singleton.mp hg ▸ hguest) h.contexts (fun _ hs => by cases hs) h.queued

/-- Entering a fresh instance by `call`. -/
theorem FrameInvariant.enter (h : FrameInvariant P s) {call : Call} (hP : P (call, id))
    (hfresh : s.fresh id = true) (hpromise : s.activationPromiseMap id = false) :
    FrameInvariant P (s.enter id (some call)) := by
  generalize ht : s.enter id (some call) = t
  have hself : (t.umis id).callerRestoreFrame = some call := by
    simp [← ht, Core.enter, Core.setUmi]
  have hother : ∀ id', id' ≠ id →
      (t.umis id').callerRestoreFrame = (s.umis id').callerRestoreFrame := by
    intro id' hid'
    simp [← ht, Core.enter, Core.setUmi, hid']
  have hentered : t.entered = (call, id) :: s.entered := by rw [← ht]; rfl
  have hsubmitted : t.submitted = s.submitted := by rw [← ht]; rfl
  have hmono : ∀ id', s.Entered id' → t.Entered id' := by
    intro id' hid'
    by_cases heq : id' = id
    · rw [Entered, heq, hself]
      exact fun h => by cases h
    · rwa [Entered, hother id' heq]
  refine {
    saved := fun id' => ?_
    entries := fun e he => ?_
    entered_le := fun id' => ?_
    guests := fun g hg => ?_
    contexts := fun ctx hctx => hmono _ (h.contexts ctx ?_)
    idle := fun id' hs => by rw [← ht] at hs; cases hs
    queued := fun id' hid' hp => hmono _ (h.queued id' ?_ ?_) }
  · by_cases heq : id' = id
    · rw [heq, hself, lastEntry, hentered, List.find?_cons_of_pos (by simp)]
      rfl
    · rw [hother id' heq, h.saved, lastEntry, lastEntry, hentered,
        List.find?_cons_of_neg (by simpa using Ne.symm heq)]
  · rw [hentered] at he
    rcases List.mem_cons.mp he with rfl | he
    · exact hP
    · exact h.entries e he
  · have hle := h.entered_le id'
    have hnot : t.fresh id' = s.activationPromiseMap id' := by
      rw [← ht]
      exact Bool.or_false _
    rw [hentered, hsubmitted, List.map_cons, List.count_cons, hnot]
    by_cases heq : id' = id
    · subst heq
      rw [hfresh] at hle
      simp only [hpromise, beq_self_eq_true, if_true, Bool.toNat_false, Bool.toNat_true] at hle ⊢
      omega
    · have hbound : (s.activationPromiseMap id').toNat ≤ (s.fresh id').toNat := by
        cases hp : s.activationPromiseMap id' with
        | false => exact Nat.zero_le _
        | true => simp [fresh, hp]
      rw [if_neg (by simpa using Ne.symm heq)]
      omega
  · rw [← ht] at hg
    rw [List.mem_singleton.mp hg, Entered, hself]
    exact fun h => by cases h
  · rw [← ht] at hctx
    refine hctx.imp_left (Exists.imp fun id' hctx => ?_)
    exact (context_enter (some call) id').symm.trans hctx
  · rwa [← ht] at hid'
  · rwa [← ht] at hp

end Transformers

/-! ## Steps -/

section Steps

variable {P : Call × UmiId → Prop} {s : Core} {id : UmiId}

/-- Nothing was handed back. -/
theorem FrameInvariant.kept (h : FrameInvariant P s) : FramesKept P s.handedBack s :=
  ⟨h, Or.inl rfl⟩

/-- `Kick` keeps the invariant. -/
theorem FrameInvariant.kick_outcome (h : FrameInvariant P s) (id : UmiId) :
    Outcome (s.kick id) (FramesKept P s.handedBack) fun _ => True :=
  Core.kick_outcome (fun _ _ => trivial) h.kept fun _ _ hctx => (h.wake hctx).kept

/-- The gateway hands the instance back to the call whose frame it saved. -/
theorem FrameInvariant.release (h : FrameInvariant P s) {call : Call}
    (hframe : (s.umis id).callerRestoreFrame = some call) :
    FramesKept P s.handedBack (s.release id call) := by
  refine ⟨?_, Or.inr ⟨id, call, rfl, hframe, rfl, rfl⟩⟩
  refine h.frame (fun _ => rfl) rfl (fresh_le_of_ne (fun h => by cases h) rfl rfl)
    (fun _ h => absurd h List.not_mem_nil) (fun ctx hctx => h.contexts ctx ?_)
    (fun _ hs => by cases hs) h.queued
  refine hctx.imp_right fun hctx => ?_
  exact (mem_events_spawnYieldAfter hctx).resolve_right fun h => by cases h

/-- An instance may be set halting. -/
theorem FrameInvariant.setHalting (h : FrameInvariant P s) (id : UmiId) :
    FrameInvariant P (s.setHalting id) := by
  have hset := h.setSame (UmInstance.sameWait_setActive (s.umis id)).toSameContext
  exact hset.frame (fun _ => rfl) rfl (fresh_le_of_ne (fun h => by cases h) rfl rfl) hset.guests
    hset.contexts (fun _ hs => by cases hs) hset.queued

/-- `Halt` keeps the invariant, and hands the instance back. -/
theorem FrameInvariant.halt_outcome (h : FrameInvariant P s) :
    Outcome s.halt (FramesKept P s.handedBack) fun _ => True := by
  refine Core.halt_outcome (fun _ _ => trivial) (fun _ => trivial) (fun _ => trivial) ?_ ?_
  · intro id _ _ _ _
    exact ((h.setHalting id).spawnLocal fun _ he => by cases he).kept
  · intro id call _ _ _ _ hframe
    have hremoved : FrameInvariant P ((s.setHalting id).removeInstanceState id) :=
      (h.setHalting id).of_eq (fun _ => rfl) rfl rfl rfl rfl rfl (fun _ h => h)
        (h.setHalting id).guests (h.setHalting id).contexts
    refine hremoved.release ?_
    exact (frame_setUmi (UmInstance.sameWait_setActive (s.umis id)).frame id).trans hframe

/-- The end of a yield: the loaded instance is either activated, or it has been entered before. -/
theorem FrameInvariant.yieldTo_outcome {next umi : UmiId} (hloaded : s.status = .loaded)
    (hactive : s.activeUmi = some umi)
    (hpromised : s.activationPromiseMap next = true → FrameInvariant P { s with
      activationPromiseMap := Function.update s.activationPromiseMap next false })
    (hidle : s.activationPromiseMap next = false → FrameInvariant P { s with status := .idle }) :
    Outcome (s.yieldTo next) (FramesKept P s.handedBack) fun _ => True := by
  refine Core.yieldTo_outcome hloaded hactive (fun hp => (hpromised hp).kept) (fun hp _ => ?_)
    fun hp => (hidle hp).kick_outcome umi
  have hmarked : FrameInvariant P { s with
      status := .idle
      inactiveUmiHaltMap := Function.update s.inactiveUmiHaltMap next false } :=
    (hidle hp).of_eq (fun _ => rfl) rfl rfl rfl rfl rfl (fun _ h => h) (hidle hp).guests
      (hidle hp).contexts
  exact hmarked.halt_outcome

/-- Loading a queued instance into the slot: it waits for its activation, or has been entered. -/
theorem FrameInvariant.yieldTo_loaded {next : UmiId} {t : Core} (h : FrameInvariant P s)
    (hnext : next ∈ s.idleUmiQueue) (hloaded : t.status = .loaded)
    (hactive : t.activeUmi = some next) (humis : t.umis = s.umis) (hentered : t.entered = s.entered)
    (hsubmitted : t.submitted = s.submitted) (hback : t.handedBack = s.handedBack)
    (hpromise : t.activationPromiseMap = s.activationPromiseMap) (hguests : t.guests = s.guests)
    (hevents : t.events = s.events)
    (hqueue : ∀ id ∈ t.idleUmiQueue, id ∈ s.idleUmiQueue ∧ id ≠ next ∨ s.Entered id) :
    Outcome (t.yieldTo next) (FramesKept P s.handedBack) fun _ => True := by
  have hcontexts : ∀ ctx, t.HoldsContext ctx → s.Entered ctx.guest := by
    intro ctx hctx
    rw [HoldsContext, humis, hevents] at hctx
    exact h.contexts ctx hctx
  have hqueued : ∀ id ∈ t.idleUmiQueue, (id ≠ next → s.activationPromiseMap id = false) →
      s.Entered id := by
    intro id hid hp
    rcases hqueue id hid with ⟨hmem, hne⟩ | hin
    · exact h.queued id hmem (hp hne)
    · exact hin
  rw [← hback]
  refine FrameInvariant.yieldTo_outcome hloaded hactive (fun hp => ?_) fun hp => ?_
  · refine h.frame (fun _ => humis ▸ rfl) hentered (fresh_le (fun id hid => ?_) hsubmitted)
      (hguests ▸ h.guests) hcontexts (fun id hs => by rw [hloaded] at hs; cases hs)
      fun id hid hpid => hqueued id hid fun hne => ?_
    · simp only [fresh, Bool.or_eq_true, Bool.and_eq_true, beq_iff_eq] at hid ⊢
      rcases hid with hid | ⟨-, hid⟩
      · by_cases heq : id = next
        · exact Or.inl (by rw [heq, ← hpromise]; exact hp)
        · rw [Function.update_of_ne heq, hpromise] at hid
          exact Or.inl hid
      · obtain rfl : next = id := Option.some.inj (hactive.symm.trans hid)
        exact Or.inl (hpromise ▸ hp)
    · exact hpromise ▸ (Function.update_of_ne hne ..).symm.trans hpid
  · refine h.frame (fun _ => humis ▸ rfl) hentered
      (fresh_le_of_ne (fun h => by cases h) hpromise hsubmitted) (hguests ▸ h.guests) hcontexts
      (fun id _ ha => ?_) fun id hid hpid => hqueued id hid fun _ => hpromise ▸ hpid
    obtain rfl : next = id := Option.some.inj (hactive.symm.trans ha)
    exact h.queued _ hnext (hpromise ▸ hp)

/-- `Yield` keeps the invariant. -/
theorem FrameInvariant.yield_outcome (h : FrameInvariant P s) (hslot : SlotInvariant [] s) :
    Outcome s.yield (FramesKept P s.handedBack) fun _ => True := by
  have hqueue : ∀ next, ∀ id ∈ s.idleUmiQueue.erase next, id ∈ s.idleUmiQueue ∧ id ≠ next :=
    fun next id hid => ((hslot.queue_nodup.mem_erase_iff).mp hid).symm
  refine Core.yield_outcome (fun _ _ => trivial) (fun _ => h.kept) ?_ ?_ ?_
  · intro old hstatus hold _ _
    have hidle : s.Entered old :=
      h.idle old (hstatus.resolve_right (hslot.status_ne_empty hold)) hold
    change FramesKept P (s.vacate old).handedBack (s.vacate old)
    apply FrameInvariant.kept
    refine h.frame (fun _ => rfl) rfl (fresh_le_of_ne (fun h => by cases h) rfl rfl) h.guests
      h.contexts (fun _ hs => by cases hs) fun id hid hp => ?_
    rcases List.mem_append.mp hid with hid | hid
    · exact h.queued id hid hp
    · exact List.mem_singleton.mp hid ▸ hidle
  · intro next umi old hidle hold _ hnext humi
    obtain rfl := hslot.inactive_eq next umi humi
    refine h.yieldTo_loaded (hslot.mem_of_findEligible hnext).1 rfl rfl rfl rfl rfl rfl rfl rfl rfl
      fun id hid => ?_
    rcases List.mem_append.mp hid with hid | hid
    · exact Or.inl (hqueue _ id hid)
    · exact Or.inr (List.mem_singleton.mp hid ▸ h.idle old hidle hold)
  · intro next umi hempty hnext humi
    obtain rfl := hslot.inactive_eq next umi humi
    exact h.yieldTo_loaded (hslot.mem_of_findEligible hnext).1 rfl rfl rfl rfl rfl rfl rfl rfl rfl
      fun id hid => Or.inl (hqueue _ id hid)

/-- The call that raises the breakpoint exception enters the loaded instance, or the halting one is
handed back. -/
theorem FrameInvariant.processGateway_outcome (h : FrameInvariant P s) (hslot : SlotInvariant [] s)
    {call : Call} (hP : ∀ id, s.status = .loaded → s.activeUmi = some id → P (call, id)) :
    Outcome (s.processGateway (some call)) (FramesKept P s.handedBack) fun _ => True := by
  refine Core.processGateway_outcome (fun _ _ => trivial) (fun id hloaded hactive => ?_)
    fun id call _ _ hframe => h.release hframe
  have hpromise : s.activationPromiseMap id = false := by
    by_contra hp
    have hmem := (hslot.promise_mem id (by simpa using hp)).resolve_right List.not_mem_nil
    exact hslot.active_not_mem id hactive hmem
  exact (h.enter (hP id hloaded hactive) (by simp [fresh, hloaded, hactive]) hpromise).kept

/-- An instance the core does not hold does not wait to be entered. -/
theorem fresh_of_free (hslot : SlotInvariant [] s) (hfree : s.free id = true) :
    s.fresh id = false := by
  have hpromise := hslot.promise_of_free hfree
  simp only [free, Bool.and_eq_true, bne_iff_ne] at hfree
  simp [fresh, hpromise, hfree.1.2]

/-- Submitting an instance makes room for one entry. -/
theorem FrameInvariant.submitted (h : FrameInvariant P s) {t : Core} (hfresh : s.fresh id = false)
    (humis : t.umis = s.umis) (hentered : t.entered = s.entered) (hguests : t.guests = s.guests)
    (hevents : t.events = s.events) (hsubmitted : t.submitted = id :: s.submitted)
    (hwaits : ∀ id', t.fresh id' = true → id' = id ∨ s.fresh id' = true)
    (hidle : ∀ id, t.status = .idle → t.activeUmi = some id → s.Entered id)
    (hqueued : ∀ id ∈ t.idleUmiQueue, t.activationPromiseMap id = false → s.Entered id) :
    FrameInvariant P t := by
  refine h.frame (fun _ => humis ▸ rfl) hentered (fun id' => ?_) (hguests ▸ h.guests)
    (fun ctx hctx => ?_) hidle hqueued
  · rw [hsubmitted, List.count_cons]
    by_cases heq : id' = id
    · subst heq
      have hone : (t.fresh id').toNat ≤ 1 := Bool.toNat_le _
      simp only [hfresh, beq_self_eq_true, if_true, Bool.toNat_false]
      omega
    · have hle : (t.fresh id').toNat ≤ (s.fresh id').toNat := by
        cases ht : t.fresh id' with
        | false => exact Nat.zero_le _
        | true => simp [(hwaits id' ht).resolve_left heq]
      omega
  · rw [HoldsContext, humis, hevents] at hctx
    exact h.contexts ctx hctx

/-- A submitted instance that is loaded into the slot. -/
theorem fresh_occupy {t : Core} {id' : UmiId}
    (hpromise : t.activationPromiseMap = s.activationPromiseMap) (hactive : t.activeUmi = some id)
    (hid' : t.fresh id' = true) : id' = id ∨ s.fresh id' = true := by
  simp only [fresh, Bool.or_eq_true, Bool.and_eq_true, beq_iff_eq] at hid' ⊢
  rcases hid' with hp | ⟨-, ha⟩
  · exact Or.inr (Or.inl (hpromise ▸ hp))
  · exact Or.inl (Option.some.inj (ha.symm.trans hactive))

/-- A submitted instance in the slot. -/
theorem FrameInvariant.loaded (h : FrameInvariant P s) (hfresh : s.fresh id = false)
    (hqueued : ∀ id ∈ s.idleUmiQueue, s.activationPromiseMap id = false → s.Entered id) :
    FrameInvariant P ((s.submit id).occupy id) :=
  h.submitted hfresh rfl rfl rfl rfl rfl (fun _ => fresh_occupy rfl rfl) (fun _ h => by cases h)
    hqueued

/-- `Load` of an instance that is nowhere keeps the invariant. -/
theorem FrameInvariant.load_outcome (h : FrameInvariant P s) (hslot : SlotInvariant [] s)
    (hfree : s.free id = true) :
    Outcome ((s.submit id).load id) (FramesKept P s.handedBack) fun _ => True := by
  have hfresh := fresh_of_free hslot hfree
  refine Core.load_outcome (fun _ _ => trivial) (fun _ => ?_) (fun old hidle hold _ => ?_)
    fun _ => ?_
  · exact (h.loaded hfresh h.queued).kept
  · have hswapped : FrameInvariant P (((s.submit id).vacate old).occupy id) := by
      refine h.submitted hfresh rfl rfl rfl rfl rfl (fun _ => fresh_occupy rfl rfl)
        (fun _ h => by cases h) fun id' hid' hp => ?_
      rcases List.mem_append.mp hid' with hid' | hid'
      · exact h.queued id' hid' hp
      · exact List.mem_singleton.mp hid' ▸ h.idle old hidle hold
    exact hswapped.kept
  · have hqueued : FrameInvariant P ((s.submit id).queueInstanceActivation id) := by
      have hself : ((s.submit id).queueInstanceActivation id).activationPromiseMap id = true :=
        Function.update_self ..
      have hother : ∀ id', id' ≠ id →
          ((s.submit id).queueInstanceActivation id).activationPromiseMap id' =
            s.activationPromiseMap id' := fun id' hid' => Function.update_of_ne hid' ..
      refine h.submitted hfresh rfl rfl rfl rfl rfl (fun id' hid' => ?_) h.idle
        fun id' hid' hp => ?_
      · by_cases heq : id' = id
        · exact Or.inl heq
        · rw [fresh, hother id' heq] at hid'
          exact Or.inr hid'
      · by_cases heq : id' = id
        · rw [heq, hself] at hp
          cases hp
        · rcases List.mem_append.mp hid' with hid' | hid'
          · exact h.queued id' hid' (hother id' heq ▸ hp)
          · exact absurd (List.mem_singleton.mp hid') heq
    exact hqueued.kept

/-- `Run` enters the instance with the frame of its own call. -/
theorem FrameInvariant.run_outcome (h : FrameInvariant P s) (hslot : SlotInvariant [] s)
    (hfree : s.free id = true) (hP : P (.run id, id)) :
    Outcome ((s.submit id).run id) (FramesKept P s.handedBack) fun _ => True := by
  refine Core.run_outcome (fun _ _ => trivial) fun _ => ?_
  have hloaded := h.loaded (fresh_of_free hslot hfree) h.queued
  have hfresh : ((s.submit id).occupy id).fresh id = true := by simp [fresh, occupy]
  exact (hloaded.enter hP hfresh (hslot.promise_of_free hfree)).kept

/-- Up to the call of `Yield`, a step that yields keeps the invariant. -/
theorem FrameInvariant.of_yieldCall (h : FrameInvariant P s) {t : Core} {a : Step}
    (hcall : s.yieldCall a = some t) : FrameInvariant P t := by
  refine Core.of_yieldCall hcall h (fun i => ?_) (fun _ _ hy => h.setSame hy.toSameContext)
    (fun u id hu => ?_) fun u m hu => ?_
  · refine h.of_eq (fun _ => rfl) rfl rfl rfl rfl rfl (fun _ h => h) h.guests fun ctx hctx => ?_
    exact h.contexts ctx (hctx.imp_right List.mem_of_mem_eraseIdx)
  · exact hu.of_eq (fun _ => rfl) rfl rfl rfl rfl rfl
      (fun _ => (perm_slotQueueMoveToFront u id).mem_iff.mp) hu.guests hu.contexts
  · exact hu.of_eq (fun _ => rfl) rfl rfl rfl rfl rfl (fun _ h => h) hu.guests hu.contexts

/-- The hypercall `poll` keeps the invariant. -/
theorem FrameInvariant.poll_outcome (h : FrameInvariant P s) (hcontrol : ControlInvariant s)
    {g : Guest} {gs : List Guest} (hguests : s.guests = g :: gs) (ns now : ℕ) :
    Outcome (s.poll g.id ns now) (FramesKept P s.handedBack) fun _ => True := by
  obtain ⟨-, hactive, -⟩ := hcontrol.inControl.of_guests hguests
  have hentered : s.Entered g.id := h.guests g (hguests ▸ List.mem_cons_self)
  have hidle : FrameInvariant P { s with status := .idle } :=
    h.frame (fun _ => rfl) rfl (fresh_le_of_ne (fun h => by cases h) rfl rfl) h.guests h.contexts
      (fun id _ ha => Option.some.inj (hactive.symm.trans ha) ▸ hentered) h.queued
  refine Core.poll_outcome (fun _ _ => trivial) h.kept fun _ _ _ => ?_
  refine Core.block_outcome (fun _ _ => trivial) (fun _ _ => trivial) (fun _ _ _ => trivial)
    (fun _ => (hidle.resume hentered).kept) fun id x _ _ hx _ => ?_
  have hset : FrameInvariant P ({ s with status := .idle }.setUmi id x) := hidle.setSame hx
  exact (hset.blockExecution (Entered.setUmi (s := { s with status := .idle }) hentered hx.frame)).kept

/-- The activation of a context keeps the invariant, if its guest has been entered. -/
theorem FrameInvariant.activateContext_outcome (h : FrameInvariant P s) {ctx : EventContext}
    (hguest : s.Entered ctx.guest) :
    Outcome (s.activateContext ctx) (FramesKept P s.handedBack) fun _ => True := by
  have hdropped : FrameInvariant P (s.setUmi ctx.umi { s.umis ctx.umi with context := none }) :=
    h.setUmi rfl fun _ h => by cases h
  have hentered : (s.setUmi ctx.umi { s.umis ctx.umi with context := none }).Entered ctx.guest :=
    hguest.setUmi rfl
  refine Core.activateContext_outcome (fun _ => ?_) (hdropped.blockExecution hentered).kept
  exact returnFromBlock_outcome (fun _ _ => trivial) (fun _ => trivial)
    fun _ => (hdropped.resume hentered).kept

/-- An event that does not yield keeps the invariant. -/
theorem FrameInvariant.dispatch_outcome (h : FrameInvariant P s) {i : ℕ}
    (hcall : s.yieldCall (.dispatch i) = none) :
    Outcome (s.dispatch i) (FramesKept P s.handedBack) fun _ => True := by
  have hrest : FrameInvariant P { s with events := s.events.eraseIdx i } :=
    h.of_eq (fun _ => rfl) rfl rfl rfl rfl rfl (fun _ h => h) h.guests
      fun ctx hctx => h.contexts ctx (hctx.imp_right List.mem_of_mem_eraseIdx)
  unfold dispatch
  cases he : s.events[i]? with
  | none => exact h.kept
  | some e =>
    cases e with
    | yield => simp [yieldCall, he] at hcall
    | halt => exact hrest.halt_outcome
    | processOutgoing writer pkt =>
      have hsent : FrameInvariant P { s with
          events := s.events.eraseIdx i
          sent := (writer, s.proxyUmi) :: s.sent } :=
        hrest.of_eq (fun _ => rfl) rfl rfl rfl rfl rfl (fun _ h => h) hrest.guests hrest.contexts
      exact Core.processOutgoing_outcome (fun _ _ => trivial) hrest.kept (fun _ => hsent.kept)
        fun x y _ hy _ => (hsent.setSame hy.toSameContext).kept
    | activateContext ctx =>
      exact hrest.activateContext_outcome (h.contexts ctx (Or.inr (List.mem_of_getElem? he)))
    | other => exact hrest.kept

/-- `hrun` and `hstart` say what is known of an entry. -/
theorem FrameInvariant.exec_outcome (h : FrameInvariant P s) (hslot : SlotInvariant [] s)
    (hcontrol : ControlInvariant s) {a : Step} (henabled : s.enabled a = true)
    (hrun : ∀ id, a = .run id → P (.run id, id))
    (hstart : ∀ id x, a = .start id → s.status = .loaded → s.activeUmi = some x →
      P (.start id, x)) :
    Outcome (s.exec a) (FramesKept P s.handedBack) fun _ => True := by
  cases hcall : s.yieldCall a with
  | some t =>
    rw [exec_of_yieldCall hcall]
    have hback : t.handedBack = s.handedBack :=
      Core.of_yieldCall hcall (P := fun u => u.handedBack = s.handedBack) rfl (fun _ => rfl)
        (fun _ _ _ => rfl) (fun _ _ hu => hu) fun _ _ hu => hu
    rw [← hback]
    exact (h.of_yieldCall hcall).yield_outcome (hslot.of_yieldCall hcall)
  | none =>
    cases a with
    | load id => exact h.load_outcome hslot (guests_of_enabled henabled rfl).2
    | run id => exact h.run_outcome hslot (guests_of_enabled henabled rfl).2 (hrun id rfl)
    | start id => exact h.processGateway_outcome hslot fun x => hstart id x rfl
    | signalHalt id => exact signalHalt_outcome (fun _ _ => trivial) hcall fun _ => h.halt_outcome
    | signalYield id => exact signalYield_outcome h.kept ((h.spawnLocal fun _ h => by cases h).kept)
    | signalResume id =>
      exact signalResume_outcome (fun _ _ => trivial) hcall fun _ => h.kick_outcome id
    | yield => cases hcall
    | spawnHalt => exact (h.spawnLocal fun _ h => by cases h).kept
    | spawnOther => exact (h.spawnLocal fun _ h => by cases h).kept
    | processIncoming id payload =>
      exact processIncoming_outcome (fun _ _ => trivial) hcall h.kept
        fun x y _ hy => (h.setSame hy.toSameContext).kick_outcome x
    | enqueuePacket id buf =>
      have hset : FrameInvariant P (s.enqueuePacket id buf) := h.setSame ⟨rfl, rfl, rfl⟩
      exact hset.kept
    | dispatch i => exact h.dispatch_outcome hcall
    | fire id now =>
      exact Core.fire_outcome (fun x hx _ _ => (h.setSame hx).kept)
        fun x hx _ _ _ => (h.setSame hx).kick_outcome id
    | poll ns now =>
      obtain ⟨g, gs, hguests⟩ := guests_of_enabled_hypercall henabled rfl
      change Outcome (s.poll s.guest ns now) _ _
      rw [guest, hguests]
      exact h.poll_outcome hcontrol hguests ns now
    | netwrite pkt => exact (h.spawnLocal fun _ h => by cases h).kept
    | netread len =>
      exact Core.netread_outcome (fun _ _ => trivial)
        fun x y hy => (h.setSame hy.toSameContext).kept
    | halt => exact h.halt_outcome

end Steps

/-- The invariant holds in every state a run reaches. -/
theorem FrameInvariant.of_run {as : List Step} {t : Core}
    (hrun : Foundations.run Core.step init as = some t) : FrameInvariant (fun _ => True) t := by
  have hall : SlotInvariant [] t ∧ ControlInvariant t ∧ FrameInvariant (fun _ => True) t := by
    refine run_invariant'
      (I := fun s => SlotInvariant [] s ∧ ControlInvariant s ∧ FrameInvariant (fun _ => True) s)
      (fun s a s' hs hs' => ?_)
      ⟨slotInvariant_init, controlInvariant_init, frameInvariant_init⟩ hrun
    obtain ⟨henabled, hexec⟩ := step_eq_some.mp hs'
    have hkept := hs.2.2.exec_outcome hs.1 hs.2.1 henabled (fun _ _ => trivial)
      fun _ _ _ _ _ => trivial
    exact ⟨hs.1.step hs', hs.2.1.step hs.1 hs', (hkept.of_eq_ok hexec).1⟩
  exact hall.2.2

/-! ## Each call gets its own instance back -/

/-- `Start` is of the loaded instance, as it asserts. -/
def startsLoaded (s : Core) : Step → Bool
  | .start id => s.status == .loaded && s.activeUmi == some id
  | _ => true

/-- An instance that the step hands back goes to the call that entered it last, which is a `Start`
or `Run` of it, and the slot is left empty. -/
def ReturnsOwn (s : Core) (a : Step) : Prop :=
  ∀ t, s.step a = some t → t.handedBack ≠ s.handedBack →
    ∃ id call, t.handedBack = (call, id) :: s.handedBack ∧ t.lastEntry id = some call ∧
      call.IsOf id ∧ t.status = .empty ∧ t.activeUmi = none

section Halt

variable {s : Core} {id : UmiId}

/-- The instance in the slot is set halting; while events are pending, `Halt` is deferred. -/
theorem halt_of_active (hactive : s.activeUmi = some id) (hempty : s.status ≠ .empty)
    (hfinished : s.status ≠ .finished) :
    s.halt = if s.events.length ≠ 0 then .ok ((s.setHalting id).spawnLocal .halt)
      else ((s.setHalting id).removeInstanceState id).processGateway none := by
  have hset : (s.setUmi id (s.umis id).setActive).setStatus .halting = .ok (s.setHalting id) :=
    setStatus_of_allows (by simp [setUmi, Status.allows, hempty, hfinished])
  unfold halt
  rw [if_neg hempty, hactive]
  simp only [hset]
  rfl

/-- The gateway takes a halting instance out of the slot. -/
theorem processGateway_of_halting {call : Call} (hstatus : s.status = .halting)
    (hactive : s.activeUmi = some id) (hframe : (s.umis id).callerRestoreFrame = some call) :
    s.processGateway none = .ok (s.release id call) := by
  have hset : s.setStatus .finished = .ok { s with status := .finished } :=
    setStatus_of_allows (by simp [Status.allows, hstatus])
  have hresume : { s with status := .finished, guests := [] }.resumeCall call =
      .ok (s.release id call) := resumeCall_of_finished hactive
  unfold processGateway
  rw [hstatus, hactive]
  simp only [hframe, hset]
  exact hresume

/-- A `Halt` of an entered instance that is not deferred reaches the gateway, which hands the
instance back. -/
theorem halt_of_entered {call : Call} (hactive : s.activeUmi = some id) (hempty : s.status ≠ .empty)
    (hfinished : s.status ≠ .finished) (hevents : s.events = [])
    (hframe : (s.umis id).callerRestoreFrame = some call) :
    s.halt = .ok (((s.setHalting id).removeInstanceState id).release id call) := by
  rw [halt_of_active hactive hempty hfinished, if_neg (by simp [hevents])]
  refine processGateway_of_halting rfl hactive ?_
  exact (frame_setUmi (UmInstance.sameWait_setActive (s.umis id)).frame id).trans hframe

end Halt

/-- In a run whose `Start`s are of the loaded instance, every instance that is handed back goes to
the `Start` or `Run` of it whose frame was saved when the instance was entered, and leaves the slot
empty; a `Halt` of an entered instance that reaches the gateway hands it back; and an instance is
neither entered nor handed back more often than it was submitted. -/
theorem returned_to_own_call {as : List Step}
    (hstarts : AllSteps Core.step (fun s a => s.startsLoaded a = true) init as) :
    AllSteps Core.step ReturnsOwn init as ∧
    ∀ t, Foundations.run Core.step init as = some t →
      (∀ id call, t.activeUmi = some id → t.events = [] → t.lastEntry id = some call →
        call.IsOf id ∧ ∃ u, t.halt = .ok u ∧ u.handedBack = (call, id) :: t.handedBack) ∧
      ∀ id, (t.entered.map Prod.snd).count id ≤ t.submitted.count id ∧
        (t.handedBack.map Prod.snd).count id ≤ t.submitted.count id := by
  let I := fun s : Core => SlotInvariant [] s ∧ ControlInvariant s ∧
    FrameInvariant (fun e => e.1.IsOf e.2) s
  have hinit : I init := ⟨slotInvariant_init, controlInvariant_init, frameInvariant_init⟩
  have hkept : ∀ s a t, s.startsLoaded a = true → I s → s.step a = some t →
      FramesKept (fun e => e.1.IsOf e.2) s.handedBack t := by
    intro s a t hstart hs hstep
    obtain ⟨henabled, hexec⟩ := step_eq_some.mp hstep
    refine (hs.2.2.exec_outcome hs.1 hs.2.1 henabled (fun id _ => Or.inr rfl)
      fun id x ha _ hx => ?_).of_eq_ok hexec
    rw [ha, startsLoaded, hx] at hstart
    have hid : some x = some id := beq_iff_eq.mp (Bool.and_eq_true_iff.mp hstart).2
    exact Or.inl (congrArg Call.start (Option.some.inj hid).symm)
  have hpreserved : ∀ s a t, s.startsLoaded a = true → I s → s.step a = some t → I t :=
    fun s a t hstart hs hstep =>
      ⟨hs.1.step hstep, hs.2.1.step hs.1 hstep, (hkept s a t hstart hs hstep).1⟩
  refine ⟨allSteps_of_invariant (fun s a hstart hs t hstep hback => ?_) hpreserved hinit hstarts,
    fun t hrun => ?_⟩
  · obtain ⟨ht, hreturned⟩ := hkept s a t hstart hs hstep
    obtain ⟨id, call, hback', hframe, hstatus, hactive⟩ := hreturned.resolve_left hback
    have hentry : t.lastEntry id = some call := (ht.saved id).symm.trans hframe
    exact ⟨id, call, hback', hentry, ht.entries _ (lastEntry_eq_some hentry), hstatus, hactive⟩
  · obtain ⟨hslot, hcontrol, ht⟩ : I t := run_invariant hpreserved hinit hstarts hrun
    refine ⟨fun id call hactive hevents hentry => ⟨ht.entries _ (lastEntry_eq_some hentry), ?_⟩,
      fun id => ⟨?_, ?_⟩⟩
    · have hfinished : t.status ≠ .finished := by
        rcases hcontrol.inControl with hloop | ⟨-, -, -, hs | hs⟩
        · exact hloop.not_finished
        · simp [hs]
        · simp [hs]
      exact ⟨_, halt_of_entered hactive (hslot.status_ne_empty hactive) hfinished hevents
        ((ht.saved id).trans hentry), rfl⟩
    · exact Nat.le_trans (Nat.le_add_right _ _) (ht.entered_le id)
    · rw [hslot.places_eq, places]
      omega

/-- Instance 2 is started and blocks, instance 3 is swapped in, started, and halts, and instance 2
is swapped back in, resumed, and halts. -/
theorem returned_to_own_call_swap : AllSteps Core.step ReturnsOwn init
    [.load 2, .start 2, .netwrite ⟨true, true, 1⟩, .poll 1000 0, .dispatch 0, .load 3, .start 3,
      .halt, .processIncoming 2 true, .dispatch 0, .dispatch 0, .halt] :=
  (returned_to_own_call (by decide)).1

end Core

end Umm
