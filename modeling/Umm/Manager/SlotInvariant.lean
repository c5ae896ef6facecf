import Mathlib.Data.List.Count
import Mathlib.Data.List.Nodup
import Umm.Manager.YieldCalls

/-!
# Where the instances of a core are

`SlotInvariant` links the slot, its status, the queue of idle instances and the maps beside it, and
accounts for every submitted instance: it is in the slot, among the inactive instances, or handed
back.  While a function moves an instance, the instance is in none of these but in a local variable
of the function; the parameter `hand` of the invariant is that instance.  Between steps nothing is
in hand.
-/

namespace Umm

open Foundations

namespace Core

/-- The number of places of the core where the instance `id` is. -/
def places (s : Core) (id : UmiId) : ℕ :=
  (if s.activeUmi = some id then 1 else 0) + (if s.inactiveUmiMap id = none then 0 else 1) +
    (s.handedBack.map Prod.snd).count id

/-- The invariant of the slot and its containers, with the instances `hand` in the hands of the
running function. -/
structure SlotInvariant (hand : List UmiId) (s : Core) : Prop where
  /-- No instance is queued twice. -/
  queue_nodup : s.idleUmiQueue.Nodup
  /-- The queued instances are the keys of the inactive map. -/
  mem_queue_iff : ∀ id, id ∈ s.idleUmiQueue ↔ s.inactiveUmiMap id ≠ none
  /-- A key of the inactive map is mapped to the instance with that identifier. -/
  inactive_eq : ∀ id umi, s.inactiveUmiMap id = some umi → umi = id
  /-- The active instance is not queued. -/
  active_not_mem : ∀ id, s.activeUmi = some id → id ∉ s.idleUmiQueue
  /-- The status is empty exactly when there is no active instance. -/
  empty_iff : s.status = .empty ↔ s.activeUmi = none
  /-- An instance whose activation is promised is queued, or in hand. -/
  promise_mem : ∀ id, s.activationPromiseMap id = true → id ∈ s.idleUmiQueue ∨ id ∈ hand
  /-- No instance is in hand twice. -/
  hand_nodup : hand.Nodup
  /-- An instance in hand is nowhere else. -/
  hand_not_mem : ∀ id ∈ hand, id ∉ s.idleUmiQueue ∧ s.activeUmi ≠ some id
  /-- Every submitted instance is in one of the places, or in hand. -/
  places_eq : ∀ id, s.submitted.count id = s.places id + hand.count id

/-- The invariant holds after boot. -/
theorem slotInvariant_init : SlotInvariant [] init where
  queue_nodup := List.nodup_nil
  mem_queue_iff := fun id => by simp [init]
  inactive_eq := fun id umi h => by simp [init] at h
  active_not_mem := fun id h => by simp [init] at h
  empty_iff := by simp [init]
  promise_mem := fun id h => by simp [init] at h
  hand_nodup := List.nodup_nil
  hand_not_mem := fun id h => absurd h List.not_mem_nil
  places_eq := fun id => by simp [init, places]

section Transformers

variable {hand : List UmiId} {s t : Core} {id : UmiId}

/-- The invariant only depends on the slot, the containers and the two logs. -/
theorem SlotInvariant.frame (h : SlotInvariant hand s) (hqueue : t.idleUmiQueue = s.idleUmiQueue)
    (hmap : t.inactiveUmiMap = s.inactiveUmiMap)
    (hpromise : t.activationPromiseMap = s.activationPromiseMap)
    (hactive : t.activeUmi = s.activeUmi) (hsubmitted : t.submitted = s.submitted)
    (hback : t.handedBack = s.handedBack) (hstatus : t.status = .empty ↔ s.status = .empty) :
    SlotInvariant hand t where
  queue_nodup := hqueue ▸ h.queue_nodup
  mem_queue_iff := by rw [hqueue, hmap]; exact h.mem_queue_iff
  inactive_eq := by rw [hmap]; exact h.inactive_eq
  active_not_mem := by rw [hqueue, hactive]; exact h.active_not_mem
  empty_iff := by rw [hstatus, hactive]; exact h.empty_iff
  promise_mem := by rw [hqueue, hpromise]; exact h.promise_mem
  hand_nodup := h.hand_nodup
  hand_not_mem := by rw [hqueue, hactive]; exact h.hand_not_mem
  places_eq := by
    intro id
    rw [places, hsubmitted, hactive, hmap, hback]
    exact h.places_eq id

/-- The slot is occupied when its status is not empty. -/
theorem SlotInvariant.exists_active (h : SlotInvariant hand s) (hstatus : s.status ≠ .empty) :
    ∃ id, s.activeUmi = some id :=
  Option.ne_none_iff_exists'.mp fun hnone => hstatus (h.empty_iff.mpr hnone)

/-- The status is not empty when the slot is occupied. -/
theorem SlotInvariant.status_ne_empty (h : SlotInvariant hand s) (hactive : s.activeUmi = some id) :
    s.status ≠ .empty := by
  intro hempty
  simp [h.empty_iff.mp hempty] at hactive

/-- The active instance has been submitted. -/
theorem SlotInvariant.mem_submitted_of_active (h : SlotInvariant hand s)
    (hactive : s.activeUmi = some id) : id ∈ s.submitted := by
  have hplaces := h.places_eq id
  rw [places, if_pos hactive] at hplaces
  apply List.one_le_count_iff.mp
  omega

/-- A queued instance is mapped to itself. -/
theorem SlotInvariant.inactive_of_mem (h : SlotInvariant hand s) (hid : id ∈ s.idleUmiQueue) :
    s.inactiveUmiMap id = some id := by
  obtain ⟨umi, humi⟩ := Option.ne_none_iff_exists'.mp ((h.mem_queue_iff id).mp hid)
  rw [humi, h.inactive_eq id umi humi]

/-- What is not in the queue is not in the map. -/
theorem SlotInvariant.inactive_of_not_mem (h : SlotInvariant hand s) (hid : id ∉ s.idleUmiQueue) :
    s.inactiveUmiMap id = none := by
  by_contra hne
  exact hid ((h.mem_queue_iff id).mpr hne)

/-- A queued instance can be looked up. -/
theorem SlotInvariant.getInstance_of_mem (h : SlotInvariant hand s) (hnull : nullId ∉ s.submitted)
    (hid : id ∈ s.idleUmiQueue) : s.getInstance id = some id := by
  have hne : id ≠ nullId := by
    rintro rfl
    refine hnull (List.one_le_count_iff.mp ?_)
    rw [h.places_eq, places, if_neg ((h.mem_queue_iff nullId).mp hid)]
    omega
  unfold getInstance
  rw [if_neg hne, if_neg fun hactive => h.active_not_mem id hactive hid, h.inactive_of_mem hid]

/-- Taking an instance off the queues leaves it in hand. -/
theorem SlotInvariant.takeInactive (h : SlotInvariant [] s) {next : UmiId}
    (hnext : next ∈ s.idleUmiQueue) : SlotInvariant [next] (s.takeInactive next) where
  queue_nodup := h.queue_nodup.erase next
  mem_queue_iff := by
    intro id
    change id ∈ s.idleUmiQueue.erase next ↔ Function.update s.inactiveUmiMap next none id ≠ none
    rw [h.queue_nodup.mem_erase_iff, Function.update_apply]
    by_cases hid : id = next
    · simp [hid]
    · simp [hid, h.mem_queue_iff id]
  inactive_eq := by
    intro id umi humi
    change Function.update s.inactiveUmiMap next none id = some umi at humi
    by_cases hid : id = next
    · simp [hid] at humi
    · rw [Function.update_of_ne hid] at humi
      exact h.inactive_eq id umi humi
  active_not_mem := fun id hid hmem => h.active_not_mem id hid (List.mem_of_mem_erase hmem)
  empty_iff := h.empty_iff
  promise_mem := by
    intro id hid
    change id ∈ s.idleUmiQueue.erase next ∨ id ∈ [next]
    rw [h.queue_nodup.mem_erase_iff, List.mem_singleton]
    by_cases heq : id = next
    · exact Or.inr heq
    · exact Or.inl ⟨heq, (h.promise_mem id hid).resolve_right List.not_mem_nil⟩
  hand_nodup := List.nodup_singleton next
  hand_not_mem := by
    intro id hid
    obtain rfl := List.mem_singleton.mp hid
    exact ⟨fun hmem => ((h.queue_nodup.mem_erase_iff).mp hmem).1 rfl,
      fun hactive => h.active_not_mem _ hactive hnext⟩
  places_eq := by
    intro id
    have hplaces := h.places_eq id
    change s.submitted.count id = (if s.activeUmi = some id then 1 else 0) +
      (if Function.update s.inactiveUmiMap next none id = none then 0 else 1) +
      (s.handedBack.map Prod.snd).count id + [next].count id
    rw [hplaces, places, List.count_singleton]
    by_cases hid : id = next
    · subst hid
      simp [h.inactive_of_mem hnext]
      omega
    · simp [hid, Ne.symm hid]

/-- Unloading the slot leaves its instance in hand. -/
theorem SlotInvariant.unload (h : SlotInvariant hand s) (hactive : s.activeUmi = some id) :
    SlotInvariant (id :: hand) { s with status := .empty, activeUmi := none } where
  queue_nodup := h.queue_nodup
  mem_queue_iff := h.mem_queue_iff
  inactive_eq := h.inactive_eq
  active_not_mem := fun _ h => by cases h
  empty_iff := ⟨fun _ => rfl, fun _ => rfl⟩
  promise_mem := fun id' hid' => (h.promise_mem id' hid').imp_right (List.mem_cons_of_mem id)
  hand_nodup := List.nodup_cons.mpr ⟨fun hmem => (h.hand_not_mem id hmem).2 hactive, h.hand_nodup⟩
  hand_not_mem := by
    intro id' hid'
    refine ⟨?_, fun h => by cases h⟩
    rcases List.mem_cons.mp hid' with rfl | hid'
    · exact h.active_not_mem _ hactive
    · exact (h.hand_not_mem id' hid').1
  places_eq := by
    intro id'
    have hplaces := h.places_eq id'
    rw [places, hactive] at hplaces
    change s.submitted.count id' = (if (none : Option UmiId) = some id' then 1 else 0) +
      (if s.inactiveUmiMap id' = none then 0 else 1) +
      (s.handedBack.map Prod.snd).count id' + (id :: hand).count id'
    rw [hplaces, List.count_cons]
    simp only [Option.some.injEq, reduceCtorEq, if_false, beq_iff_eq]
    omega

/-- Queueing an instance that is in hand. -/
theorem SlotInvariant.enqueue (h : SlotInvariant (id :: hand) s) :
    SlotInvariant hand ((s.emplaceInactive id).slotQueuePush id) := by
  obtain ⟨hmem, hactive⟩ := h.hand_not_mem id List.mem_cons_self
  obtain ⟨hhand, hnodup⟩ := List.nodup_cons.mp h.hand_nodup
  have hmap : ((s.emplaceInactive id).slotQueuePush id).inactiveUmiMap =
      Function.update s.inactiveUmiMap id (some id) := by
    change Function.update s.inactiveUmiMap id ((s.inactiveUmiMap id).or (some id)) = _
    rw [h.inactive_of_not_mem hmem, Option.none_or]
  have hqueue : ((s.emplaceInactive id).slotQueuePush id).idleUmiQueue =
      s.idleUmiQueue ++ [id] := rfl
  refine ⟨?_, ?_, ?_, ?_, h.empty_iff, ?_, hnodup, ?_, ?_⟩
  · rw [hqueue, List.nodup_append]
    refine ⟨h.queue_nodup, List.nodup_singleton id, ?_⟩
    rintro id' hid' id'' hid'' rfl
    exact hmem (List.mem_singleton.mp hid'' ▸ hid')
  · intro id'
    rw [hqueue, hmap, List.mem_append, List.mem_singleton, Function.update_apply]
    by_cases hid : id' = id
    · simp [hid]
    · simp [hid, h.mem_queue_iff id']
  · intro id' umi humi
    rw [hmap, Function.update_apply] at humi
    by_cases hid : id' = id
    · rw [if_pos hid] at humi
      exact (Option.some.inj humi).symm.trans hid.symm
    · rw [if_neg hid] at humi
      exact h.inactive_eq id' umi humi
  · intro id' hid' hin
    rcases List.mem_append.mp (hqueue ▸ hin) with hin | hin
    · exact h.active_not_mem id' hid' hin
    · exact hactive (List.mem_singleton.mp hin ▸ hid')
  · intro id' hid'
    rw [hqueue, List.mem_append, List.mem_singleton]
    rcases h.promise_mem id' hid' with hin | hin
    · exact Or.inl (Or.inl hin)
    · exact (List.mem_cons.mp hin).imp_left Or.inr
  · intro id' hid'
    obtain ⟨hnot, hne⟩ := h.hand_not_mem id' (List.mem_cons_of_mem id hid')
    refine ⟨fun hin => ?_, hne⟩
    rcases List.mem_append.mp (hqueue ▸ hin) with hin | hin
    · exact hnot hin
    · exact hhand (List.mem_singleton.mp hin ▸ hid')
  · intro id'
    have hplaces := h.places_eq id'
    rw [places, List.count_cons] at hplaces
    rw [places, hmap, Function.update_apply]
    change s.submitted.count id' = (if s.activeUmi = some id' then 1 else 0) + _ +
      (s.handedBack.map Prod.snd).count id' + _
    rw [hplaces]
    by_cases hid : id' = id
    · subst hid
      simp [h.inactive_of_not_mem hmem]
      omega
    · simp [hid, Ne.symm hid]

/-- Vacating the slot. -/
theorem SlotInvariant.vacate (h : SlotInvariant hand s) (hactive : s.activeUmi = some id) :
    SlotInvariant hand (s.vacate id) :=
  (h.unload hactive).enqueue

/-- Loading the instance in hand into the vacant slot; its activation, if promised, is over. -/
theorem SlotInvariant.occupy (h : SlotInvariant [id] s) (hvacant : s.activeUmi = none) :
    SlotInvariant [] { s.occupy id with
      activationPromiseMap := Function.update s.activationPromiseMap id false } := by
  obtain ⟨hmem, -⟩ := h.hand_not_mem id List.mem_cons_self
  refine ⟨h.queue_nodup, h.mem_queue_iff, h.inactive_eq, ?_, ?_, ?_, List.nodup_nil, ?_, ?_⟩
  · intro id' hid'
    exact Option.some.inj hid' ▸ hmem
  · exact ⟨fun hstatus => (by cases hstatus), fun hactive => (by cases hactive)⟩
  · intro id' hid'
    change Function.update s.activationPromiseMap id false id' = true at hid'
    by_cases heq : id' = id
    · simp [heq] at hid'
    · rw [Function.update_of_ne heq] at hid'
      exact Or.inl ((h.promise_mem id' hid').resolve_right fun h => heq (List.mem_singleton.mp h))
  · exact fun id' hid' => absurd hid' List.not_mem_nil
  · intro id'
    have hplaces := h.places_eq id'
    rw [places, hvacant, List.count_singleton] at hplaces
    change s.submitted.count id' = (if some id = some id' then 1 else 0) +
      (if s.inactiveUmiMap id' = none then 0 else 1) + (s.handedBack.map Prod.snd).count id' + 0
    rw [hplaces]
    simp only [Option.some.injEq, reduceCtorEq, if_false, beq_iff_eq]
    omega

/-- Submitting an instance the core does not hold puts it in hand. -/
theorem SlotInvariant.submit (h : SlotInvariant [] s) (hfree : s.free id = true) :
    SlotInvariant [id] (s.submit id) := by
  simp only [free, Bool.and_eq_true, bne_iff_ne, beq_iff_eq] at hfree
  obtain ⟨⟨-, hactive⟩, hmap⟩ := hfree
  have hmem : id ∉ s.idleUmiQueue := fun hin => (h.mem_queue_iff id).mp hin hmap
  refine ⟨h.queue_nodup, h.mem_queue_iff, h.inactive_eq, h.active_not_mem, h.empty_iff, ?_,
    List.nodup_singleton id, ?_, ?_⟩
  · exact fun id' hid' => Or.inl ((h.promise_mem id' hid').resolve_right List.not_mem_nil)
  · intro id' hid'
    obtain rfl := List.mem_singleton.mp hid'
    exact ⟨hmem, hactive⟩
  · intro id'
    have hplaces := h.places_eq id'
    change (id :: s.submitted).count id' = s.places id' + [id].count id'
    rw [List.count_cons, hplaces, List.count_singleton]
    simp

/-- An instance the core does not hold has no promised activation. -/
theorem SlotInvariant.promise_of_free (h : SlotInvariant [] s) (hfree : s.free id = true) :
    s.activationPromiseMap id = false := by
  simp only [free, Bool.and_eq_true, beq_iff_eq] at hfree
  by_contra hne
  have hmem := (h.promise_mem id (by simpa using hne)).resolve_right List.not_mem_nil
  exact (h.mem_queue_iff id).mp hmem hfree.2

/-- Queueing the instance in hand for activation. -/
theorem SlotInvariant.queueInstanceActivation (h : SlotInvariant [id] s) :
    SlotInvariant [] (s.queueInstanceActivation id) := by
  have hqueued := h.enqueue
  refine { hqueued with promise_mem := fun id' hid' => Or.inl ?_ }
  change id' ∈ s.idleUmiQueue ++ [id]
  rw [List.mem_append, List.mem_singleton]
  by_cases heq : id' = id
  · exact Or.inr heq
  · change Function.update s.activationPromiseMap id true id' = true at hid'
    rw [Function.update_of_ne heq] at hid'
    exact Or.inl ((h.promise_mem id' hid').resolve_right fun h => heq (List.mem_singleton.mp h))

/-- Handing the active instance back. -/
theorem SlotInvariant.release (h : SlotInvariant [] s) {call : Call}
    (hactive : s.activeUmi = some id) : SlotInvariant [] (s.release id call) := by
  have hunloaded := h.unload hactive
  refine { hunloaded with
    promise_mem := fun id' hid' => h.promise_mem id' hid'
    hand_nodup := List.nodup_nil
    hand_not_mem := fun id' hid' => absurd hid' List.not_mem_nil
    places_eq := fun id' => ?_ }
  have hplaces : s.submitted.count id' = (if (none : Option UmiId) = some id' then 1 else 0) +
      (if s.inactiveUmiMap id' = none then 0 else 1) +
      (s.handedBack.map Prod.snd).count id' + [id].count id' := hunloaded.places_eq id'
  change s.submitted.count id' = (if (none : Option UmiId) = some id' then 1 else 0) +
    (if s.inactiveUmiMap id' = none then 0 else 1) + (id :: s.handedBack.map Prod.snd).count id' + 0
  rw [hplaces, List.count_singleton, List.count_cons]
  omega

/-- `slot_queue_move_to_front` reorders the queue. -/
theorem perm_slotQueueMoveToFront (s : Core) (id : UmiId) :
    (s.slotQueueMoveToFront id).idleUmiQueue.Perm s.idleUmiQueue := by
  unfold Core.slotQueueMoveToFront
  split_ifs with hfront hmem
  · exact List.Perm.refl _
  · exact (List.perm_cons_erase hmem).symm
  · exact List.Perm.refl _

/-- The queue may be reordered. -/
theorem SlotInvariant.slotQueueMoveToFront (h : SlotInvariant hand s) (id : UmiId) :
    SlotInvariant hand (s.slotQueueMoveToFront id) := by
  have hperm := perm_slotQueueMoveToFront s id
  exact {
    queue_nodup := hperm.nodup_iff.mpr h.queue_nodup
    mem_queue_iff := fun id' => hperm.mem_iff.trans (h.mem_queue_iff id')
    inactive_eq := h.inactive_eq
    active_not_mem := fun id' hid' hin => h.active_not_mem id' hid' (hperm.mem_iff.mp hin)
    empty_iff := h.empty_iff
    promise_mem := fun id' hid' => (h.promise_mem id' hid').imp_left hperm.mem_iff.mpr
    hand_nodup := h.hand_nodup
    hand_not_mem := fun id' hid' =>
      ⟨fun hin => (h.hand_not_mem id' hid').1 (hperm.mem_iff.mp hin), (h.hand_not_mem id' hid').2⟩
    places_eq := h.places_eq }

/-- The instance a yield selects is queued, and active. -/
theorem SlotInvariant.mem_of_findEligible (h : SlotInvariant hand s) {next : UmiId}
    (hnext : s.findEligible = some next) :
    next ∈ s.idleUmiQueue ∧ (s.umis next).active = true := by
  obtain ⟨id, hid, hsome⟩ := List.exists_of_findSome?_eq_some hnext
  obtain ⟨hget, hactive⟩ := Option.filter_eq_some_iff.mp hsome
  unfold getInstance at hget
  split_ifs at hget with hnull hslot
  · exact absurd hid (h.active_not_mem id hslot)
  · obtain rfl := h.inactive_eq id next hget
    exact ⟨hid, hactive⟩

end Transformers

/-! ## Steps -/

section Steps

variable {s : Core}

/-- `Kick` keeps the invariant. -/
theorem SlotInvariant.kick_outcome {hand : List UmiId} (h : SlotInvariant hand s) (id : UmiId) :
    Outcome (s.kick id) (SlotInvariant hand) fun _ => True :=
  Core.kick_outcome (fun _ _ => trivial) h fun _ _ _ => h.frame rfl rfl rfl rfl rfl rfl Iff.rfl

/-- `Halt` keeps the invariant. -/
theorem SlotInvariant.halt_outcome (h : SlotInvariant [] s) :
    Outcome s.halt (SlotInvariant []) fun _ => True := by
  have hhalting : ∀ id, s.status ≠ .empty → SlotInvariant [] (s.setHalting id) := by
    intro id hne
    exact h.frame rfl rfl rfl rfl rfl rfl ⟨fun h => (by cases h), fun h => absurd h hne⟩
  refine Core.halt_outcome (fun _ _ => trivial) (fun _ => trivial) (fun _ => trivial) ?_ ?_
  · intro id hne _ _ _
    exact (hhalting id hne).frame rfl rfl rfl rfl rfl rfl Iff.rfl
  · intro id call hne _ hactive _ _
    have hremoved : SlotInvariant [] ((s.setHalting id).removeInstanceState id) :=
      (hhalting id hne).frame rfl rfl rfl rfl rfl rfl Iff.rfl
    exact hremoved.release hactive

/-- The end of a yield: the instance that was loaded is no longer promised an activation. -/
theorem SlotInvariant.yieldTo_outcome {next umi : UmiId} (hloaded : s.status = .loaded)
    (hactive : s.activeUmi = some umi)
    (h : SlotInvariant [] { s with
      activationPromiseMap := Function.update s.activationPromiseMap next false }) :
    Outcome (s.yieldTo next) (SlotInvariant []) fun _ => True := by
  have hself : s.activationPromiseMap next = false → SlotInvariant [] s := by
    intro hp
    rwa [← hp, Function.update_eq_self] at h
  have hstatus : Status.idle = .empty ↔ s.status = .empty := by
    rw [hloaded]
    exact ⟨fun h => (by cases h), fun h => (by cases h)⟩
  refine Core.yieldTo_outcome hloaded hactive (fun _ => h) (fun hp _ => ?_) fun hp => ?_
  · have hidle : SlotInvariant [] { s with
        status := .idle
        inactiveUmiHaltMap := Function.update s.inactiveUmiHaltMap next false } :=
      (hself hp).frame rfl rfl rfl rfl rfl rfl hstatus
    exact hidle.halt_outcome
  · have hidle : SlotInvariant [] { s with status := .idle } :=
      (hself hp).frame rfl rfl rfl rfl rfl rfl hstatus
    exact hidle.kick_outcome umi

/-- `Yield` keeps the invariant. -/
theorem SlotInvariant.yield_outcome (h : SlotInvariant [] s) :
    Outcome s.yield (SlotInvariant []) fun _ => True := by
  refine Core.yield_outcome (fun _ _ => trivial) (fun _ => h)
    (fun old _ hold _ _ => h.vacate hold) ?_ ?_
  · intro next umi old _ hold _ hnext humi
    obtain rfl := h.inactive_eq next umi humi
    have htaken := (h.takeInactive (h.mem_of_findEligible hnext).1).vacate hold
    exact SlotInvariant.yieldTo_outcome rfl rfl (htaken.occupy rfl)
  · intro next umi hempty hnext humi
    obtain rfl := h.inactive_eq next umi humi
    have htaken := h.takeInactive (h.mem_of_findEligible hnext).1
    exact SlotInvariant.yieldTo_outcome rfl rfl (htaken.occupy (h.empty_iff.mp hempty))

/-- `process_gateway` keeps the invariant. -/
theorem SlotInvariant.processGateway_outcome (h : SlotInvariant [] s) (frame : Option Call) :
    Outcome (s.processGateway frame) (SlotInvariant []) fun _ => True := by
  refine Core.processGateway_outcome (fun _ _ => trivial) ?_ ?_
  · intro id hloaded _
    exact h.frame rfl rfl rfl rfl rfl rfl ⟨fun h => (by cases h), fun h => by simp [hloaded] at h⟩
  · intro id call _ hactive _
    exact h.release hactive

/-- `Load` of an instance that is nowhere keeps the invariant. -/
theorem SlotInvariant.load_outcome (h : SlotInvariant [] s) {id : UmiId}
    (hfree : s.free id = true) :
    Outcome ((s.submit id).load id) (SlotInvariant []) fun _ => True := by
  have hsubmit := h.submit hfree
  have hpromise : ∀ t : Core, t.activationPromiseMap = s.activationPromiseMap →
      SlotInvariant [] { t with
        activationPromiseMap := Function.update s.activationPromiseMap id false } →
      SlotInvariant [] t := by
    intro t ht hinv
    rw [← h.promise_of_free hfree, Function.update_eq_self, ← ht] at hinv
    exact hinv
  refine Core.load_outcome (fun _ _ => trivial) ?_ ?_ fun _ => hsubmit.queueInstanceActivation
  · intro hempty
    exact hpromise _ rfl (hsubmit.occupy (hsubmit.empty_iff.mp hempty))
  · intro old _ hold _
    exact hpromise _ rfl ((hsubmit.vacate hold).occupy rfl)

/-- So does `Run`. -/
theorem SlotInvariant.run_outcome (h : SlotInvariant [] s) {id : UmiId}
    (hfree : s.free id = true) :
    Outcome ((s.submit id).run id) (SlotInvariant []) fun _ => True := by
  have hsubmit := h.submit hfree
  refine Core.run_outcome (fun _ _ => trivial) fun hempty => ?_
  have hload := hsubmit.occupy (hsubmit.empty_iff.mp hempty)
  have hpromise : Function.update (s.submit id).activationPromiseMap id false =
      s.activationPromiseMap := by
    rw [← h.promise_of_free hfree]
    exact Function.update_eq_self id _
  rw [hpromise] at hload
  exact hload.frame rfl rfl rfl rfl rfl rfl ⟨fun h => (by cases h), fun h => (by cases h)⟩

/-- The invariant holds where `Yield` is called. -/
theorem SlotInvariant.of_yieldCall (h : SlotInvariant [] s) {t : Core} {a : Step}
    (hcall : s.yieldCall a = some t) : SlotInvariant [] t :=
  Core.of_yieldCall hcall h (fun _ => h.frame rfl rfl rfl rfl rfl rfl Iff.rfl)
    (fun _ _ _ => h.frame rfl rfl rfl rfl rfl rfl Iff.rfl)
    (fun _ id hu => hu.slotQueueMoveToFront id)
    (fun _ _ hu => hu.frame rfl rfl rfl rfl rfl rfl Iff.rfl)

/-- The end of `Block` keeps the invariant. -/
theorem SlotInvariant.returnFromBlock_outcome (h : SlotInvariant [] s) (guest : UmiId) :
    Outcome (s.returnFromBlock guest) (SlotInvariant []) fun _ => True := by
  refine Core.returnFromBlock_outcome (fun _ _ => trivial) (fun _ => trivial) fun hstatus => ?_
  refine h.frame rfl rfl rfl rfl rfl rfl ⟨fun h => (by cases h), fun hempty => ?_⟩
  rcases hstatus with hs | hs | hs <;> rw [hs] at hempty <;> cases hempty

/-- `Block` keeps the invariant. -/
theorem SlotInvariant.block_outcome (h : SlotInvariant [] s) (guest : UmiId) (ns now : ℕ) :
    Outcome (s.block guest ns now) (SlotInvariant []) fun _ => True := by
  have hne : s.status = .active ∨ s.status = .loaded → s.status ≠ .empty := by
    rintro (hs | hs) hempty <;> rw [hs] at hempty <;> cases hempty
  refine Core.block_outcome (fun _ _ => trivial) (fun _ _ => trivial) (fun _ _ _ => trivial)
    (fun hs => ?_) fun id x hs _ _ _ => ?_
  · exact h.frame rfl rfl rfl rfl rfl rfl ⟨fun h => (by cases h), fun h => absurd h (hne hs)⟩
  · exact h.frame rfl rfl rfl rfl rfl rfl ⟨fun h => (by cases h), fun h => absurd h (hne hs)⟩

/-- The activation of a context keeps the invariant. -/
theorem SlotInvariant.activateContext_outcome (h : SlotInvariant [] s) (ctx : EventContext) :
    Outcome (s.activateContext ctx) (SlotInvariant []) fun _ => True := by
  have hcleared : SlotInvariant [] (s.setUmi ctx.umi { s.umis ctx.umi with context := none }) :=
    h.frame rfl rfl rfl rfl rfl rfl Iff.rfl
  exact Core.activateContext_outcome (fun _ => hcleared.returnFromBlock_outcome ctx.guest)
    (hcleared.frame rfl rfl rfl rfl rfl rfl Iff.rfl)

/-- Every event keeps the invariant. -/
theorem SlotInvariant.performEvent_outcome (h : SlotInvariant [] s) (e : Event) :
    Outcome (s.performEvent e) (SlotInvariant []) fun _ => True := by
  cases e with
  | yield => exact h.yield_outcome
  | halt => exact h.halt_outcome
  | processOutgoing writer pkt =>
    exact Core.processOutgoing_outcome (fun _ _ => trivial) h
      (fun _ => h.frame rfl rfl rfl rfl rfl rfl Iff.rfl)
      fun _ _ _ _ _ => h.frame rfl rfl rfl rfl rfl rfl Iff.rfl
  | activateContext ctx => exact h.activateContext_outcome ctx
  | other => exact h

/-- Every step that is enabled keeps the invariant. -/
theorem SlotInvariant.exec_outcome (h : SlotInvariant [] s) {a : Step}
    (henabled : s.enabled a = true) :
    Outcome (s.exec a) (SlotInvariant []) fun _ => True := by
  have hset : ∀ id x, SlotInvariant [] (s.setUmi id x) :=
    fun id x => h.frame rfl rfl rfl rfl rfl rfl Iff.rfl
  have hspawn : ∀ e, SlotInvariant [] (s.spawnLocal e) :=
    fun e => h.frame rfl rfl rfl rfl rfl rfl Iff.rfl
  cases hcall : s.yieldCall a with
  | some t =>
    rw [exec_of_yieldCall hcall]
    exact (h.of_yieldCall hcall).yield_outcome
  | none =>
    cases a with
    | load id => exact h.load_outcome (guests_of_enabled henabled rfl).2
    | run id => exact h.run_outcome (guests_of_enabled henabled rfl).2
    | start id => exact h.processGateway_outcome _
    | signalHalt id => exact signalHalt_outcome (fun _ _ => trivial) hcall fun _ => h.halt_outcome
    | signalYield id => exact signalYield_outcome h (hspawn _)
    | signalResume id =>
      exact signalResume_outcome (fun _ _ => trivial) hcall fun _ => h.kick_outcome id
    | yield => cases hcall
    | spawnHalt => exact hspawn _
    | spawnOther => exact hspawn _
    | processIncoming id payload =>
      exact processIncoming_outcome (fun _ _ => trivial) hcall h
        fun x y _ _ => (hset x y).kick_outcome x
    | enqueuePacket id buf => exact hset id _
    | dispatch i =>
      change Outcome (s.dispatch i) _ _
      unfold dispatch
      split
      · exact h
      · have hrest : SlotInvariant [] { s with events := s.events.eraseIdx i } :=
          h.frame rfl rfl rfl rfl rfl rfl Iff.rfl
        exact hrest.performEvent_outcome _
    | fire id now =>
      exact Core.fire_outcome (fun x _ _ _ => hset id x) fun x _ _ _ _ => (hset id x).kick_outcome id
    | poll ns now =>
      exact Core.poll_outcome (fun _ _ => trivial) h fun _ _ _ => h.block_outcome s.guest ns now
    | netwrite pkt => exact hspawn _
    | netread len => exact Core.netread_outcome (fun _ _ => trivial) fun x y _ => hset x y
    | halt => exact h.halt_outcome

/-- So every step of the machine keeps it. -/
theorem SlotInvariant.step {t : Core} {a : Step} (h : SlotInvariant [] s)
    (hstep : s.step a = some t) : SlotInvariant [] t := by
  obtain ⟨henabled, hexec⟩ := step_eq_some.mp hstep
  exact (h.exec_outcome henabled).of_eq_ok hexec

end Steps

/-- The invariant holds in every state a run reaches. -/
theorem SlotInvariant.of_run {as : List Step} {t : Core}
    (hrun : Foundations.run Core.step init as = some t) : SlotInvariant [] t :=
  run_invariant' (fun _ _ _ hs hs' => hs.step hs') slotInvariant_init hrun

/-- In every state a run reaches, the containers of the core agree with each other and with the
slot, and when no instance was submitted twice, each submitted instance is in exactly one place: in
the slot, among the inactive instances, or handed back. -/
theorem slots_consistent {as : List Step} {t : Core}
    (hrun : Foundations.run step init as = some t) :
    t.idleUmiQueue.Nodup ∧
    (∀ id, id ∈ t.idleUmiQueue ↔ t.inactiveUmiMap id ≠ none) ∧
    (∀ id umi, t.inactiveUmiMap id = some umi → umi = id) ∧
    (∀ id, t.activeUmi = some id → id ∉ t.idleUmiQueue ∧ t.inactiveUmiMap id = none) ∧
    (t.status = .empty ↔ t.activeUmi = none) ∧
    (∀ id, t.activationPromiseMap id = true → id ∈ t.idleUmiQueue) ∧
    (t.submitted.Nodup → ∀ id ∈ t.submitted, t.places id = 1) := by
  have ht := SlotInvariant.of_run hrun
  refine ⟨ht.queue_nodup, ht.mem_queue_iff, ht.inactive_eq, fun id hid => ?_, ht.empty_iff,
    fun id hid => (ht.promise_mem id hid).resolve_right List.not_mem_nil, fun hnodup id hid => ?_⟩
  · exact ⟨ht.active_not_mem id hid, ht.inactive_of_not_mem (ht.active_not_mem id hid)⟩
  · have hplaces := ht.places_eq id
    rw [List.count_eq_one_of_mem hnodup hid, List.count_nil, Nat.add_zero] at hplaces
    exact hplaces.symm

/-- Instance 2 is loaded, started and blocks; instance 3 is queued, swapped in when instance 2 has
sent its packet, and started. -/
theorem slots_consistent_swap : ∃ t, Foundations.run step init
    [.load 2, .start 2, .netwrite ⟨true, true, 1⟩, .poll 1000 0, .load 3, .dispatch 0, .yield,
      .start 3] = some t ∧ t.places 2 = 1 ∧ t.places 3 = 1 := by
  obtain ⟨t, ht⟩ : ∃ t, Foundations.run step init
      [.load 2, .start 2, .netwrite ⟨true, true, 1⟩, .poll 1000 0, .load 3, .dispatch 0, .yield,
        .start 3] = some t := ⟨_, rfl⟩
  have hsubmitted : some t.submitted = some [3, 2] := (congrArg (Option.map submitted) ht).symm
  obtain ⟨-, -, -, -, -, -, hplaces⟩ := slots_consistent ht
  rw [Option.some.inj hsubmitted] at hplaces
  exact ⟨t, ht, hplaces (by decide) 2 (by decide), hplaces (by decide) 3 (by decide)⟩

end Core

end Umm
