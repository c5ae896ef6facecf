import Umm.Foundations.Purge
import Umm.Memory.NoCow

/-!
# Guests are isolated from each other

A group of state vectors and instances is closed if its members are made from members.  What the other
instances do, as loading them, their reads and writes, and destroying them, is hidden from the group: if two
runs are the same without it, the members of the group read the same values in both.
-/

namespace Umm

open Foundations Foundations.Layout

variable {A : Allocator Pfn} {elf : Set Pfn}

/-- The step is on something that is not in the group.  What makes something new is never hidden, since it
takes the next identifier. -/
def hidden (group : SvId → Bool) (activeUmi : UmiCore → Option SvId) : MemStep elf → Bool
  | .createSV _ | .newInstance _ | .checkpoint _ => false
  | .load _ id | .destroy id => !group id
  | .unload c | .read c _ | .write c _ _ _ => (activeUmi c).any fun id => !group id

/-- What the step makes, if it is a member of the group, is made from a member. -/
def Closed (group : SvId → Bool) (nextId : SvId) (activeUmi : UmiCore → Option SvId) :
    MemStep elf → Prop
  | .newInstance src => group nextId = true → group src = true
  | .checkpoint c => group nextId = true → ∀ id, activeUmi c = some id → group id = true
  | _ => True

namespace PrivateCopies

variable {mem₀ : Pfn → Page} {group : SvId → Bool} {p p' q q' : PrivateCopies} {a : MemStep elf}
  {c : UmiCore} {id : SvId} {content : Content}

/-- The two are the same for the group. -/
structure Agree (group : SvId → Bool) (p q : PrivateCopies) : Prop where
  /-- The same identifiers have been given out. -/
  nextId : p.nextId = q.nextId
  /-- The members hold the same. -/
  contents : ∀ id, group id = true → p.contents id = q.contents id
  /-- The same members are on the cores. -/
  activeUmi : ∀ c, (p.activeUmi c).filter group = (q.activeUmi c).filter group
  /-- The members have read the same values. -/
  reads : p.reads.filter (fun r => group r.1) = q.reads.filter fun r => group r.1

namespace Agree

theorem refl (group : SvId → Bool) (p : PrivateCopies) : Agree group p p :=
  ⟨rfl, fun _ _ => rfl, fun _ => rfl, rfl⟩

theorem symm (hagree : Agree group p q) : Agree group q p :=
  ⟨hagree.nextId.symm, fun id hid => (hagree.contents id hid).symm,
    fun c => (hagree.activeUmi c).symm, hagree.reads.symm⟩

theorem trans (hagree : Agree group p p') (hagree' : Agree group p' q) : Agree group p q where
  nextId := hagree.nextId.trans hagree'.nextId
  contents := fun id hid => (hagree.contents id hid).trans (hagree'.contents id hid)
  activeUmi := fun c => (hagree.activeUmi c).trans (hagree'.activeUmi c)
  reads := hagree.reads.trans hagree'.reads

/-- A member on a core is there in both. -/
theorem activeUmi_eq (hagree : Agree group p q) (hid : group id = true)
    (hactive : p.activeUmi c = some id) : q.activeUmi c = some id := by
  have hfilter := hagree.activeUmi c
  rw [hactive, Option.filter_some, if_pos hid] at hfilter
  exact (Option.filter_eq_some_iff.mp hfilter.symm).1

theorem add (hagree : Agree group p q) {content' : Content}
    (hcontent : group p.nextId = true → content = content') :
    Agree group (p.add content) (q.add content') where
  nextId := congrArg (· + 1) hagree.nextId
  contents := by
    intro id hid
    by_cases hnew : id = p.nextId
    · subst hnew
      rw [contents_add_self, hcontent hid, hagree.nextId, contents_add_self]
    · rw [contents_add_of_ne p content hnew, contents_add_of_ne q content' (hagree.nextId ▸ hnew),
        hagree.contents id hid]
  activeUmi := hagree.activeUmi
  reads := hagree.reads

/-- Something is held for `id` in both. -/
theorem update_contents (hagree : Agree group p q) (id : SvId) (content : Option Content) :
    Agree group { p with contents := Function.update p.contents id content }
      { q with contents := Function.update q.contents id content } where
  nextId := hagree.nextId
  contents := by
    intro j hj
    by_cases hji : j = id
    · subst hji
      simp only [Function.update_self]
    · simp only [Function.update_of_ne hji, hagree.contents j hj]
  activeUmi := hagree.activeUmi
  reads := hagree.reads

/-- What is on a core is the same in both. -/
theorem update_activeUmi (hagree : Agree group p q) (c : UmiCore) (active : Option SvId) :
    Agree group { p with activeUmi := Function.update p.activeUmi c active }
      { q with activeUmi := Function.update q.activeUmi c active } where
  nextId := hagree.nextId
  contents := hagree.contents
  activeUmi := by
    intro d
    by_cases hd : d = c
    · subst hd
      simp only [Function.update_self]
    · simp only [Function.update_of_ne hd, hagree.activeUmi d]
  reads := hagree.reads

end Agree

/-! ## Steps -/

/-- What is held for something outside the group does not matter to it. -/
theorem agree_update_contents (p : PrivateCopies) (hid : group id = false) (content : Option Content) :
    Agree group p { p with contents := Function.update p.contents id content } where
  nextId := rfl
  contents := by
    intro j hj
    have hne : j ≠ id := by
      rintro rfl
      rw [hid] at hj
      cases hj
    exact (Function.update_of_ne hne ..).symm
  activeUmi := fun _ => rfl
  reads := rfl

/-- Nor does an instance outside the group that comes to a core or leaves it. -/
theorem agree_update_activeUmi (p : PrivateCopies) {active : Option SvId}
    (hbefore : (p.activeUmi c).filter group = none) (hafter : active.filter group = none) :
    Agree group p { p with activeUmi := Function.update p.activeUmi c active } where
  nextId := rfl
  contents := fun _ _ => rfl
  activeUmi := by
    intro d
    by_cases hd : d = c
    · subst hd
      simp only [hbefore, Function.update_self, hafter]
    · simp only [Function.update_of_ne hd]
  reads := rfl

theorem active_eq_some :
    p.active c = some (id, content) ↔ p.activeUmi c = some id ∧ p.contents id = some content := by
  simp only [active, Option.bind_eq_some_iff, Option.map_eq_some_iff, Prod.mk.injEq]
  constructor
  · rintro ⟨_, hid, _, hcontent, rfl, rfl⟩
    exact ⟨hid, hcontent⟩
  · rintro ⟨hid, hcontent⟩
    exact ⟨id, hid, content, hcontent, rfl, rfl⟩

/-- A hidden step.  An instance is loaded on a core that has none. -/
theorem agree_of_hidden (hload : ∀ c id, a = .load c id → p.activeUmi c = none)
    (hhidden : hidden group p.activeUmi a = true) (hstep : p.step mem₀ a = some p') :
    Agree group p p' := by
  cases a with
  | createSV image => cases hhidden
  | newInstance src => cases hhidden
  | checkpoint c => cases hhidden
  | load c id =>
    obtain rfl := Option.some.inj hstep
    apply agree_update_activeUmi
    · rw [hload c id rfl, Option.filter_none]
    · simpa [hidden] using hhidden
  | unload c =>
    obtain rfl := Option.some.inj hstep
    obtain ⟨id, hid, hout⟩ := (Option.any_eq_true _ _).mp hhidden
    apply agree_update_activeUmi
    · simpa [hid] using hout
    · exact Option.filter_none ..
  | read c vaddr =>
    obtain ⟨id, hid, hout⟩ := (Option.any_eq_true _ _).mp hhidden
    simp only [step, Option.bind_eq_bind, Option.bind_eq_some_iff] at hstep
    obtain ⟨⟨id', content⟩, hactive, page, -, hp'⟩ := hstep
    obtain rfl := Option.some.inj hp'
    obtain ⟨hid', -⟩ := active_eq_some.mp hactive
    obtain rfl := Option.some.inj (hid.symm.trans hid')
    have hout : group id = false := by simpa using hout
    exact ⟨rfl, fun _ _ => rfl, fun _ => rfl, by simp [hout]⟩
  | write c vaddr value mask =>
    obtain ⟨id, hid, hout⟩ := (Option.any_eq_true _ _).mp hhidden
    simp only [step, Option.bind_eq_bind, Option.bind_eq_some_iff] at hstep
    obtain ⟨⟨id', content⟩, hactive, page, -, hp'⟩ := hstep
    obtain rfl := Option.some.inj hp'
    obtain ⟨hid', -⟩ := active_eq_some.mp hactive
    obtain rfl := Option.some.inj (hid.symm.trans hid')
    exact agree_update_contents p (by simpa using hout) _
  | destroy id =>
    obtain rfl := Option.some.inj hstep
    exact agree_update_contents p (by simpa [hidden] using hhidden) _

/-- What is on a core whose steps are not hidden is a member, the same in both. -/
theorem Agree.active_eq (hagree : Agree group p q)
    (hvisible : (p.activeUmi c).any (fun id => !group id) = false) {content' : Content} {id' : SvId}
    (hp : p.active c = some (id, content)) (hq : q.active c = some (id', content')) :
    group id = true ∧ id' = id ∧ content' = content := by
  obtain ⟨hid, hcontent⟩ := active_eq_some.mp hp
  obtain ⟨hid', hcontent'⟩ := active_eq_some.mp hq
  have hin : group id = true := by simpa [hid] using hvisible
  obtain rfl := Option.some.inj (hid'.symm.trans (hagree.activeUmi_eq hin hid))
  exact ⟨hin, rfl, Option.some.inj (hcontent'.symm.trans
    ((hagree.contents id' hin).symm.trans hcontent))⟩

/-- A step that both take. -/
theorem Agree.step (hagree : Agree group p q) (hclosed : Closed group p.nextId p.activeUmi a)
    (hclosed' : Closed group q.nextId q.activeUmi a) (hvisible : hidden group p.activeUmi a = false)
    (hp : p.step mem₀ a = some p') (hq : q.step mem₀ a = some q') : Agree group p' q' := by
  cases a with
  | createSV image =>
    obtain rfl := Option.some.inj hp
    obtain rfl := Option.some.inj hq
    exact hagree.add fun _ => rfl
  | newInstance src =>
    obtain ⟨content, hcontent, rfl⟩ := Option.map_eq_some_iff.mp hp
    obtain ⟨content', hcontent', rfl⟩ := Option.map_eq_some_iff.mp hq
    refine hagree.add fun hnew => Option.some.inj ?_
    rw [← hcontent, ← hcontent', hagree.contents src (hclosed hnew)]
  | load c id =>
    obtain rfl := Option.some.inj hp
    obtain rfl := Option.some.inj hq
    exact hagree.update_activeUmi c (some id)
  | unload c =>
    obtain rfl := Option.some.inj hp
    obtain rfl := Option.some.inj hq
    exact hagree.update_activeUmi c none
  | read c vaddr =>
    simp only [PrivateCopies.step, Option.bind_eq_bind, Option.bind_eq_some_iff] at hp hq
    obtain ⟨⟨id, content⟩, hactive, page, hpage, hp⟩ := hp
    obtain ⟨⟨id', content'⟩, hactive', page', hpage', hq⟩ := hq
    obtain rfl := Option.some.inj hp
    obtain rfl := Option.some.inj hq
    obtain ⟨hin, rfl, rfl⟩ := hagree.active_eq hvisible hactive hactive'
    obtain rfl := Option.some.inj (hpage.symm.trans hpage')
    exact ⟨hagree.nextId, hagree.contents, hagree.activeUmi, by simp [hin, hagree.reads]⟩
  | write c vaddr value mask =>
    simp only [PrivateCopies.step, Option.bind_eq_bind, Option.bind_eq_some_iff] at hp hq
    obtain ⟨⟨id, content⟩, hactive, page, hpage, hp⟩ := hp
    obtain ⟨⟨id', content'⟩, hactive', page', hpage', hq⟩ := hq
    obtain rfl := Option.some.inj hp
    obtain rfl := Option.some.inj hq
    obtain ⟨-, rfl, rfl⟩ := hagree.active_eq hvisible hactive hactive'
    obtain rfl := Option.some.inj (hpage.symm.trans hpage')
    exact hagree.update_contents _ _
  | checkpoint c =>
    obtain ⟨⟨id, content⟩, hactive, rfl⟩ := Option.map_eq_some_iff.mp hp
    obtain ⟨⟨id', content'⟩, hactive', rfl⟩ := Option.map_eq_some_iff.mp hq
    refine hagree.add fun hnew => ?_
    -- The instance is a member, so that it is the same on both sides.
    have hin := hclosed hnew id (active_eq_some.mp hactive).1
    have hvisible : (p.activeUmi c).any (fun id => !group id) = false := by
      simp [(active_eq_some.mp hactive).1, hin]
    exact (hagree.active_eq hvisible hactive hactive').2.2.symm
  | destroy id =>
    obtain rfl := Option.some.inj hp
    obtain rfl := Option.some.inj hq
    exact hagree.update_contents id none

end PrivateCopies

namespace Sys

variable {s s' : Sys A elf} {mem₀ : Pfn → Page} {group : SvId → Bool} {p : PrivateCopies}
  {a : MemStep elf}

/-- The duties of the caller, and the group stays closed. -/
def OrderlyFor (group : SvId → Bool) (s : Sys A elf) (a : MemStep elf) : Prop :=
  s.Orderly a ∧ Closed group s.nextId s.activeUmi a

/-- The steps that are hidden from the group. -/
abbrev hiddenFrom (group : SvId → Bool) (s : Sys A elf) (a : MemStep elf) : Bool :=
  hidden group s.activeUmi a

/-- The two states are the same for the group. -/
def AgreeOn (mem₀ : Pfn → Page) (group : SvId → Bool) (s t : Sys A elf) : Prop :=
  ∃ p q, Follows mem₀ s p ∧ Follows mem₀ t q ∧ PrivateCopies.Agree group p q

theorem AgreeOn.symm {t : Sys A elf} (hagree : AgreeOn mem₀ group s t) :
    AgreeOn mem₀ group t s := by
  obtain ⟨p, q, hp, hq, hpq⟩ := hagree
  exact ⟨q, p, hq, hp, hpq.symm⟩

/-- A hidden step on one side. -/
theorem AgreeOn.hidden_left {t : Sys A elf} (hagree : AgreeOn mem₀ group s t)
    (horderly : s.OrderlyFor group a) (hhidden : s.hiddenFrom group a = true)
    (hstep : s.step a = some s') : AgreeOn mem₀ group s' t := by
  obtain ⟨p, q, hp, hq, hpq⟩ := hagree
  obtain ⟨p', hp', hfollows⟩ := hp.step horderly.1 hstep
  refine ⟨p', q, hfollows, hq, (PrivateCopies.agree_of_hidden ?_ ?_ hp').symm.trans hpq⟩
  · rintro c id rfl
    rw [hp.simulates.activeUmi]
    simpa using (Bool.and_eq_true_iff.mp (step_eq_some.mp hstep).1).1
  · rw [hp.simulates.activeUmi]
    exact hhidden

/-- A step on both sides. -/
theorem AgreeOn.step {t t' : Sys A elf} (hagree : AgreeOn mem₀ group s t)
    (horderly : s.OrderlyFor group a) (horderly' : t.OrderlyFor group a)
    (hvisible : s.hiddenFrom group a = false) (hstep : s.step a = some s')
    (hstep' : t.step a = some t') : AgreeOn mem₀ group s' t' := by
  obtain ⟨p, q, hp, hq, hpq⟩ := hagree
  obtain ⟨p', hp', hfollows⟩ := hp.step horderly.1 hstep
  obtain ⟨q', hq', hfollows'⟩ := hq.step horderly'.1 hstep'
  refine ⟨p', q', hfollows, hfollows', hpq.step ?_ ?_ ?_ hp' hq'⟩
  · rw [hp.simulates.nextId, hp.simulates.activeUmi]
    exact horderly.2
  · rw [hq.simulates.nextId, hq.simulates.activeUmi]
    exact horderly'.2
  · rw [hp.simulates.activeUmi]
    exact hvisible

/-- Guests are isolated: two orderly runs that are the same but for steps hidden from a closed group, which
may be different ones, at other places or more of them, are the same for the members of the group.  They
are on the same cores and have read the same values, and each sees the same content of its pages. -/
theorem isolated (boot : BootMem A elf) (group : SvId → Bool) (steps steps' : List (MemStep elf))
    (horderly : AllSteps step (OrderlyFor group) (init boot) steps)
    (horderly' : AllSteps step (OrderlyFor group) (init boot) steps')
    (hpurge : purge step (hiddenFrom group) (init boot) steps =
      purge step (hiddenFrom group) (init boot) steps') {t : Sys A elf}
    (hrun : Foundations.run step (init boot) steps = some s)
    (hrun' : Foundations.run step (init boot) steps' = some t) :
    s.reads.filter (fun r => group r.1) = t.reads.filter (fun r => group r.1) ∧
    (∀ c, (s.activeUmi c).filter group = (t.activeUmi c).filter group) ∧
    ∀ id sv sv', group id = true → s.svs id = some sv → t.svs id = some sv' → Attached sv →
      Attached sv' → ∀ va, validAddress va = true →
        s.pageContent id sv.image va = t.pageContent id sv'.image va := by
  obtain ⟨p, q, hp, hq, hpq⟩ : AgreeOn boot.h.mem group s t := by
    have hinit : AgreeOn boot.h.mem group (init boot) (init boot) :=
      ⟨_, _, follows_init boot, follows_init boot, .refl group _⟩
    refine agree_of_purge (C := OrderlyFor group) ?_ ?_ ?_ hinit horderly horderly' hrun hrun' hpurge
    · intro s t a t' horderly hagree hhidden hstep
      exact (hagree.symm.hidden_left horderly hhidden hstep).symm
    · intro s t a s' horderly hagree hhidden hstep
      exact hagree.hidden_left horderly hhidden hstep
    · intro s t a s' t' horderly horderly' hagree hvisible _ hstep hstep'
      exact hagree.step horderly horderly' hvisible hstep hstep'
  refine ⟨?_, ?_, ?_⟩
  · rw [← hp.simulates.reads, ← hq.simulates.reads]
    exact hpq.reads
  · rw [← hp.simulates.activeUmi, ← hq.simulates.activeUmi]
    exact hpq.activeUmi
  · intro id sv sv' hid hsv hsv' hattached hattached' va hva
    obtain ⟨content, hcontent, hsees⟩ := hp.simulates.sees id sv hsv
    obtain ⟨content', hcontent', hsees'⟩ := hq.simulates.sees id sv' hsv'
    obtain rfl := Option.some.inj (hcontent.symm.trans ((hpq.contents id hid).trans hcontent'))
    exact (hsees hattached va hva).symm.trans (hsees' hattached' va hva)

/-- A memory with eight free frames. -/
def twoGuestsBoot : BootMem (Allocator.freeList Pfn) ∅ where
  h := { mem := fun _ _ => 0, pal := [1, 2, 3, 4, 5, 6, 7, 8], freeCalls := [] }
  used := by simp

/-- Two instances of an image are loaded on two cores. -/
def loadBoth : List (MemStep ∅) :=
  [.createSV bssImage, .newInstance 0, .newInstance 0, .load 0 1, .load 1 2]

/-- One of them writes to its page before the other reads there, or does not. -/
theorem isolated_writeOfOther :
    ∃ s t, Foundations.run step (init twoGuestsBoot)
        (loadBoth ++ [.write 1 slotStartVAddr 2 (-1), .read 0 slotStartVAddr]) = some s ∧
      Foundations.run step (init twoGuestsBoot) (loadBoth ++ [.read 0 slotStartVAddr]) = some t ∧
      s.reads.filter (fun r => r.1 != 2) = t.reads.filter fun r => r.1 != 2 := by
  have horderly : ∀ tail : List (MemStep ∅),
      (∀ a ∈ tail, ∀ s : Sys (Allocator.freeList Pfn) ∅, s.OrderlyFor (fun id => id != 2) a) →
      AllSteps step (OrderlyFor fun id => id != 2) (init twoGuestsBoot) (loadBoth ++ tail) := by
    refine fun tail htail => ⟨⟨⟨trivial, trivial⟩, trivial⟩, fun s₁ h₁ =>
      ⟨⟨⟨trivial, trivial⟩, fun _ => rfl⟩, fun s₂ h₂ => ⟨⟨⟨trivial, trivial⟩, fun _ => rfl⟩,
        fun s₃ h₃ => ⟨⟨⟨trivial, ?_⟩, trivial⟩, fun s₄ h₄ => ⟨⟨⟨trivial, ?_⟩, trivial⟩,
          fun _ _ => allSteps_of_mem htail⟩⟩⟩⟩⟩
    all_goals
      obtain rfl := Option.some.inj h₁
      obtain rfl := Option.some.inj h₂
      obtain rfl := Option.some.inj h₃
    · intro sv hsv _
      obtain rfl := Option.some.inj hsv
      rfl
    · obtain rfl := Option.some.inj h₄
      intro sv hsv _
      obtain rfl := Option.some.inj hsv
      rfl
  have hwritten : ((Foundations.run step (init twoGuestsBoot) loadBoth).bind fun s =>
      (s.step (.write 1 slotStartVAddr 2 (-1))).bind fun s =>
        s.step (.read 0 slotStartVAddr)).isSome = true := by
    decide
  have hread : ((Foundations.run step (init twoGuestsBoot) loadBoth).bind fun s =>
      s.step (.read 0 slotStartVAddr)).isSome = true := by
    decide
  have hactive : ((Foundations.run step (init twoGuestsBoot) loadBoth).bind fun s =>
      (s.step (.write 1 slotStartVAddr 2 (-1))).map fun s' =>
        (s.activeUmi 0, s.activeUmi 1, s'.activeUmi 0)) = some (some 1, some 2, some 1) := by
    decide
  simp only [Option.isSome_iff_exists, Option.bind_eq_some_iff] at hwritten hread
  obtain ⟨s, s₅, h₅, s₆, h₆, hs⟩ := hwritten
  obtain ⟨t, s₅', h₅', ht⟩ := hread
  obtain rfl := Option.some.inj (h₅.symm.trans h₅')
  simp only [h₅, h₆, Option.bind_some, Option.map_some, Option.some.injEq, Prod.mk.injEq] at hactive
  obtain ⟨hzero, hone, hzero'⟩ := hactive
  have hrun : Foundations.run step (init twoGuestsBoot)
      (loadBoth ++ [.write 1 slotStartVAddr 2 (-1), .read 0 slotStartVAddr]) = some s := by
    rw [run_append, h₅, Option.bind_some, run_cons, h₆, Option.bind_some, run_cons, hs]
    rfl
  have hrun' : Foundations.run step (init twoGuestsBoot) (loadBoth ++ [.read 0 slotStartVAddr]) =
      some t := by
    rw [run_append, h₅, Option.bind_some, run_cons, ht]
    rfl
  have hpurge : purge step (hiddenFrom fun id => id != 2) (init twoGuestsBoot)
      (loadBoth ++ [.write 1 slotStartVAddr 2 (-1), .read 0 slotStartVAddr]) =
        purge step (hiddenFrom fun id => id != 2) (init twoGuestsBoot)
          (loadBoth ++ [.read 0 slotStartVAddr]) := by
    rw [purge_append h₅, purge_append h₅, purge_cons_of_hidden h₆ (by simp [hidden, hone]),
      purge_cons_of_visible hs (by simp [hidden, hzero']),
      purge_cons_of_visible ht (by simp [hidden, hzero])]
    rfl
  exact ⟨s, t, hrun, hrun', (isolated twoGuestsBoot _ _ _
    (horderly _ (by simp [OrderlyFor, Orderly, DestroysLast, Closed]))
    (horderly _ (by simp [OrderlyFor, Orderly, DestroysLast, Closed])) hpurge hrun hrun').1⟩

end Sys

end Umm
