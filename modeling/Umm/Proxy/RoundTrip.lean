import Umm.Proxy.PortMachine

/-!
# Translating ports back and forth

Outbound and inbound translations are inverse to each other as long as every inbound translation is
of a port that was handed out before: then every cache is a part of the master map (`Coherent`), and
`round_trip` follows.

A lookup of a port that is not mapped yet leaves the null mapping in the cache of its core, and the
cache is never invalidated.  `NearlyCoherent` is what is left of the invariant, `Faithful` is the
property of the states in which every mapped port is translated to its endpoint on every core, and
`faithful_iff` says which runs stay in it: those that never allocate a port some core has cached.
-/

namespace Umm

open Foundations

namespace PortState

/-! ## Lookups of ports that were handed out -/

/-- Every cache and the log are parts of the master map. -/
structure Coherent (s : PortState) : Prop where
  /-- The ports of the pool are unmapped. -/
  fresh : s.root.PortsFresh
  /-- A cached pair is a pair of the master map. -/
  cached : ∀ core y, y ∈ (s.proxies core).portMapCache → y ∈ s.root.masterPortMap
  /-- A port in the log stands for the endpoint it was given to. -/
  sent : ∀ e p, (e, p) ∈ s.sent → (p, e) ∈ s.root.masterPortMap

theorem coherent_init : Coherent init where
  fresh := ProxyRoot.portsFresh_init
  cached := fun _ _ hy => absurd hy (Bimap.not_mem_empty _)
  sent := fun _ _ h => absurd h List.not_mem_nil

/-- A translation that finds a port, of a port that is known, keeps the caches coherent. -/
theorem Coherent.perform {s : PortState} (h : s.Coherent) {a : PortStep} (hpool : s.PoolLasts a)
    (hknown : s.KnownPort a) : (s.perform a).Coherent where
  fresh := portsFresh_perform h.fresh a
  cached := by
    intro core y hy
    rcases mem_cache_perform h.fresh hpool hy with hy | ⟨nport, ha, rfl⟩ | hy
    · exact mem_masterPortMap_perform (h.cached core y hy) a
    · have hmapped : ∃ e, (nport, e) ∈ s.root.masterPortMap := by
        rcases ha with rfl | rfl <;> exact hknown
      obtain ⟨e, he⟩ := hmapped
      rw [ProxyRoot.externalPortLookup_of_mem he]
      exact mem_masterPortMap_perform he a
    · exact hy
  sent := by
    intro e p hep
    rcases step_cases hpool with
      ⟨-, hsent⟩ | ⟨core, iport, q, rfl, hq, -, hsent⟩ | ⟨e', q, ps, hnew, hps, hroot, hsent⟩
    · exact mem_masterPortMap_perform (h.sent e p (hsent ▸ hep)) a
    · rw [hsent] at hep
      rcases List.mem_cons.mp hep with heq | hep
      · obtain ⟨rfl, rfl⟩ := Prod.mk.inj heq
        exact mem_masterPortMap_perform (hq.elim (h.cached core _) id) _
      · exact mem_masterPortMap_perform (h.sent e p hep) _
    · rw [hsent] at hep
      rcases List.mem_cons.mp hep with heq | hep
      · obtain ⟨rfl, rfl⟩ := Prod.mk.inj heq
        obtain ⟨-, -, -, -, -, hright⟩ := hnew
        rw [hroot]
        exact Bimap.mem_insert_self
          (Bimap.findLeft_eq_none.mpr (h.fresh.unmapped p (hps ▸ List.mem_cons_self))) hright
      · exact mem_masterPortMap_perform (h.sent e p hep) a

/-- In a coherent state a mapped port is translated to its endpoint on every core. -/
theorem Coherent.lookup_eq {s : PortState} (h : s.Coherent) {p : Port} {e : InternalPort}
    (he : (p, e) ∈ s.root.masterPortMap) (core : UmiCore) : s.lookup core p = e := by
  rcases s.lookup_cases core p with hmem | hroot
  · exact Bimap.eq_right (h.cached core _ hmem) he
  · rw [hroot, ProxyRoot.externalPortLookup_of_mem he]

/-- Over any interleaving in which the pool lasts and inbound translations are of ports that were
handed out, an endpoint has one external port and that port is translated back to the endpoint on
every core. -/
theorem round_trip {as : List PortStep} {t : PortState}
    (hlawful : AllSteps step (fun s a => s.PoolLasts a ∧ s.KnownPort a) init as)
    (hrun : run step init as = some t) :
    (∀ e p p', (e, p) ∈ t.sent → (e, p') ∈ t.sent → p = p') ∧
    ∀ e p, (e, p) ∈ t.sent → ∀ core, t.lookup core p = e ∧
      (UmProxy.swizzlePortIn t.root (t.proxies core) p).1 = e.port := by
  have ht : t.Coherent := by
    refine run_invariant ?_ coherent_init hlawful hrun
    rintro s a s' ⟨hpool, hknown⟩ hs hs'
    exact step_eq_some.mp hs' ▸ hs.perform hpool hknown
  refine ⟨fun e p p' hp hp' => Bimap.eq_left (ht.sent e p hp) (ht.sent e p' hp'), ?_⟩
  intro e p hp core
  have hlookup := ht.lookup_eq (ht.sent e p hp) core
  exact ⟨hlookup, congrArg InternalPort.port hlookup⟩

/-- Instance 2 sends from port 80 on core 0 and the answer arrives on core 1: the run is lawful, and
the port it was given is translated back to it everywhere. -/
theorem round_trip_across_cores : ∃ t, run step init
    [.setActiveInstance 0 2, .swizzlePortOut 0 80, .externalPortmapLookup 1 256] = some t ∧
    (⟨2, 0, 80⟩, 256) ∈ t.sent ∧ ∀ core, t.lookup core 256 = ⟨2, 0, 80⟩ := by
  obtain ⟨ps, hps⟩ := ProxyRoot.portInterval_eq_cons
  have hinit : init.root.portSet = 256 :: ps := ProxyRoot.portSet_init.trans hps
  have hpool : (init.perform (.setActiveInstance 0 2)).root.portSet = 256 :: ps := hinit
  obtain ⟨hroot, hsent⟩ := perform_of_allocates (e := ⟨2, 0, 80⟩)
    (a := .swizzlePortOut 0 80) ⟨0, 80, rfl, rfl, rfl, rfl⟩ hpool
  have hmapped : (256, ⟨2, 0, 80⟩) ∈ ((init.perform (.setActiveInstance 0 2)).perform
      (.swizzlePortOut 0 80)).root.masterPortMap := by
    rw [hroot]
    exact Bimap.mem_insert_self rfl rfl
  have hlawful : AllSteps step (fun s a => s.PoolLasts a ∧ s.KnownPort a) init
      [.setActiveInstance 0 2, .swizzlePortOut 0 80, .externalPortmapLookup 1 256] := by
    simp only [allSteps_step_cons]
    exact ⟨⟨poolLasts_of_eq_cons hinit _, trivial⟩, ⟨poolLasts_of_eq_cons hpool _, trivial⟩,
      ⟨fun e he => by simp [Allocates] at he, _, hmapped⟩, trivial⟩
  simp only [run_step_cons, run_nil, Option.some.injEq, exists_eq_left']
  rw [sent_perform_externalPortmapLookup, hsent]
  refine ⟨List.mem_cons_self, fun core => ((round_trip hlawful rfl).2 _ _ ?_ core).1⟩
  rw [sent_perform_externalPortmapLookup, hsent]
  exact List.mem_cons_self

/-! ## Lookups of ports that are not mapped yet -/

/-- A cached pair is a pair of the master map, or the null mapping of a port that is unmapped. -/
structure NearlyCoherent (s : PortState) : Prop where
  /-- The ports of the pool are unmapped. -/
  fresh : s.root.PortsFresh
  /-- What a cache may hold. -/
  cached : ∀ core p e, (p, e) ∈ (s.proxies core).portMapCache → (p, e) ∈ s.root.masterPortMap ∨
    e = nullPortMapping ∧ ∀ e', (p, e') ∉ s.root.masterPortMap

/-- Every port of the master map is translated to its endpoint on every core. -/
def Faithful (s : PortState) : Prop :=
  ∀ p e, (p, e) ∈ s.root.masterPortMap → ∀ core, s.lookup core p = e

/-- When the step allocates a port for an endpoint other than the null mapping, no core has cached a
lookup of that port. -/
def UncachedAllocation (s : PortState) (a : PortStep) : Prop :=
  ∀ e p ps, s.Allocates a e → s.root.portSet = p :: ps → e ≠ nullPortMapping →
    ∀ core e', (p, e') ∉ (s.proxies core).portMapCache

theorem nearlyCoherent_init : NearlyCoherent init where
  fresh := ProxyRoot.portsFresh_init
  cached := fun _ _ _ h => absurd h (Bimap.not_mem_empty _)

theorem NearlyCoherent.faithful {s : PortState} (h : s.NearlyCoherent) : s.Faithful := by
  intro p e he core
  rcases s.lookup_cases core p with hmem | hroot
  · rcases h.cached core p _ hmem with hmaster | ⟨-, hunmapped⟩
    · exact Bimap.eq_right hmaster he
    · exact absurd he (hunmapped e)
  · rw [hroot, ProxyRoot.externalPortLookup_of_mem he]

/-- The mappings after a step: the old ones, and the one a step that allocates adds. -/
theorem mem_masterPortMap_of_perform {s : PortState} {a : PortStep} (hpool : s.PoolLasts a)
    {p : Port} {e : InternalPort} (h : (p, e) ∈ (s.perform a).root.masterPortMap) :
    (p, e) ∈ s.root.masterPortMap ∨ s.Allocates a e ∧ ∃ ps, s.root.portSet = p :: ps := by
  rcases step_cases hpool with
    ⟨hroot, -⟩ | ⟨core, iport, q, rfl, -, hroot, -⟩ | ⟨e', q, ps, hnew, hps, hroot, -⟩
  · exact Or.inl (hroot ▸ h)
  · exact Or.inl (hroot ▸ h)
  · rw [hroot] at h
    rcases Bimap.mem_insert.mp h with h | ⟨heq, -⟩
    · exact Or.inl h
    · obtain ⟨rfl, rfl⟩ := Prod.mk.inj heq
      exact Or.inr ⟨hnew, ps, hps⟩

/-- A step that allocates no port some core has cached keeps the caches nearly coherent. -/
theorem NearlyCoherent.perform {s : PortState} (h : s.NearlyCoherent) {a : PortStep}
    (hpool : s.PoolLasts a) (hcond : s.UncachedAllocation a) : (s.perform a).NearlyCoherent where
  fresh := portsFresh_perform h.fresh a
  cached := by
    intro core p e he
    rcases mem_cache_perform h.fresh hpool he with hold | ⟨nport, ha, heq⟩ | hmaster
    · rcases h.cached core p e hold with hmaster | ⟨rfl, hunmapped⟩
      · exact Or.inl (mem_masterPortMap_perform hmaster a)
      · by_cases hmapped : ∃ e', (p, e') ∈ (s.perform a).root.masterPortMap
        · obtain ⟨e', he'⟩ := hmapped
          rcases mem_masterPortMap_of_perform hpool he' with hmem | ⟨hnew, ps, hps⟩
          · exact absurd hmem (hunmapped e')
          · have hnull : e' = nullPortMapping := by
              by_contra hne
              exact hcond e' p ps hnew hps hne core _ hold
            exact Or.inl (hnull ▸ he')
        · exact Or.inr ⟨rfl, not_exists.mp hmapped⟩
    · have hroot : (s.perform a).root = s.root := by rcases ha with rfl | rfl <;> rfl
      obtain ⟨rfl, rfl⟩ := Prod.mk.inj heq
      rw [hroot]
      by_cases hmapped : ∃ e', (p, e') ∈ s.root.masterPortMap
      · obtain ⟨e', he'⟩ := hmapped
        exact Or.inl ((ProxyRoot.externalPortLookup_of_mem he').symm ▸ he')
      · have hunmapped := not_exists.mp hmapped
        exact Or.inr ⟨ProxyRoot.externalPortLookup_of_forall_not_mem hunmapped, hunmapped⟩
    · exact Or.inl hmaster

/-- Allocating a port that some core has cached leaves that core with the wrong translation. -/
theorem NearlyCoherent.not_faithful_perform {s : PortState} (h : s.NearlyCoherent) {a : PortStep}
    (hcond : ¬ s.UncachedAllocation a) : ¬ (s.perform a).Faithful := by
  simp only [UncachedAllocation, not_forall, not_not] at hcond
  obtain ⟨e, p, ps, hnew, hps, hne, core, e', hcached⟩ := hcond
  have hp : p ∈ s.root.portSet := hps ▸ List.mem_cons_self
  have hnull : e' = nullPortMapping := by
    rcases h.cached core p e' hcached with hmaster | ⟨hnull, -⟩
    · exact absurd hmaster (h.fresh.unmapped p hp e')
    · exact hnull
  have hright : s.root.masterPortMap.findRight e = none := by
    obtain ⟨-, -, -, -, -, hright⟩ := hnew
    exact hright
  have hmapped : (p, e) ∈ (s.perform a).root.masterPortMap := by
    rw [(perform_of_allocates hnew hps).1]
    exact Bimap.mem_insert_self (Bimap.findLeft_eq_none.mpr (h.fresh.unmapped p hp)) hright
  intro hfaithful
  have hlookup := lookup_of_mem_cache (mem_cache_perform_of_mem hcached a)
  exact hne ((hfaithful p e hmapped core).symm.trans (hlookup.trans hnull))

/-- While the pool lasts, every mapped port is translated to its endpoint on every core throughout a
run if and only if no step of the run allocates a port, for an endpoint other than the null mapping,
that some core has cached. -/
theorem faithful_iff {as : List PortStep} (hpool : AllSteps step PoolLasts init as) :
    AllStates step Faithful init as ↔ AllSteps step UncachedAllocation init as := by
  have hstep : ∀ s a s', s.PoolLasts a → s.UncachedAllocation a → NearlyCoherent s →
      step s a = some s' → NearlyCoherent s' :=
    fun s a s' hpool hcond hs hs' => step_eq_some.mp hs' ▸ hs.perform hpool hcond
  constructor
  · refine fun hfaithful => allSteps_of_allStates hstep ?_ nearlyCoherent_init hpool hfaithful
    exact fun s a _ hs hcond => ⟨s.perform a, rfl, hs.not_faithful_perform hcond⟩
  · intro hcond
    exact allStates_of_invariant (fun _ hs => hs.faithful)
      (fun s a s' h => hstep s a s' h.1 h.2) nearlyCoherent_init (hpool.and hcond)

/-- Instance 2 allocates port 256 on core 0 before any packet for it arrives: all the translations of
that run are faithful. -/
theorem faithful_of_early_allocation : AllStates step Faithful init
    [.setActiveInstance 0 2, .swizzlePortOut 0 80, .externalPortmapLookup 1 256] := by
  obtain ⟨ps, hps⟩ := ProxyRoot.portInterval_eq_cons
  have hinit : init.root.portSet = 256 :: ps := ProxyRoot.portSet_init.trans hps
  have hpool : (init.perform (.setActiveInstance 0 2)).root.portSet = 256 :: ps := hinit
  refine (faithful_iff ?_).mpr ?_ <;> simp only [allSteps_step_cons]
  · exact ⟨poolLasts_of_eq_cons hinit _, poolLasts_of_eq_cons hpool _,
      fun e he => by simp [Allocates] at he, trivial⟩
  · refine ⟨fun e p qs he => by simp [Allocates] at he, ?_,
      fun e p qs he => by simp [Allocates] at he, trivial⟩
    intro e p qs _ _ _ core e' hcached
    rcases mem_cache_setProxy hcached with ⟨-, h⟩ | h
    · exact Bimap.not_mem_empty _ h
    · exact Bimap.not_mem_empty _ h

/-- A stray packet for port 256 reaches core 1 before instance 2 allocates that port on core 0: from
then on core 1 translates the port to the null mapping. -/
theorem not_faithful_of_stray_lookup :
    AllSteps step PoolLasts init
      [.setActiveInstance 0 2, .externalPortmapLookup 1 256, .swizzlePortOut 0 80] ∧
    ¬ AllStates step Faithful init
      [.setActiveInstance 0 2, .externalPortmapLookup 1 256, .swizzlePortOut 0 80] := by
  obtain ⟨ps, hps⟩ := ProxyRoot.portInterval_eq_cons
  have hinit : init.root.portSet = 256 :: ps := ProxyRoot.portSet_init.trans hps
  have hpool₁ : (init.perform (.setActiveInstance 0 2)).root.portSet = 256 :: ps := hinit
  have hpool₂ : ((init.perform (.setActiveInstance 0 2)).perform
      (.externalPortmapLookup 1 256)).root.portSet = 256 :: ps := hinit
  have hnear₁ : (init.perform (.setActiveInstance 0 2)).NearlyCoherent :=
    nearlyCoherent_init.perform (poolLasts_of_eq_cons hinit _)
      fun e p qs he => by simp [Allocates] at he
  have hnear₂ : ((init.perform (.setActiveInstance 0 2)).perform
      (.externalPortmapLookup 1 256)).NearlyCoherent :=
    hnear₁.perform (poolLasts_of_eq_cons hpool₁ _) fun e p qs he => by simp [Allocates] at he
  constructor
  · simp only [allSteps_step_cons]
    exact ⟨poolLasts_of_eq_cons hinit _, poolLasts_of_eq_cons hpool₁ _,
      poolLasts_of_eq_cons hpool₂ _, trivial⟩
  · intro hfaithful
    refine hnear₂.not_faithful_perform (a := .swizzlePortOut 0 80) (fun hcond => ?_)
      (hfaithful.last rfl)
    refine hcond ⟨2, 0, 80⟩ 256 ps ⟨0, 80, rfl, rfl, rfl, rfl⟩ hpool₂ (by decide) 1
      nullPortMapping ?_
    exact Bimap.mem_insert_self rfl rfl

end PortState

end Umm
