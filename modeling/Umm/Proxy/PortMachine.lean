import Umm.Foundations.Run
import Umm.Proxy.UmProxy

/-!
# Port translations on every core

`PortState` is the network proxy of the whole machine: one `ProxyRoot` and a `UmProxy` for each
core.  A step is one call on one core, and a run is any interleaving of calls over any number of
cores and instances.

`PoolLasts` is the condition that no step allocates from an empty pool.  Under it,
`step_cases` says once what a step can do to the master map, and `mem_cache_step` what it can leave
in a cache.
-/

namespace Umm

open Foundations

/-- The network proxies of all cores, with the log of the outbound translations. -/
structure PortState where
  /-- The shared root. -/
  root : ProxyRoot
  /-- The proxy of each core. -/
  proxies : UmiCore → UmProxy
  /-- The translated endpoints and the ports they were given, the latest first. -/
  sent : List (InternalPort × Port)

/-- One call of the proxy on one core. -/
inductive PortStep where
  /-- `SetActiveInstance`. -/
  | setActiveInstance (core : UmiCore) (id : UmiId)
  /-- `RemoveInstanceState`. -/
  | removeInstanceState (core : UmiCore) (id : UmiId) (srcPorts : Option (List Port))
  /-- `external_portmap_lookup`. -/
  | externalPortmapLookup (core : UmiCore) (nport : Port)
  /-- `swizzle_port_in`. -/
  | swizzlePortIn (core : UmiCore) (nport : Port)
  /-- `swizzle_port_out`. -/
  | swizzlePortOut (core : UmiCore) (iport : Port)

namespace PortState

/-- The state after construction. -/
def init : PortState where
  root := ProxyRoot.init
  proxies := fun _ => UmProxy.init
  sent := []

/-- The endpoint an outbound translation of `iport` on `core` stands for. -/
def endpoint (s : PortState) (core : UmiCore) (iport : Port) : InternalPort :=
  internalPort iport (s.proxies core).umiId core

/-- The state with another proxy on `core`. -/
def setProxy (s : PortState) (core : UmiCore) (x : UmProxy) : PortState :=
  { s with proxies := Function.update s.proxies core x }

/-- Perform one call. -/
def perform (s : PortState) : PortStep → PortState
  | .setActiveInstance core id => s.setProxy core ((s.proxies core).setActiveInstance id)
  | .removeInstanceState core id srcPorts =>
    s.setProxy core ((s.proxies core).removeInstanceState id srcPorts)
  | .externalPortmapLookup core nport =>
    s.setProxy core (UmProxy.externalPortmapLookup s.root (s.proxies core) nport).2
  | .swizzlePortIn core nport =>
    s.setProxy core (UmProxy.swizzlePortIn s.root (s.proxies core) nport).2
  | .swizzlePortOut core iport =>
    let (nport, root, x) := UmProxy.swizzlePortOut s.root core (s.proxies core) iport
    { s.setProxy core x with root, sent := (s.endpoint core iport, nport) :: s.sent }

/-- The machine: every call returns. -/
def step (s : PortState) (a : PortStep) : Option PortState :=
  some (s.perform a)

/-- The step `a` allocates a port, for the endpoint `e`: no cache entry and no mapping has it. -/
def Allocates (s : PortState) (a : PortStep) (e : InternalPort) : Prop :=
  ∃ core iport, a = .swizzlePortOut core iport ∧ e = s.endpoint core iport ∧
    (s.proxies core).portMapCache.findRight e = none ∧ s.root.masterPortMap.findRight e = none

/-- The pool is not exhausted: a step that allocates finds a port. -/
def PoolLasts (s : PortState) (a : PortStep) : Prop :=
  ∀ e, s.Allocates a e → s.root.portSet ≠ []

/-- The ports that inbound packets are translated from have been handed out. -/
def KnownPort (s : PortState) : PortStep → Prop
  | .externalPortmapLookup _ nport => ∃ e, (nport, e) ∈ s.root.masterPortMap
  | .swizzlePortIn _ nport => ∃ e, (nport, e) ∈ s.root.masterPortMap
  | _ => True

/-- What the inbound translation of `nport` on `core` returns now. -/
def lookup (s : PortState) (core : UmiCore) (nport : Port) : InternalPort :=
  (UmProxy.externalPortmapLookup s.root (s.proxies core) nport).1

theorem step_eq_some {s s' : PortState} {a : PortStep} :
    s.step a = some s' ↔ s.perform a = s' := by
  simp [step]

@[simp] theorem run_step_cons (s : PortState) (a : PortStep) (as : List PortStep) :
    run step s (a :: as) = run step (s.perform a) as := rfl

@[simp] theorem allSteps_step_cons {C : PortState → PortStep → Prop} {s : PortState}
    {a : PortStep} {as : List PortStep} :
    AllSteps step C s (a :: as) ↔ C s a ∧ AllSteps step C (s.perform a) as := by
  simp [AllSteps, step]

/-- With ports in the pool any step finds one. -/
theorem poolLasts_of_eq_cons {s : PortState} {p : Port} {ps : List Port}
    (h : s.root.portSet = p :: ps) (a : PortStep) : s.PoolLasts a :=
  fun _ _ => h ▸ List.cons_ne_nil p ps

@[simp] theorem sent_perform_externalPortmapLookup (s : PortState) (core : UmiCore)
    (nport : Port) : (s.perform (.externalPortmapLookup core nport)).sent = s.sent := rfl

/-- A step that allocates takes the first port of the pool and maps it to the endpoint. -/
theorem perform_of_allocates {s : PortState} {a : PortStep} {e : InternalPort} {p : Port}
    {ps : List Port} (h : s.Allocates a e) (hps : s.root.portSet = p :: ps) :
    (s.perform a).root = ⟨ps, s.root.masterPortMap.insert p e⟩ ∧
      (s.perform a).sent = (e, p) :: s.sent := by
  obtain ⟨core, iport, rfl, rfl, hmiss, hnew⟩ := h
  rcases UmProxy.swizzlePortOut_cases s.root core (s.proxies core) iport with
    ⟨q, hq, -⟩ | ⟨-, heq⟩
  · exact absurd hq (Bimap.findRight_eq_none.mp hmiss q)
  · rcases s.root.setupExternalPortMapping_cases core (s.proxies core).umiId iport with
      ⟨q, hq, -⟩ | ⟨-, q, qs, hqs, hset⟩ | ⟨-, hempty, -⟩
    · exact absurd hq (Bimap.findRight_eq_none.mp hnew q)
    · obtain ⟨rfl, rfl⟩ := List.cons.inj (hps.symm.trans hqs)
      rw [hset] at heq
      simp [perform, heq, endpoint]
    · exact absurd (hps.symm.trans hempty) (List.cons_ne_nil p ps)

/-- What a step can do to the root and the log: nothing, log a port the endpoint already has on this
core or in the master map, or allocate the first port of the pool. -/
theorem step_cases {s : PortState} {a : PortStep} (hpool : s.PoolLasts a) :
    ((s.perform a).root = s.root ∧ (s.perform a).sent = s.sent) ∨
    (∃ core iport p, a = .swizzlePortOut core iport ∧
      ((p, s.endpoint core iport) ∈ (s.proxies core).portMapCache ∨
        (p, s.endpoint core iport) ∈ s.root.masterPortMap) ∧
      (s.perform a).root = s.root ∧
      (s.perform a).sent = (s.endpoint core iport, p) :: s.sent) ∨
    (∃ e p ps, s.Allocates a e ∧ s.root.portSet = p :: ps ∧
      (s.perform a).root = ⟨ps, s.root.masterPortMap.insert p e⟩ ∧
      (s.perform a).sent = (e, p) :: s.sent) := by
  cases a with
  | setActiveInstance core id => exact Or.inl ⟨rfl, rfl⟩
  | removeInstanceState core id srcPorts => exact Or.inl ⟨rfl, rfl⟩
  | externalPortmapLookup core nport => exact Or.inl ⟨rfl, rfl⟩
  | swizzlePortIn core nport => exact Or.inl ⟨rfl, rfl⟩
  | swizzlePortOut core iport =>
    right
    rcases UmProxy.swizzlePortOut_cases s.root core (s.proxies core) iport with
      ⟨p, hp, heq⟩ | ⟨hmiss, heq⟩
    · exact Or.inl ⟨core, iport, p, rfl, Or.inl hp, by simp [perform, heq], by simp [perform, heq]⟩
    · rcases s.root.setupExternalPortMapping_cases core (s.proxies core).umiId iport with
        ⟨p, hp, hset⟩ | ⟨hnew, p, ps, hps, -⟩ | ⟨hnew, hempty, -⟩
      · rw [hset] at heq
        exact Or.inl ⟨core, iport, p, rfl, Or.inr hp, by simp [perform, heq],
          by simp [perform, heq]⟩
      · have halloc : s.Allocates (.swizzlePortOut core iport) (s.endpoint core iport) :=
          ⟨core, iport, rfl, rfl, hmiss, hnew⟩
        exact Or.inr ⟨s.endpoint core iport, p, ps, halloc, hps, perform_of_allocates halloc hps⟩
      · exact absurd hempty (hpool _ ⟨core, iport, rfl, rfl, hmiss, hnew⟩)

/-- The root after a step: unchanged, or the root after one request. -/
theorem root_perform_cases (s : PortState) (a : PortStep) :
    (s.perform a).root = s.root ∨ ∃ core id port,
      (s.perform a).root = (s.root.setupExternalPortMapping core id port).2 := by
  cases a with
  | swizzlePortOut core iport =>
    rcases UmProxy.swizzlePortOut_cases s.root core (s.proxies core) iport with
      ⟨p, -, heq⟩ | ⟨-, heq⟩
    · exact Or.inl (by simp [perform, heq])
    · exact Or.inr ⟨core, (s.proxies core).umiId, iport, by simp [perform, heq]⟩
  | _ => exact Or.inl rfl

/-- A step keeps the ports of the pool fresh. -/
theorem portsFresh_perform {s : PortState} (h : s.root.PortsFresh) (a : PortStep) :
    (s.perform a).root.PortsFresh := by
  rcases s.root_perform_cases a with heq | ⟨core, id, port, heq⟩ <;> rw [heq]
  · exact h
  · exact h.setupExternalPortMapping core id port

/-- A step forgets no mapping. -/
theorem mem_masterPortMap_perform {s : PortState} {y : Port × InternalPort}
    (hy : y ∈ s.root.masterPortMap) (a : PortStep) : y ∈ (s.perform a).root.masterPortMap := by
  rcases s.root_perform_cases a with heq | ⟨core, id, port, heq⟩ <;> rw [heq]
  · exact hy
  · exact ProxyRoot.mem_setupExternalPortMapping hy

/-- Replacing the proxy of a core changes the cache of that core only. -/
theorem mem_cache_setProxy {s : PortState} {core c : UmiCore} {x : UmProxy}
    {y : Port × InternalPort} (hy : y ∈ ((s.setProxy c x).proxies core).portMapCache) :
    (core = c ∧ y ∈ x.portMapCache) ∨ y ∈ (s.proxies core).portMapCache := by
  by_cases h : core = c
  · subst h
    exact Or.inl ⟨rfl, by simpa [setProxy] using hy⟩
  · exact Or.inr (by simpa [setProxy, h] using hy)

/-- What a step can leave in a cache: what was there, the answer the root gave to a lookup, or a
pair of the master map. -/
theorem mem_cache_perform {s : PortState} {a : PortStep} (hfresh : s.root.PortsFresh)
    (hpool : s.PoolLasts a) {core : UmiCore} {y : Port × InternalPort}
    (hy : y ∈ ((s.perform a).proxies core).portMapCache) :
    y ∈ (s.proxies core).portMapCache ∨
    (∃ nport, (a = .externalPortmapLookup core nport ∨ a = .swizzlePortIn core nport) ∧
      y = (nport, s.root.externalPortLookup nport)) ∨
    y ∈ (s.perform a).root.masterPortMap := by
  cases a with
  | setActiveInstance c id =>
    rcases mem_cache_setProxy hy with ⟨rfl, hy⟩ | hy
    · exact Or.inl hy
    · exact Or.inl hy
  | removeInstanceState c id srcPorts =>
    rcases mem_cache_setProxy hy with ⟨rfl, hy⟩ | hy
    · exact Or.inl (by simpa using hy)
    · exact Or.inl hy
  | externalPortmapLookup c nport =>
    rcases mem_cache_setProxy hy with ⟨rfl, hy⟩ | hy
    · refine (UmProxy.mem_cache_externalPortmapLookup hy).imp_right fun hy => Or.inl ?_
      exact ⟨nport, Or.inl rfl, hy⟩
    · exact Or.inl hy
  | swizzlePortIn c nport =>
    rcases mem_cache_setProxy hy with ⟨rfl, hy⟩ | hy
    · refine (UmProxy.mem_cache_externalPortmapLookup hy).imp_right fun hy => Or.inl ?_
      exact ⟨nport, Or.inr rfl, hy⟩
    · exact Or.inl hy
  | swizzlePortOut c iport =>
    rcases UmProxy.swizzlePortOut_cases s.root c (s.proxies c) iport with
      ⟨p, -, heq⟩ | ⟨hmiss, heq⟩ <;> simp only [perform, heq] at hy ⊢ <;>
      rcases mem_cache_setProxy hy with ⟨rfl, hy⟩ | hy
    · exact Or.inl hy
    · exact Or.inl hy
    · rcases Bimap.mem_insert.mp hy with hy | ⟨rfl, -⟩
      · exact Or.inl hy
      · exact Or.inr (Or.inr (hfresh.mem_of_setupExternalPortMapping fun hnew =>
          hpool _ ⟨core, iport, rfl, rfl, hmiss, hnew⟩))
    · exact Or.inl hy

/-- A step forgets no cache entry. -/
theorem mem_cache_perform_of_mem {s : PortState} {core : UmiCore} {y : Port × InternalPort}
    (hy : y ∈ (s.proxies core).portMapCache) (a : PortStep) :
    y ∈ ((s.perform a).proxies core).portMapCache := by
  have hset : ∀ c x, (core = c → y ∈ x.portMapCache) →
      y ∈ ((s.setProxy c x).proxies core).portMapCache := by
    intro c x hx
    by_cases h : core = c
    · subst h
      simpa [setProxy] using hx rfl
    · simpa [setProxy, h] using hy
  cases a with
  | setActiveInstance c id => exact hset c _ fun h => h ▸ hy
  | removeInstanceState c id srcPorts => exact hset c _ fun h => by simpa [← h] using hy
  | externalPortmapLookup c nport =>
    exact hset c _ fun h => UmProxy.mem_cache_externalPortmapLookup_of_mem (h ▸ hy) nport
  | swizzlePortIn c nport =>
    exact hset c _ fun h => UmProxy.mem_cache_externalPortmapLookup_of_mem (h ▸ hy) nport
  | swizzlePortOut c iport =>
    exact hset c _ fun h => UmProxy.mem_cache_swizzlePortOut_of_mem (h ▸ hy) c iport

/-- The inbound translation of a cached port. -/
theorem lookup_of_mem_cache {s : PortState} {core : UmiCore} {nport : Port} {e : InternalPort}
    (h : (nport, e) ∈ (s.proxies core).portMapCache) : s.lookup core nport = e := by
  rw [lookup, UmProxy.externalPortmapLookup_of_mem h]

/-- The inbound translation of a port, cached or not, reads a pair of the cache or of the master
map. -/
theorem lookup_cases (s : PortState) (core : UmiCore) (nport : Port) :
    (nport, s.lookup core nport) ∈ (s.proxies core).portMapCache ∨
      s.lookup core nport = s.root.externalPortLookup nport := by
  cases hf : (s.proxies core).portMapCache.findLeft nport with
  | some e =>
    have he := Bimap.findLeft_eq_some.mp hf
    exact Or.inl ((lookup_of_mem_cache he).symm ▸ he)
  | none => exact Or.inr (by rw [lookup, UmProxy.externalPortmapLookup_of_findLeft_eq_none hf])

end PortState

end Umm
