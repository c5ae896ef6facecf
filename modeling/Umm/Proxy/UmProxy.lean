import Mathlib.Logic.Function.Basic
import Umm.Proxy.ProxyRoot

/-!
# The proxy of one core

`UmProxy` holds what the network proxy keeps for each core: the active instance, a cache of the
master port map, and the owners of the internal source ports.  The translations
`externalPortmapLookup`, `swizzlePortIn` and `swizzlePortOut` consult the cache first and fill it
from the root on a miss.  An insertion into the cache is silently refused when either side is
already there, so what a call leaves in the cache is stated by `mem_cache_externalPortmapLookup`
and `swizzlePortOut_cases`.
-/

namespace Umm

open Foundations

/-- The state of `UmProxy` on one core. -/
structure UmProxy where
  /-- `umi_id_`: the active instance. -/
  umiId : UmiId
  /-- `port_map_cache_`: the core-local cache of the master port map. -/
  portMapCache : Bimap Port InternalPort
  /-- `host_src_port_map_cache_`: the instance that registered an internal source port. -/
  hostSrcPortMapCache : Port → Option UmiId

namespace UmProxy

/-- The state after construction. -/
def init : UmProxy where
  umiId := nullId
  portMapCache := Bimap.empty
  hostSrcPortMapCache := fun _ => none

/-- `SetActiveInstance`. -/
def setActiveInstance (x : UmProxy) (id : UmiId) : UmProxy :=
  { x with umiId := id }

/-- `RegisterInternalPort`: an owner that is already there stays. -/
def registerInternalPort (x : UmProxy) (id : UmiId) (srcPort : Port) : UmProxy :=
  match x.hostSrcPortMapCache srcPort with
  | some _ => x
  | none =>
    { x with hostSrcPortMapCache := Function.update x.hostSrcPortMapCache srcPort (some id) }

/-- `internal_port_lookup`. -/
def internalPortLookup (x : UmProxy) (hostSrcPort : Port) : UmiId :=
  (x.hostSrcPortMapCache hostSrcPort).getD nullId

/-- What `ProcessIncoming` does with a TCP packet from the host: the instance it is for, or none
when it is dropped.  A `SYN` from a port that nobody has is for the active instance, which gets the
port. -/
def processIncomingInternal (x : UmProxy) (syn : Bool) (hostSrcPort : Port) :
    Option UmiId × UmProxy :=
  if syn then
    let tmpTarget := x.internalPortLookup hostSrcPort
    if tmpTarget ≠ nullId then (some tmpTarget, x)
    else if x.umiId ≠ nullId then (some x.umiId, x.registerInternalPort x.umiId hostSrcPort)
    else (none, x)
  else (some (x.internalPortLookup hostSrcPort), x)

/-- `RemoveInstanceState`; `srcPorts` is `src_ports_` of the instance when the manager still finds
it. -/
def removeInstanceState (x : UmProxy) (id : UmiId) (srcPorts : Option (List Port)) : UmProxy :=
  let x := if x.umiId = id then { x with umiId := 0 } else x
  match srcPorts with
  | none => x
  | some ports =>
    { x with
      hostSrcPortMapCache :=
        ports.foldl (fun owners port => Function.update owners port none) x.hostSrcPortMapCache }

/-- `external_portmap_lookup`, with the assertion on the mapping compiled out: a miss stores what
the root answers, the null mapping included. -/
def externalPortmapLookup (root : ProxyRoot) (x : UmProxy) (nport : Port) :
    InternalPort × UmProxy :=
  match x.portMapCache.findLeft nport with
  | some mapping => (mapping, x)
  | none =>
    let mapping := root.externalPortLookup nport
    (mapping, { x with portMapCache := x.portMapCache.insert nport mapping })

/-- `swizzle_port_in`. -/
def swizzlePortIn (root : ProxyRoot) (x : UmProxy) (nport : Port) : Port × UmProxy :=
  let (mapping, x') := externalPortmapLookup root x nport
  (mapping.port, x')

/-- `swizzle_port_out` on `core`. -/
def swizzlePortOut (root : ProxyRoot) (core : UmiCore) (x : UmProxy) (iport : Port) :
    Port × ProxyRoot × UmProxy :=
  match x.portMapCache.findRight (internalPort iport x.umiId core) with
  | some nport => (nport, root, x)
  | none =>
    let (nport, root') := root.setupExternalPortMapping core x.umiId iport
    (nport, root',
      { x with portMapCache := x.portMapCache.insert nport (internalPort iport x.umiId core) })

/-- The owners after a registration. -/
theorem owner_registerInternalPort (x : UmProxy) (id : UmiId) (srcPort p : Port) :
    (x.registerInternalPort id srcPort).hostSrcPortMapCache p =
      if p = srcPort ∧ x.hostSrcPortMapCache p = none then some id else x.hostSrcPortMapCache p := by
  unfold registerInternalPort
  cases howner : x.hostSrcPortMapCache srcPort with
  | some id' =>
    rw [if_neg]
    rintro ⟨rfl, hnone⟩
    rw [howner] at hnone
    cases hnone
  | none =>
    by_cases hp : p = srcPort
    · subst hp
      rw [if_pos ⟨rfl, howner⟩]
      exact Function.update_self ..
    · rw [if_neg fun h => hp h.1]
      exact Function.update_of_ne hp ..

/-- The owners after the removal of an instance with the ports `ports`. -/
theorem owner_removeInstanceState (x : UmProxy) (id : UmiId) (ports : List Port) (p : Port) :
    (x.removeInstanceState id (some ports)).hostSrcPortMapCache p =
      if p ∈ ports then none else x.hostSrcPortMapCache p := by
  have herase : ∀ owners : Port → Option UmiId,
      ports.foldl (fun owners port => Function.update owners port none) owners p =
        if p ∈ ports then none else owners p := by
    induction ports with
    | nil => exact fun _ => rfl
    | cons port ports ih =>
      intro owners
      rw [List.foldl_cons, ih]
      by_cases hp : p = port
      · subst hp
        simp
      · simp [hp]
  have howners : ∀ y : UmProxy, y.hostSrcPortMapCache = x.hostSrcPortMapCache →
      ports.foldl (fun owners port => Function.update owners port none) y.hostSrcPortMapCache p =
        if p ∈ ports then none else x.hostSrcPortMapCache p :=
    fun y hy => hy ▸ herase _
  exact howners (if x.umiId = id then { x with umiId := 0 } else x) (by split <;> rfl)

@[simp] theorem portMapCache_setActiveInstance (x : UmProxy) (id : UmiId) :
    (x.setActiveInstance id).portMapCache = x.portMapCache := rfl

@[simp] theorem portMapCache_removeInstanceState (x : UmProxy) (id : UmiId)
    (srcPorts : Option (List Port)) :
    (x.removeInstanceState id srcPorts).portMapCache = x.portMapCache := by
  unfold removeInstanceState
  cases srcPorts <;> by_cases h : x.umiId = id <;> simp [h]

/-- A cached port is translated to the cached endpoint. -/
theorem externalPortmapLookup_of_mem {root : ProxyRoot} {x : UmProxy} {nport : Port}
    {iport : InternalPort} (h : (nport, iport) ∈ x.portMapCache) :
    externalPortmapLookup root x nport = (iport, x) := by
  simp [externalPortmapLookup, Bimap.findLeft_eq_some.mpr h]

/-- Any other port is translated by the root. -/
theorem externalPortmapLookup_of_findLeft_eq_none {root : ProxyRoot} {x : UmProxy} {nport : Port}
    (h : x.portMapCache.findLeft nport = none) :
    externalPortmapLookup root x nport = (root.externalPortLookup nport,
      { x with portMapCache := x.portMapCache.insert nport (root.externalPortLookup nport) }) := by
  simp [externalPortmapLookup, h]

/-- A lookup adds at most the root's answer to the cache. -/
theorem mem_cache_externalPortmapLookup {root : ProxyRoot} {x : UmProxy} {nport : Port}
    {y : Port × InternalPort} (hy : y ∈ (externalPortmapLookup root x nport).2.portMapCache) :
    y ∈ x.portMapCache ∨ y = (nport, root.externalPortLookup nport) := by
  cases hf : x.portMapCache.findLeft nport with
  | some iport =>
    rw [externalPortmapLookup_of_mem (Bimap.findLeft_eq_some.mp hf)] at hy
    exact Or.inl hy
  | none =>
    rw [externalPortmapLookup_of_findLeft_eq_none hf] at hy
    exact (Bimap.mem_insert.mp hy).imp_right fun h => h.1

/-- A lookup forgets no cache entry. -/
theorem mem_cache_externalPortmapLookup_of_mem {root : ProxyRoot} {x : UmProxy}
    {y : Port × InternalPort} (hy : y ∈ x.portMapCache) (nport : Port) :
    y ∈ (externalPortmapLookup root x nport).2.portMapCache := by
  cases hf : x.portMapCache.findLeft nport with
  | some e =>
    rw [externalPortmapLookup_of_mem (Bimap.findLeft_eq_some.mp hf)]
    exact hy
  | none =>
    rw [externalPortmapLookup_of_findLeft_eq_none hf]
    exact Bimap.mem_insert_of_mem hy

/-- A second lookup of a port has the same answer as the first. -/
theorem externalPortmapLookup_again (root : ProxyRoot) (x : UmProxy) (nport : Port) :
    (externalPortmapLookup root (externalPortmapLookup root x nport).2 nport).1 =
      (externalPortmapLookup root x nport).1 := by
  cases hcached : x.portMapCache.findLeft nport with
  | some iport =>
    have hmem := Bimap.findLeft_eq_some.mp hcached
    rw [externalPortmapLookup_of_mem hmem, externalPortmapLookup_of_mem hmem]
  | none =>
    have hfirst : externalPortmapLookup root x nport = _ :=
      externalPortmapLookup_of_findLeft_eq_none hcached
    cases hagain : (externalPortmapLookup root x nport).2.portMapCache.findLeft nport with
    | some iport =>
      have hmem := Bimap.findLeft_eq_some.mp hagain
      rw [externalPortmapLookup_of_mem hmem, hfirst]
      rcases mem_cache_externalPortmapLookup hmem with hold | hnew
      · rw [Bimap.findLeft_eq_some.mpr hold] at hcached
        cases hcached
      · exact (Prod.mk.inj hnew).2
    | none => rw [externalPortmapLookup_of_findLeft_eq_none hagain, hfirst]

/-- What an outbound translation can do: answer from the cache, or cache the root's answer. -/
theorem swizzlePortOut_cases (root : ProxyRoot) (core : UmiCore) (x : UmProxy) (iport : Port) :
    (∃ p, (p, internalPort iport x.umiId core) ∈ x.portMapCache ∧
      swizzlePortOut root core x iport = (p, root, x)) ∨
    (x.portMapCache.findRight (internalPort iport x.umiId core) = none ∧
      swizzlePortOut root core x iport =
        ((root.setupExternalPortMapping core x.umiId iport).1,
          (root.setupExternalPortMapping core x.umiId iport).2,
          { x with
            portMapCache := x.portMapCache.insert
              (root.setupExternalPortMapping core x.umiId iport).1
              (internalPort iport x.umiId core) })) := by
  unfold swizzlePortOut
  cases hf : x.portMapCache.findRight (internalPort iport x.umiId core) with
  | some p => exact Or.inl ⟨p, Bimap.findRight_eq_some.mp hf, rfl⟩
  | none => exact Or.inr ⟨rfl, rfl⟩

/-- A translation does not change the active instance. -/
@[simp] theorem umiId_externalPortmapLookup (root : ProxyRoot) (x : UmProxy) (nport : Port) :
    (externalPortmapLookup root x nport).2.umiId = x.umiId := by
  unfold externalPortmapLookup
  split <;> rfl

@[simp] theorem umiId_swizzlePortOut (root : ProxyRoot) (core : UmiCore) (x : UmProxy)
    (iport : Port) : (swizzlePortOut root core x iport).2.2.umiId = x.umiId := by
  rcases swizzlePortOut_cases root core x iport with ⟨p, -, heq⟩ | ⟨-, heq⟩ <;> rw [heq]

/-- An outbound translation forgets no cache entry. -/
theorem mem_cache_swizzlePortOut_of_mem {root : ProxyRoot} {x : UmProxy} {y : Port × InternalPort}
    (hy : y ∈ x.portMapCache) (core : UmiCore) (iport : Port) :
    y ∈ (swizzlePortOut root core x iport).2.2.portMapCache := by
  rcases swizzlePortOut_cases root core x iport with ⟨p, -, heq⟩ | ⟨-, heq⟩ <;> rw [heq]
  · exact hy
  · exact Bimap.mem_insert_of_mem hy

end UmProxy

end Umm
