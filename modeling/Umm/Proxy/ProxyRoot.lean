import Mathlib.Data.List.Nodup
import Mathlib.Data.List.Range
import Umm.Basic
import Umm.Foundations.Bimap

/-!
# The shared port map

`ProxyRoot` is the part of the network proxy all cores share: the set of external ports still to be
handed out, and the one-to-one master map from external ports to the endpoints they stand for.
`setupExternalPortMapping` gives an endpoint its port, allocating one at the first request, and
`externalPortLookup` reads the map in the other direction.

A port is never returned to the set.  When the set is empty `allocatePort` reports it by returning
port `0`, and `setupExternalPortMapping` registers that port like any other;
`setupExternalPortMapping_cases` lists the three things a call can do.
-/

namespace Umm

open Foundations

/-- `external_port_t`, and the port component of an endpoint. -/
abbrev Port := UInt16

/-- `internal_port_t`: the endpoint of an instance, on its core. -/
structure InternalPort where
  /-- The instance. -/
  id : UmiId
  /-- The core the instance runs on. -/
  core : UmiCore
  /-- The port the instance uses. -/
  port : Port
deriving DecidableEq, Repr

/-- `null_port_mapping_`: what a lookup of an unmapped port returns. -/
def nullPortMapping : InternalPort := ⟨0, 0, 0⟩

/-- `UmProxy::internal_port`. -/
def internalPort (port : Port) (id : UmiId) (core : UmiCore) : InternalPort :=
  ⟨id, core, port⟩

/-- `port_min`: the first port of the pool. -/
def portMin : ℕ := 256

/-- `port_max`: the port after the last port of the pool. -/
def portMax : ℕ := 32000

/-- The ports of the right-open interval the constructor adds to `port_set_`, in ascending order. -/
def portInterval : List Port :=
  (List.range (portMax - portMin)).map fun i => UInt16.ofNat (portMin + i)

/-- The NAT state of `ProxyRoot`. -/
structure ProxyRoot where
  /-- `port_set_`: the ports still to be handed out, in ascending order. -/
  portSet : List Port
  /-- `master_port_map_`: the ports handed out and the endpoints they stand for. -/
  masterPortMap : Bimap Port InternalPort

namespace ProxyRoot

/-- The state after construction. -/
def init : ProxyRoot where
  portSet := portInterval
  masterPortMap := Bimap.empty

/-- `allocate_port`: the first port of the set, which loses it; `0` when the set is empty. -/
def allocatePort (r : ProxyRoot) : Port × ProxyRoot :=
  match r.portSet with
  | [] => (0, r)
  | p :: ps => (p, { r with portSet := ps })

/-- `ExternalPortLookup`. -/
def externalPortLookup (r : ProxyRoot) (nport : Port) : InternalPort :=
  match r.masterPortMap.findLeft nport with
  | some iport => iport
  | none => nullPortMapping

/-- `SetupExternalPortMapping`, called by `core`. -/
def setupExternalPortMapping (r : ProxyRoot) (core : UmiCore) (id : UmiId) (port : Port) :
    Port × ProxyRoot :=
  let iport := internalPort port id core
  match r.masterPortMap.findRight iport with
  | some nport => (nport, r)
  | none =>
    let (nport, r') := r.allocatePort
    (nport, { r' with masterPortMap := r'.masterPortMap.insert nport iport })

/-- A mapped port is looked up to its endpoint. -/
theorem externalPortLookup_of_mem {r : ProxyRoot} {nport : Port} {iport : InternalPort}
    (h : (nport, iport) ∈ r.masterPortMap) : r.externalPortLookup nport = iport := by
  simp [externalPortLookup, Bimap.findLeft_eq_some.mpr h]

/-- An unmapped port is looked up to the null mapping. -/
theorem externalPortLookup_of_forall_not_mem {r : ProxyRoot} {nport : Port}
    (h : ∀ iport, (nport, iport) ∉ r.masterPortMap) :
    r.externalPortLookup nport = nullPortMapping := by
  simp [externalPortLookup, Bimap.findLeft_eq_none.mpr h]

/-- What a call of `setupExternalPortMapping` can do: return the port the endpoint has, hand out the
first port of the set, or, with the set empty, hand out port `0`. -/
theorem setupExternalPortMapping_cases (r : ProxyRoot) (core : UmiCore) (id : UmiId) (port : Port) :
    (∃ p, (p, internalPort port id core) ∈ r.masterPortMap ∧
      r.setupExternalPortMapping core id port = (p, r)) ∨
    (r.masterPortMap.findRight (internalPort port id core) = none ∧ ∃ p ps, r.portSet = p :: ps ∧
      r.setupExternalPortMapping core id port =
        (p, ⟨ps, r.masterPortMap.insert p (internalPort port id core)⟩)) ∨
    (r.masterPortMap.findRight (internalPort port id core) = none ∧ r.portSet = [] ∧
      r.setupExternalPortMapping core id port =
        (0, ⟨[], r.masterPortMap.insert 0 (internalPort port id core)⟩)) := by
  unfold setupExternalPortMapping
  cases hf : r.masterPortMap.findRight (internalPort port id core) with
  | some p => exact Or.inl ⟨p, Bimap.findRight_eq_some.mp hf, by simp [hf]⟩
  | none =>
    right
    cases hs : r.portSet with
    | nil => exact Or.inr ⟨rfl, rfl, by simp [allocatePort, hs, hf]⟩
    | cons p ps => exact Or.inl ⟨rfl, p, ps, rfl, by simp [allocatePort, hs, hf]⟩

/-- The ports still to be handed out are distinct and none of them is mapped. -/
structure PortsFresh (r : ProxyRoot) : Prop where
  /-- No port is in the set twice. -/
  nodup : r.portSet.Nodup
  /-- A port of the set stands for no endpoint. -/
  unmapped : ∀ p ∈ r.portSet, ∀ e, (p, e) ∉ r.masterPortMap
  /-- Port `0` is outside the pool. -/
  zero_not_mem : (0 : Port) ∉ r.portSet

theorem toNat_of_mem_portInterval {p : Port} (h : p ∈ portInterval) :
    portMin ≤ p.toNat ∧ p.toNat < portMax := by
  obtain ⟨i, hi, rfl⟩ := List.mem_map.mp h
  have hi := List.mem_range.mp hi
  have hlt : portMin + i < 2 ^ 16 := by simp only [portMin, portMax] at *; omega
  rw [UInt16.toNat_ofNat_of_lt' hlt]
  omega

/-- The first port of the pool. -/
theorem portInterval_eq_cons : ∃ ps, portInterval = 256 :: ps :=
  ⟨_, by rw [portInterval, portMax, portMin, List.range_succ_eq_map]; rfl⟩

theorem portInterval_nodup : portInterval.Nodup := by
  refine List.Nodup.map_on ?_ List.nodup_range
  intro i hi j hj hij
  have hi := List.mem_range.mp hi
  have hj := List.mem_range.mp hj
  have hlt : ∀ k, k < portMax - portMin → portMin + k < 2 ^ 16 := by
    simp only [portMin, portMax]
    omega
  have h := congrArg UInt16.toNat hij
  rw [UInt16.toNat_ofNat_of_lt' (hlt i hi), UInt16.toNat_ofNat_of_lt' (hlt j hj)] at h
  omega

theorem zero_not_mem_portInterval : (0 : Port) ∉ portInterval := by
  intro h
  have hle := (toNat_of_mem_portInterval h).1
  simp only [portMin, UInt16.toNat_zero] at hle
  omega

@[simp] theorem portSet_init : init.portSet = portInterval := by
  rw [init]

theorem portsFresh_init : PortsFresh init where
  nodup := by rw [portSet_init]; exact portInterval_nodup
  unmapped := fun _ _ _ => Bimap.not_mem_empty _
  zero_not_mem := by rw [portSet_init]; exact zero_not_mem_portInterval

/-- A request keeps the ports of the set fresh. -/
theorem PortsFresh.setupExternalPortMapping {r : ProxyRoot} (h : PortsFresh r) (core : UmiCore)
    (id : UmiId) (port : Port) : PortsFresh (r.setupExternalPortMapping core id port).2 := by
  rcases r.setupExternalPortMapping_cases core id port with
    ⟨p, -, heq⟩ | ⟨-, p, ps, hs, heq⟩ | ⟨-, -, heq⟩
  · rw [heq]
    exact h
  · rw [heq]
    have hnodup := List.nodup_cons.mp (hs ▸ h.nodup)
    refine ⟨hnodup.2, fun q hq e he => ?_, fun h0 => h.zero_not_mem (hs ▸ List.mem_cons_of_mem _ h0)⟩
    rcases Bimap.mem_insert.mp he with he | ⟨hqe, -⟩
    · exact h.unmapped q (hs ▸ List.mem_cons_of_mem _ hq) e he
    · exact hnodup.1 ((Prod.mk.inj hqe).1 ▸ hq)
  · rw [heq]
    exact ⟨List.nodup_nil, by simp, by simp⟩

/-- A request forgets no mapping. -/
theorem mem_setupExternalPortMapping {r : ProxyRoot} {core : UmiCore} {id : UmiId} {port : Port}
    {x : Port × InternalPort} (hx : x ∈ r.masterPortMap) :
    x ∈ (r.setupExternalPortMapping core id port).2.masterPortMap := by
  rcases r.setupExternalPortMapping_cases core id port with
    ⟨p, -, heq⟩ | ⟨-, p, ps, -, heq⟩ | ⟨-, -, heq⟩ <;> rw [heq]
  · exact hx
  · exact Bimap.mem_insert_of_mem hx
  · exact Bimap.mem_insert_of_mem hx

/-- While the pool lasts, a request returns a port that stands for its endpoint. -/
theorem PortsFresh.mem_of_setupExternalPortMapping {r : ProxyRoot} (h : PortsFresh r)
    {core : UmiCore} {id : UmiId} {port : Port}
    (hpool : r.masterPortMap.findRight (internalPort port id core) = none → r.portSet ≠ []) :
    ((r.setupExternalPortMapping core id port).1, internalPort port id core) ∈
      (r.setupExternalPortMapping core id port).2.masterPortMap := by
  rcases r.setupExternalPortMapping_cases core id port with
    ⟨p, hp, heq⟩ | ⟨hnew, p, ps, hs, heq⟩ | ⟨hnew, hs, -⟩
  · rw [heq]
    exact hp
  · rw [heq]
    exact Bimap.mem_insert_self
      (Bimap.findLeft_eq_none.mpr (h.unmapped p (hs ▸ List.mem_cons_self))) hnew
  · exact absurd hs (hpool hnew)

end ProxyRoot

end Umm
