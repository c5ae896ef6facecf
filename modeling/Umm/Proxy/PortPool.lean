import Mathlib.Data.Finset.Card
import Umm.Foundations.Run
import Umm.Proxy.ProxyRoot

/-!
# Requests beyond the pool

A run here is any sequence of `setupExternalPortMapping` calls, whoever makes them.  The pool holds
`portMax - portMin` ports, and the first request that finds it empty is given port `0`, which can
still be registered once.  `exclusive_iff` says that external ports stay exclusive exactly as long
as the requests name no more endpoints than that.

The proof counts: `Counted` ties the number of registered endpoints to the number of ports left.
-/

namespace Umm

open Foundations

/-- The shared root, with the log of the requests made to it. -/
structure RequestState where
  /-- The root. -/
  root : ProxyRoot
  /-- The endpoints of the requests and the ports they were given, the latest first. -/
  granted : List (InternalPort × Port)

namespace RequestState

/-- The state after construction. -/
def init : RequestState where
  root := ProxyRoot.init
  granted := []

/-- One call of `setupExternalPortMapping`, by the core of the endpoint. -/
def perform (s : RequestState) (e : InternalPort) : RequestState :=
  let (nport, root) := s.root.setupExternalPortMapping e.core e.id e.port
  { root, granted := (e, nport) :: s.granted }

/-- The machine: every call returns. -/
def step (s : RequestState) (e : InternalPort) : Option RequestState :=
  some (s.perform e)

/-- No port was given to two endpoints, and every port given to an endpoint is looked up to it. -/
def Exclusive (s : RequestState) : Prop :=
  (∀ e e' p, (e, p) ∈ s.granted → (e', p) ∈ s.granted → e = e') ∧
    ∀ e p, (e, p) ∈ s.granted → s.root.externalPortLookup p = e

/-- The endpoints of the master map. -/
def endpoints (s : RequestState) : Finset InternalPort :=
  (s.root.masterPortMap.pairs.map Prod.snd).toFinset

theorem mem_endpoints {s : RequestState} {e : InternalPort} :
    e ∈ s.endpoints ↔ ∃ p, (p, e) ∈ s.root.masterPortMap := by
  rw [endpoints, List.mem_toFinset, List.mem_map]
  constructor
  · rintro ⟨⟨p, e⟩, h, rfl⟩
    exact ⟨p, h⟩
  · rintro ⟨p, h⟩
    exact ⟨(p, e), h, rfl⟩

/-- What a request can do, as `setupExternalPortMapping_cases` with the log. -/
theorem perform_cases (s : RequestState) (e : InternalPort) :
    (∃ p, (p, e) ∈ s.root.masterPortMap ∧ s.perform e = ⟨s.root, (e, p) :: s.granted⟩) ∨
    (s.root.masterPortMap.findRight e = none ∧ ∃ p ps, s.root.portSet = p :: ps ∧
      s.perform e = ⟨⟨ps, s.root.masterPortMap.insert p e⟩, (e, p) :: s.granted⟩) ∨
    (s.root.masterPortMap.findRight e = none ∧ s.root.portSet = [] ∧
      s.perform e = ⟨⟨[], s.root.masterPortMap.insert 0 e⟩, (e, 0) :: s.granted⟩) := by
  rcases s.root.setupExternalPortMapping_cases e.core e.id e.port with
    ⟨p, hp, heq⟩ | ⟨hnew, p, ps, hps, heq⟩ | ⟨hnew, hempty, heq⟩
  · exact Or.inl ⟨p, hp, by simp [perform, heq]⟩
  · exact Or.inr (Or.inl ⟨hnew, p, ps, hps, by simp [perform, heq, internalPort]⟩)
  · exact Or.inr (Or.inr ⟨hnew, hempty, by simp [perform, heq, internalPort]⟩)

/-! ## The ports that can be granted -/

/-- Every port in the log and in the pool is port `0` or a port of the interval. -/
def PortsInRange (s : RequestState) : Prop :=
  (∀ p ∈ s.root.portSet, p ∈ portInterval) ∧
  (∀ p e, (p, e) ∈ s.root.masterPortMap → p = 0 ∨ p ∈ portInterval) ∧
  ∀ e p, (e, p) ∈ s.granted → p = 0 ∨ p ∈ portInterval

theorem portsInRange_init : PortsInRange init :=
  ⟨fun _ h => ProxyRoot.portSet_init ▸ h, fun _ _ h => absurd h (Bimap.not_mem_empty _),
    fun _ _ h => absurd h List.not_mem_nil⟩

/-- A request grants a port of the range. -/
theorem PortsInRange.perform {s : RequestState} (h : s.PortsInRange) (e : InternalPort) :
    (s.perform e).PortsInRange := by
  obtain ⟨hset, hmap, hlog⟩ := h
  have hcons : ∀ p, (p = 0 ∨ p ∈ portInterval) → ∀ e' q, (e', q) ∈ (e, p) :: s.granted →
      q = 0 ∨ q ∈ portInterval := by
    intro p hp e' q hq
    rcases List.mem_cons.mp hq with heq | hq
    · exact (Prod.mk.inj heq).2 ▸ hp
    · exact hlog e' q hq
  have hinsert : ∀ p, (p = 0 ∨ p ∈ portInterval) → ∀ q e',
      (q, e') ∈ s.root.masterPortMap.insert p e → q = 0 ∨ q ∈ portInterval := by
    intro p hp q e' hq
    rcases Bimap.mem_insert.mp hq with hq | ⟨heq, -⟩
    · exact hmap q e' hq
    · exact (Prod.mk.inj heq).1 ▸ hp
  rcases s.perform_cases e with ⟨p, hp, heq⟩ | ⟨-, p, ps, hps, heq⟩ | ⟨-, -, heq⟩ <;> rw [heq]
  · exact ⟨hset, hmap, hcons p (hmap p e hp)⟩
  · have hp : p = 0 ∨ p ∈ portInterval := Or.inr (hset p (hps ▸ List.mem_cons_self))
    exact ⟨fun q hq => hset q (hps ▸ List.mem_cons_of_mem _ hq), hinsert p hp, hcons p hp⟩
  · exact ⟨fun q hq => absurd hq List.not_mem_nil, hinsert 0 (Or.inl rfl), hcons 0 (Or.inl rfl)⟩

/-- Every request of a run is in the log at its end, and nothing leaves the log. -/
theorem granted_run {s t : RequestState} {calls : List InternalPort}
    (hrun : run step s calls = some t) :
    (∀ x ∈ s.granted, x ∈ t.granted) ∧ ∀ e ∈ calls, ∃ p, (e, p) ∈ t.granted := by
  induction calls generalizing s with
  | nil =>
    obtain rfl := Option.some.inj hrun
    exact ⟨fun _ h => h, fun _ h => absurd h List.not_mem_nil⟩
  | cons e calls ih =>
    obtain ⟨hkeep, hcalls⟩ := ih (s := s.perform e) hrun
    have hlog : (s.perform e).granted =
        (e, (s.root.setupExternalPortMapping e.core e.id e.port).1) :: s.granted := rfl
    refine ⟨fun x hx => hkeep x (hlog ▸ List.mem_cons_of_mem _ hx), fun e' he' => ?_⟩
    rcases List.mem_cons.mp he' with rfl | he'
    · exact ⟨_, hkeep _ (hlog ▸ List.mem_cons_self)⟩
    · exact hcalls e' he'

theorem run_eq_foldl (s : RequestState) (calls : List InternalPort) :
    run step s calls = some (calls.foldl perform s) := by
  induction calls generalizing s with
  | nil => rfl
  | cons e calls ih => exact ih (s.perform e)

/-- If ports stay exclusive, the requests name at most one endpoint for each port of the pool and
one for port `0`: each endpoint has a port of its own. -/
theorem card_le_of_exclusive {calls : List InternalPort}
    (h : AllStates step Exclusive init calls) :
    calls.toFinset.card ≤ portMax - portMin + 1 := by
  have hrun := run_eq_foldl init calls
  obtain ⟨hinj, -⟩ := h.last hrun
  have hrange : (calls.foldl perform init).PortsInRange :=
    run_invariant' (I := PortsInRange) (fun s e s' hs hs' => Option.some.inj hs' ▸ hs.perform e)
      portsInRange_init hrun
  obtain ⟨-, hgranted⟩ := granted_run hrun
  choose! port hport using hgranted
  have hcard : calls.toFinset.card ≤ (insert 0 portInterval.toFinset).card := by
    refine Finset.card_le_card_of_injOn port (fun e he => ?_) fun e he e' he' heq => ?_
    · rcases hrange.2.2 e _ (hport e (List.mem_toFinset.mp he)) with hzero | hmem
      · simp [hzero]
      · simp [hmem]
    · exact hinj e e' (port e) (hport e (List.mem_toFinset.mp he))
        (heq ▸ hport e' (List.mem_toFinset.mp he'))
  have hinterval : portInterval.toFinset.card ≤ portMax - portMin :=
    (List.toFinset_card_le _).trans (by simp [portInterval])
  calc calls.toFinset.card ≤ (insert 0 portInterval.toFinset).card := hcard
    _ ≤ portInterval.toFinset.card + 1 := Finset.card_insert_le _ _
    _ ≤ portMax - portMin + 1 := Nat.add_le_add_right hinterval 1

/-! ## The count of the endpoints -/

/-- The registered endpoints and the ports left add up to the pool, and to one more once port `0` is
registered. -/
structure Counted (s : RequestState) : Prop where
  /-- The ports of the pool are unmapped. -/
  fresh : s.root.PortsFresh
  /-- A port in the log stands for the endpoint it was given to. -/
  granted : ∀ e p, (e, p) ∈ s.granted → (p, e) ∈ s.root.masterPortMap
  /-- The count, while port `0` is unmapped. -/
  count : s.root.masterPortMap.findLeft 0 = none →
    s.endpoints.card + s.root.portSet.length = portMax - portMin
  /-- The count, once port `0` is mapped. -/
  count_zero : s.root.masterPortMap.findLeft 0 ≠ none →
    s.endpoints.card = portMax - portMin + 1 ∧ s.root.portSet = []

theorem counted_init : Counted init where
  fresh := ProxyRoot.portsFresh_init
  granted := fun _ _ h => absurd h List.not_mem_nil
  count := fun _ => by
    have hlength : init.root.portSet.length = portMax - portMin := by
      rw [init, ProxyRoot.portSet_init, portInterval, List.length_map, List.length_range]
    have hempty : init.endpoints = ∅ := rfl
    rw [hlength, hempty, Finset.card_empty, Nat.zero_add]
  count_zero := fun h => absurd rfl h

/-- In a counted state every port of the log is looked up to its endpoint, so ports are exclusive. -/
theorem Counted.exclusive {s : RequestState} (h : s.Counted) : s.Exclusive :=
  ⟨fun e e' p hp hp' => Bimap.eq_right (h.granted e p hp) (h.granted e' p hp'),
    fun e p hp => ProxyRoot.externalPortLookup_of_mem (h.granted e p hp)⟩

/-- Registering a new pair registers its endpoint. -/
theorem endpoints_insert {s : RequestState} {p : Port} {e : InternalPort} {ps : List Port}
    {log : List (InternalPort × Port)} (hleft : s.root.masterPortMap.findLeft p = none)
    (hright : s.root.masterPortMap.findRight e = none) :
    RequestState.endpoints ⟨⟨ps, s.root.masterPortMap.insert p e⟩, log⟩ =
      insert e s.endpoints := by
  ext e'
  simp only [mem_endpoints, Finset.mem_insert, Bimap.mem_insert]
  constructor
  · rintro ⟨q, hq | ⟨heq, -⟩⟩
    · exact Or.inr ⟨q, hq⟩
    · exact Or.inl (Prod.mk.inj heq).2
  · rintro (rfl | ⟨q, hq⟩)
    · exact ⟨p, Or.inr ⟨rfl, hleft, hright⟩⟩
    · exact ⟨q, Or.inl hq⟩

/-- A request registers at most its own endpoint. -/
theorem endpoints_perform_subset (s : RequestState) (e : InternalPort) :
    (s.perform e).endpoints ⊆ insert e s.endpoints := by
  have hinsert : ∀ p ps log, RequestState.endpoints ⟨⟨ps, s.root.masterPortMap.insert p e⟩, log⟩ ⊆
      insert e s.endpoints := by
    intro p ps log e' he'
    obtain ⟨q, hq⟩ := mem_endpoints.mp he'
    rcases Bimap.mem_insert.mp hq with hq | ⟨heq, -⟩
    · exact Finset.mem_insert_of_mem (mem_endpoints.mpr ⟨q, hq⟩)
    · exact Finset.mem_insert.mpr (Or.inl (Prod.mk.inj heq).2)
  rcases s.perform_cases e with ⟨p, -, heq⟩ | ⟨-, p, ps, -, heq⟩ | ⟨-, -, heq⟩ <;> rw [heq]
  · exact Finset.subset_insert e s.endpoints
  · exact hinsert p ps _
  · exact hinsert 0 [] _

/-- A request that keeps the number of endpoints within the bound finds a port that is free to be
registered. -/
theorem Counted.perform {s : RequestState} (h : s.Counted) {e : InternalPort}
    (hcard : (insert e s.endpoints).card ≤ portMax - portMin + 1) : (s.perform e).Counted := by
  have hfresh : (s.perform e).root.PortsFresh :=
    h.fresh.setupExternalPortMapping e.core e.id e.port
  have hgranted : ∀ p, (p, e) ∈ (s.perform e).root.masterPortMap →
      (s.perform e).granted = (e, p) :: s.granted →
      ∀ e' q, (e', q) ∈ (s.perform e).granted → (q, e') ∈ (s.perform e).root.masterPortMap := by
    intro p hp hlog e' q hq
    rcases List.mem_cons.mp (hlog ▸ hq) with hq | hq
    · obtain ⟨rfl, rfl⟩ := Prod.mk.inj hq
      exact hp
    · exact ProxyRoot.mem_setupExternalPortMapping (h.granted e' q hq)
  have hnew_card : s.root.masterPortMap.findRight e = none →
      (insert e s.endpoints).card = s.endpoints.card + 1 := by
    intro hnew
    refine Finset.card_insert_of_notMem fun he => ?_
    obtain ⟨q, hq⟩ := mem_endpoints.mp he
    exact Bimap.findRight_eq_none.mp hnew q hq
  rcases s.perform_cases e with ⟨p, hp, heq⟩ | ⟨hnew, p, ps, hps, heq⟩ | ⟨hnew, hempty, heq⟩ <;>
    rw [heq] at hfresh hgranted ⊢
  · exact ⟨hfresh, hgranted p hp rfl, h.count, h.count_zero⟩
  · have hp : p ∈ s.root.portSet := hps ▸ List.mem_cons_self
    have hleft := Bimap.findLeft_eq_none.mpr (h.fresh.unmapped p hp)
    have hzero : (0 : Port) ≠ p := fun hzero => h.fresh.zero_not_mem (hzero ▸ hp)
    refine ⟨hfresh, hgranted p (Bimap.mem_insert_self hleft hnew) rfl, fun hfree => ?_,
      fun hmapped => ?_⟩
    · have hcount := h.count ((Bimap.findLeft_insert_of_ne e hzero).symm.trans hfree)
      rw [hps, List.length_cons] at hcount
      rw [endpoints_insert hleft hnew, hnew_card hnew]
      change s.endpoints.card + 1 + ps.length = _
      omega
    · have hmapped₀ : s.root.masterPortMap.findLeft 0 ≠ none :=
        (Bimap.findLeft_insert_of_ne e hzero).symm.trans_ne hmapped
      exact absurd ((h.count_zero hmapped₀).2.symm.trans hps) (List.cons_ne_nil p ps).symm
  · have hleft : s.root.masterPortMap.findLeft 0 = none := by
      by_contra hmapped
      have hfull := (h.count_zero hmapped).1
      rw [hnew_card hnew] at hcard
      omega
    have hmem := Bimap.mem_insert_self hleft hnew
    refine ⟨hfresh, hgranted 0 hmem rfl, fun hfree => ?_, fun _ => ⟨?_, rfl⟩⟩
    · exact absurd hmem (Bimap.findLeft_eq_none.mp hfree e)
    · have hcount := h.count hleft
      rw [hempty, List.length_nil] at hcount
      rw [endpoints_insert hleft hnew, hnew_card hnew]
      omega

/-- Requests that name few enough endpoints are counted to the end. -/
theorem Counted.allStates_exclusive {s : RequestState} (h : s.Counted) {calls : List InternalPort}
    (hcard : (s.endpoints ∪ calls.toFinset).card ≤ portMax - portMin + 1) :
    AllStates step Exclusive s calls := by
  induction calls generalizing s with
  | nil => exact h.exclusive
  | cons e calls ih =>
    refine ⟨h.exclusive, fun s' hs' => ?_⟩
    obtain rfl := Option.some.inj hs'
    have hsub := s.endpoints_perform_subset e
    rw [List.toFinset_cons] at hcard
    refine ih (h.perform ((Finset.card_le_card ?_).trans hcard))
      ((Finset.card_le_card ?_).trans hcard)
    · intro x hx
      rcases Finset.mem_insert.mp hx with rfl | hx
      · exact Finset.mem_union_right _ (Finset.mem_insert_self _ _)
      · exact Finset.mem_union_left _ hx
    · intro x hx
      rcases Finset.mem_union.mp hx with hx | hx
      · rcases Finset.mem_insert.mp (hsub hx) with rfl | hx
        · exact Finset.mem_union_right _ (Finset.mem_insert_self _ _)
        · exact Finset.mem_union_left _ hx
      · exact Finset.mem_union_right _ (Finset.mem_insert_of_mem hx)

/-- External ports stay exclusive throughout a sequence of requests if and only if the requests name
at most one endpoint for each port of the pool and one more, for port `0`. -/
theorem exclusive_iff (calls : List InternalPort) :
    AllStates step Exclusive init calls ↔ calls.toFinset.card ≤ portMax - portMin + 1 := by
  constructor
  · exact card_le_of_exclusive
  · intro hcard
    have hempty : init.endpoints = ∅ := rfl
    refine counted_init.allStates_exclusive ?_
    rwa [hempty, Finset.empty_union]

/-- Endpoints of distinct instances that use port 80 on core 0. -/
def manyEndpoints (n : ℕ) : List InternalPort :=
  (List.range n).map fun i => ⟨i + 1, 0, 80⟩

theorem card_manyEndpoints (n : ℕ) : (manyEndpoints n).toFinset.card = n := by
  have hnodup : (manyEndpoints n).Nodup := by
    refine List.Nodup.map (fun i j hij => ?_) List.nodup_range
    simpa using congrArg InternalPort.id hij
  rw [List.toFinset_card_of_nodup hnodup, manyEndpoints, List.length_map, List.length_range]

/-- With more endpoints than that, two of them share port `0`. -/
theorem not_exclusive_of_lt {n : ℕ} (hn : portMax - portMin + 1 < n) :
    ¬ AllStates step Exclusive init (manyEndpoints n) := by
  intro h
  have hcard := card_le_of_exclusive h
  rw [card_manyEndpoints] at hcard
  exact absurd hcard (not_le_of_gt hn)

/-- 31746 endpoints are two more than the pool has ports. -/
theorem not_exclusive_of_exhausted : ¬ AllStates step Exclusive init (manyEndpoints 31746) :=
  not_exclusive_of_lt (by simp [portMax, portMin])

end RequestState

end Umm
