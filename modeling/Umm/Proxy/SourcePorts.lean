import Umm.Foundations.Run
import Umm.Proxy.UmProxy

/-!
# The owners of the internal source ports

Who has a source port of the host is recorded twice: in the proxy of the core, and in the list of
the instance that registered it.  `RegisterPort` writes both, unless another instance has the port,
and then only the list.  A `SYN` from a port that nobody has gives it to the active instance, in the
proxy only.  When an instance halts, the ports of its list are erased from the proxy.

So a halt removes what the instance has, and nothing else, exactly when the two records agree about
it; they do while no registration is implicit or refused.
-/

namespace Umm

open Foundations

/-- What happens to the source ports on a core. -/
inductive SourcePortStep where
  /-- The instance `id` is loaded into the slot. -/
  | load (id : UmiId)
  /-- The instance `id` calls `RegisterPort`. -/
  | registerPort (id : UmiId) (port : Port)
  /-- A TCP packet arrives from the host. -/
  | processIncoming (syn : Bool) (hostSrcPort : Port)
  /-- The instance `id` halts. -/
  | halt (id : UmiId)
deriving DecidableEq, Repr

/-- The two records of a core. -/
structure SourcePorts where
  /-- The proxy. -/
  proxy : UmProxy
  /-- `src_ports_` of each instance. -/
  srcPorts : UmiId → List Port
  /-- Log of the instances that have halted. -/
  halted : List UmiId

namespace SourcePorts

/-- The instance that the proxy routes the packets from a port to. -/
def owner (s : SourcePorts) (p : Port) : Option UmiId :=
  s.proxy.hostSrcPortMapCache p

/-- No instance has run. -/
def init : SourcePorts where
  proxy := UmProxy.init
  srcPorts := fun _ => []
  halted := []

/-- `RegisterPort` of the instance `id`. -/
def registerPort (s : SourcePorts) (id : UmiId) (port : Port) : SourcePorts :=
  { s with
    proxy := s.proxy.registerInternalPort id port
    srcPorts := Function.update s.srcPorts id (s.srcPorts id ++ [port]) }

/-- What `Halt` of the instance `id` does to the proxy. -/
def halt (s : SourcePorts) (id : UmiId) : SourcePorts :=
  { s with
    proxy := s.proxy.removeInstanceState id (some (s.srcPorts id))
    halted := id :: s.halted }

/-- Instances have identifiers. -/
def admits : SourcePortStep → Bool
  | .load id | .registerPort id _ | .halt id => id != nullId
  | .processIncoming _ _ => true

/-- What a step does. -/
def perform (s : SourcePorts) : SourcePortStep → SourcePorts
  | .load id => { s with proxy := s.proxy.setActiveInstance id }
  | .registerPort id port => s.registerPort id port
  | .processIncoming syn hostSrcPort =>
    { s with proxy := (s.proxy.processIncomingInternal syn hostSrcPort).2 }
  | .halt id => s.halt id

/-- The machine. -/
def step (s : SourcePorts) (a : SourcePortStep) : Option SourcePorts :=
  if admits a then some (s.perform a) else none

variable {s s' : SourcePorts} {id : UmiId} {a : SourcePortStep}

theorem step_eq_some : s.step a = some s' ↔ admits a = true ∧ s.perform a = s' := by
  unfold step
  cases admits a <;> simp

/-! ## The steps -/

theorem owner_registerPort (port p : Port) : (s.registerPort id port).owner p =
    if p = port ∧ s.owner p = none then some id else s.owner p :=
  s.proxy.owner_registerInternalPort id port p

theorem mem_srcPorts_registerPort (port p : Port) (id' : UmiId) :
    p ∈ (s.registerPort id port).srcPorts id' ↔ p ∈ s.srcPorts id' ∨ id' = id ∧ p = port := by
  by_cases hid : id' = id
  · subst hid
    simp [registerPort]
  · simp [registerPort, hid]

theorem owner_halt (p : Port) :
    (s.halt id).owner p = if p ∈ s.srcPorts id then none else s.owner p :=
  s.proxy.owner_removeInstanceState id (s.srcPorts id) p

/-- A packet registers its port when it is a `SYN`, nobody has the port, and there is an active
instance. -/
theorem owner_processIncoming (syn : Bool) (port : Port)
    (hunregistered : s.owner port = none → syn = true → s.proxy.umiId = nullId) :
    (s.perform (.processIncoming syn port)).owner = s.owner := by
  funext p
  unfold perform owner UmProxy.processIncomingInternal
  dsimp only
  split_ifs with hsyn hnull hactive
  · rfl
  · rw [UmProxy.owner_registerInternalPort, if_neg]
    rintro ⟨rfl, hnone⟩
    exact hactive (hunregistered hnone hsyn)
  · rfl
  · rfl

/-! ## Halts -/

/-- A halt removes every port of the instance and no other. -/
def RemovesExactly (s : SourcePorts) : SourcePortStep → Prop
  | .halt id => ∀ s', s.step (.halt id) = some s' → ∀ p,
      s'.owner p = if s.owner p = some id then none else s.owner p
  | _ => True

/-- The ports that the proxy routes to an instance which halts are in its list, and those that it
routes to others are not. -/
def Accounted (s : SourcePorts) : SourcePortStep → Prop
  | .halt id => id ≠ nullId → ∀ p id', s.owner p = some id' → (p ∈ s.srcPorts id ↔ id' = id)
  | _ => True

/-- A halt removes what it should exactly when the two records agree. -/
theorem removesExactly_iff (a : SourcePortStep) : s.RemovesExactly a ↔ s.Accounted a := by
  cases a with
  | halt id =>
    have hstep : s.RemovesExactly (.halt id) ↔ (id ≠ nullId → ∀ p,
        (s.halt id).owner p = if s.owner p = some id then none else s.owner p) := by
      simp only [RemovesExactly, step_eq_some, admits, bne_iff_ne, perform]
      exact ⟨fun h hid => h _ ⟨hid, rfl⟩, fun h s' hs' => hs'.2 ▸ h hs'.1⟩
    rw [hstep]
    refine imp_congr_right fun _ => forall_congr' fun p => ?_
    rw [owner_halt]
    cases howner : s.owner p with
    | none => simp
    | some id' =>
      by_cases hid : id' = id <;> by_cases hmem : p ∈ s.srcPorts id <;> simp [hid, hmem]
  | _ => exact Iff.rfl

/-! ## Registrations -/

/-- No registration is implicit or refused, and halted instances stay halted. -/
def Undisputed (s : SourcePorts) : SourcePortStep → Prop
  | .load _ => True
  | .registerPort id port => id ∉ s.halted ∧ ∀ id', s.owner port = some id' → id' = id
  | .processIncoming syn port => s.owner port = none → syn = true → s.proxy.umiId = nullId
  | .halt id => id ∉ s.halted

instance (s : SourcePorts) (a : SourcePortStep) : Decidable (s.Undisputed a) :=
  match a with
  | .load _ => inferInstanceAs (Decidable True)
  | .registerPort id port =>
    inferInstanceAs (Decidable (id ∉ s.halted ∧ ∀ id' ∈ s.owner port, id' = id))
  | .processIncoming syn port =>
    inferInstanceAs (Decidable (s.owner port = none → syn = true → s.proxy.umiId = nullId))
  | .halt id => inferInstanceAs (Decidable (id ∉ s.halted))

/-- The proxy routes a port to the instance that has it in its list and has not halted. -/
def Agree (s : SourcePorts) : Prop :=
  ∀ p id, s.owner p = some id ↔ p ∈ s.srcPorts id ∧ id ∉ s.halted

theorem Agree.of_step (hagree : s.Agree) (hundisputed : s.Undisputed a)
    (hstep : s.step a = some s') : s'.Agree := by
  obtain ⟨-, rfl⟩ := step_eq_some.mp hstep
  intro p j
  cases a with
  | load id => exact hagree p j
  | registerPort id port =>
    obtain ⟨hrunning, hfree⟩ := hundisputed
    have hhalted : (s.perform (.registerPort id port)).halted = s.halted := rfl
    rw [hhalted, perform, owner_registerPort, mem_srcPorts_registerPort, or_and_right, ← hagree]
    by_cases hp : p = port
    · subst hp
      cases howner : s.owner p with
      | none =>
        simp only [if_true, Option.some.injEq, reduceCtorEq, false_or, and_true]
        exact ⟨fun h => ⟨h.symm, h ▸ hrunning⟩, fun h => h.1.symm⟩
      | some id' =>
        obtain rfl := hfree id' howner
        simp only [reduceCtorEq, and_false, if_false, Option.some.injEq, and_true]
        exact ⟨Or.inl, fun h => h.elim id fun h => h.1.symm⟩
    · simp [hp]
  | processIncoming syn port =>
    rw [owner_processIncoming syn port hundisputed]
    exact hagree p j
  | halt id =>
    have hlist : (s.halt id).srcPorts = s.srcPorts := rfl
    have hhalted : (s.halt id).halted = id :: s.halted := rfl
    rw [perform, owner_halt, hlist, hhalted, List.mem_cons, not_or]
    rw [and_left_comm, ← hagree]
    have hmem : p ∈ s.srcPorts id ↔ s.owner p = some id :=
      (and_iff_left hundisputed).symm.trans (hagree p id).symm
    by_cases howner : s.owner p = some id
    · rw [if_pos (hmem.mpr howner), howner, Option.some.injEq]
      simp only [reduceCtorEq, false_iff, not_and]
      exact fun hne heq => hne heq.symm
    · rw [if_neg fun h => howner (hmem.mp h)]
      refine ⟨fun h => ⟨?_, h⟩, fun h => h.2⟩
      rintro rfl
      exact howner h

theorem agree_init : init.Agree := by
  intro p id
  simp [init, owner, UmProxy.init]

/-- The records agree about an instance that halts for the first time. -/
theorem Agree.accounted (hagree : s.Agree) (hundisputed : s.Undisputed a) : s.Accounted a := by
  cases a with
  | halt id =>
    intro _ p id' howner
    constructor
    · intro hmem
      have hid := (hagree p id).mpr ⟨hmem, hundisputed⟩
      exact Option.some.inj (howner.symm.trans hid)
    · rintro rfl
      exact ((hagree p id').mp howner).1
  | _ => trivial

/-! ## Runs -/

/-- No port is routed to an instance that has halted. -/
def NoneToHalted (s : SourcePorts) : Prop :=
  ∀ p id, s.owner p = some id → id ∉ s.halted

/-- In every run, the halts remove what they should exactly when the two records agree about every
instance that halts.  They do, and no port is routed to an instance that has halted, in the runs in
which no registration is implicit or refused. -/
theorem removesExactly_run (steps : List SourcePortStep) :
    (AllSteps step RemovesExactly init steps ↔ AllSteps step Accounted init steps) ∧
    (AllSteps step Undisputed init steps →
      AllSteps step RemovesExactly init steps ∧ AllStates step NoneToHalted init steps) := by
  have hstep : ∀ (s : SourcePorts) a s', s.Undisputed a → s.Agree → s.step a = some s' → s'.Agree :=
    fun s a s' hundisputed hagree hstep => hagree.of_step hundisputed hstep
  have hiff : AllSteps step RemovesExactly init steps ↔ AllSteps step Accounted init steps :=
    allSteps_congr (I := fun _ => True) (fun s a _ => removesExactly_iff a)
      (fun _ _ _ _ _ => trivial) trivial
  refine ⟨hiff, fun hundisputed => ⟨hiff.mpr ?_, ?_⟩⟩
  · exact allSteps_of_invariant (fun s a ha hagree => hagree.accounted ha) hstep agree_init
      hundisputed
  · exact allStates_of_invariant (fun s hagree p id howner => ((hagree p id).mp howner).2) hstep
      agree_init hundisputed

/-- Two instances register ports, a connection to one of them is made, and the port of the first is
registered by the second after the first has halted. -/
def handedOver : List SourcePortStep :=
  [.load 1, .registerPort 1 80, .load 2, .registerPort 2 81, .processIncoming true 81, .halt 1,
    .registerPort 2 80, .halt 2]

/-- No registration is implicit or refused there, so that the halts remove what they should. -/
theorem removesExactly_handedOver : AllSteps step RemovesExactly init handedOver ∧
    AllStates step NoneToHalted init handedOver ∧
    (run step init handedOver).map (fun s => (s.owner 80, s.owner 81, s.halted)) =
      some (none, none, [2, 1]) := by
  have hundisputed : AllSteps step Undisputed init handedOver := by decide
  obtain ⟨hexactly, hhalted⟩ := (removesExactly_run handedOver).2 hundisputed
  exact ⟨hexactly, hhalted, by decide⟩

/-- A port that an instance got by a `SYN` is routed to it after it has halted, and an instance that
was refused a port takes it from its owner when it halts. -/
theorem not_removesExactly :
    ¬ AllSteps step RemovesExactly init [.load 1, .processIncoming true 80, .halt 1] ∧
    ¬ AllSteps step RemovesExactly init
      [.load 1, .registerPort 1 80, .load 2, .registerPort 2 80, .halt 2] := by
  refine ⟨fun h => ?_, fun h => ?_⟩
  · have hport := (((h.2 _ rfl).2 _ rfl).1 _ rfl) 80
    revert hport
    decide
  · have hport := (((((h.2 _ rfl).2 _ rfl).2 _ rfl).2 _ rfl).1 _ rfl) 80
    revert hport
    decide

end SourcePorts

end Umm
