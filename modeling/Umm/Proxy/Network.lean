import Umm.Proxy.PacketPorts
import Umm.Proxy.RoundTrip

/-!
# The packets of all cores

`NetState` is the network of the whole machine: the shared port map, the proxy and the manager of each
core, and a log of the TCP packets that went out.  A step is one call of a proxy with a packet, or one
of the calls by which the manager of a core tells its proxy what it does; what else happens to a
manager may be anything.

`ports` leaves of it what the port machine works on.  Each step is one call of the port machine or
none, `portCall`, so that a run of packets is a run of the port machine, and its invariants are those
of the network.
-/

namespace Umm

open Foundations Umm.Frame

/-- A TCP packet that went out. -/
structure SentPacket where
  /-- The core it was sent on. -/
  core : UmiCore
  /-- The active instance of that core. -/
  umi : UmiId
  /-- The frame as the instance wrote it. -/
  frame : IOBuf
  /-- The packet as it was sent, without the Ethernet header. -/
  packet : IOBuf

namespace SentPacket

/-- The endpoint the packet was sent from. -/
def endpoint (x : SentPacket) : InternalPort :=
  internalPort (srcPort x.frame.first) x.umi x.core

/-- The port the packet carries as its source. -/
def nport (x : SentPacket) : Port :=
  ntohs ((tcpSrcPort.shift ethStop).read x.packet.first)

end SentPacket

/-- The network of all cores. -/
structure NetState where
  /-- The proxies and managers. -/
  host : PacketHost
  /-- Log of the TCP packets that went out, the latest first. -/
  sent : List SentPacket

/-- One step of the network. -/
inductive NetStep where
  /-- `SetActiveInstance`. -/
  | setActiveInstance (core : UmiCore) (id : UmiId)
  /-- `RemoveInstanceState`. -/
  | removeInstanceState (core : UmiCore) (id : UmiId) (srcPorts : Option (List Port))
  /-- `RegisterInternalPort`. -/
  | registerInternalPort (core : UmiCore) (id : UmiId) (srcPort : Port)
  /-- The manager of a core does something. -/
  | manage (core : UmiCore) (manager : Core)
  /-- `ProcessOutgoing`. -/
  | processOutgoing (core : UmiCore) (buf : IOBuf)
  /-- `ProcessIncoming`. -/
  | processIncoming (core : UmiCore) (buf : IOBuf) (pinfo : PacketInfo)

namespace NetState

/-- The state after construction. -/
def init : NetState where
  host := { root := ProxyRoot.init, proxies := fun _ => UmProxy.init, managers := fun _ => Core.init }
  sent := []

/-- The state with another proxy on `core`. -/
def setProxy (s : NetState) (core : UmiCore) (x : UmProxy) : NetState :=
  { s with host.proxies := Function.update s.host.proxies core x }

/-- What is logged of a packet that went out. -/
def logged (s : NetState) (core : UmiCore) (buf : IOBuf) : Outgoing → List SentPacket
  | .sent _ _ packet _ =>
    if IsOutboundTcp buf.first then [⟨core, (s.host.proxies core).umiId, buf, packet⟩] else []
  | _ => []

variable (net : Net)

/-- The machine: a call that aborts is not taken. -/
def step (s : NetState) : NetStep → Option NetState
  | .setActiveInstance core id =>
    some (s.setProxy core ((s.host.proxies core).setActiveInstance id))
  | .removeInstanceState core id srcPorts =>
    some (s.setProxy core ((s.host.proxies core).removeInstanceState id srcPorts))
  | .registerInternalPort core id srcPort =>
    some (s.setProxy core ((s.host.proxies core).registerInternalPort id srcPort))
  | .manage core manager =>
    some { s with host.managers := Function.update s.host.managers core manager }
  | .processOutgoing core buf =>
    ((s.host.on core).processOutgoing net false core buf).toOption.map fun (r, t) =>
      { host := s.host.put core t, sent := s.logged core buf r ++ s.sent }
  | .processIncoming core buf pinfo =>
    ((s.host.on core).processIncoming net core buf pinfo).toOption.map fun (_, t) =>
      { s with host := s.host.put core t }

/-- The call of the port machine that a step makes. -/
def portCall : NetStep → Option PortStep
  | .setActiveInstance core id => some (.setActiveInstance core id)
  | .removeInstanceState core id _ => some (.removeInstanceState core id none)
  | .registerInternalPort _ _ _ => none
  | .manage _ _ => none
  | .processOutgoing core buf =>
    if IsOutboundTcp buf.first then some (.swizzlePortOut core (srcPort buf.first)) else none
  | .processIncoming core buf _ =>
    match PacketState.natPreprocessIn net buf.first with
    | .ok b => if IsLookedUp b then some (.externalPortmapLookup core (dstPort b)) else none
    | .error _ => none

/-- The state of the port machine. -/
def ports (s : NetState) : PortState where
  root := s.host.root
  proxies := fun core => (s.host.proxies core).portsOnly
  sent := s.sent.map fun x => (x.endpoint, x.nport)

@[simp] theorem ports_init : init.ports = PortState.init := rfl

section Ports

variable {net} {s s' : NetState} {core : UmiCore} {buf : IOBuf} {pinfo : PacketInfo}

/-- Replacing a proxy is that for the port machine. -/
theorem ports_setProxy (s : NetState) (core : UmiCore) (x : UmProxy) :
    (s.setProxy core x).ports = s.ports.setProxy core x.portsOnly := by
  unfold ports setProxy PortState.setProxy
  congr 1
  funext c
  exact Function.apply_update (fun _ => UmProxy.portsOnly) s.host.proxies core x c

/-- A state in which the ports of one core have changed. -/
theorem ports_put {t : PacketState} {sent : List SentPacket} :
    ports ⟨s.host.put core t, sent⟩ =
      { s.ports.setProxy core t.proxy.portsOnly with
        root := t.root
        sent := sent.map fun x => (x.endpoint, x.nport) } := by
  unfold ports PacketHost.put PortState.setProxy
  congr 1
  funext c
  exact Function.apply_update (fun _ => UmProxy.portsOnly) s.host.proxies core t.proxy c

/-- The ports of a core are those the port machine has there. -/
theorem setProxy_portsOnly (s : NetState) (core : UmiCore) :
    s.ports.setProxy core (s.host.proxies core).portsOnly = s.ports := by
  unfold PortState.setProxy
  congr 1
  exact Function.update_eq_self core _

theorem step_processOutgoing : step net s (.processOutgoing core buf) = some s' ↔
    ∃ r t, (s.host.on core).processOutgoing net false core buf = .ok (r, t) ∧
      s' = { host := s.host.put core t, sent := s.logged core buf r ++ s.sent } := by
  rw [step, Option.map_eq_some_iff]
  simp only [toOption_eq_some, Prod.exists, eq_comm (b := s')]

theorem step_processIncoming : step net s (.processIncoming core buf pinfo) = some s' ↔
    ∃ r t, (s.host.on core).processIncoming net core buf pinfo = .ok (r, t) ∧
      s' = { s with host := s.host.put core t } := by
  rw [step, Option.map_eq_some_iff]
  simp only [toOption_eq_some, Prod.exists, eq_comm (b := s')]

/-- The port that a packet is sent from. -/
theorem nport_withNatSource (hlen : tcpStop ≤ buf.first.length) (core : UmiCore) (umi : UmiId)
    (nport : Port) : SentPacket.nport ⟨core, umi, buf,
      (buf.withFirst (PacketState.withNatSource net nport buf.first)).advance ethStop⟩ = nport := by
  have hlength : (PacketState.withIpSource net net.ipAddress buf.first).length = buf.first.length :=
    PacketState.length_withIpSource (Nat.le_trans (by decide) hlen)
  change ntohs ((tcpSrcPort.shift ethStop).read
    ((PacketState.withNatSource net nport buf.first).drop ethStop)) = nport
  rw [Field.read_drop (by decide), PacketState.withNatSource, Field.read_write (length_htons _),
    ntohs_htons]
  exact Nat.le_trans (by decide) (hlen.trans_eq hlength.symm)

/-- A TCP packet for a destination outside is one outbound translation. -/
theorem ports_processOutgoing (hb : IsOutboundTcp buf.first)
    (h : step net s (.processOutgoing core buf) = some s') :
    s.ports.perform (.swizzlePortOut core (srcPort buf.first)) = s'.ports := by
  obtain ⟨r, t, hr, rfl⟩ := step_processOutgoing.mp h
  obtain ⟨hlen, hroot, hproxy, _, _, _, rfl⟩ := PacketState.processOutgoing_ports hb hr
  have hswizzle : UmProxy.swizzlePortOut s.ports.root core (s.ports.proxies core)
      (srcPort buf.first) = _ :=
    UmProxy.swizzlePortOut_portsOnly s.host.root core (s.host.proxies core) (srcPort buf.first)
  rw [ports_put, logged, if_pos hb, hroot, hproxy]
  simp only [PortState.perform, hswizzle, List.singleton_append, List.map_cons,
    nport_withNatSource hlen]
  rfl

/-- A packet that is looked up is one lookup. -/
theorem ports_processIncoming {b : List UInt8}
    (hpre : PacketState.natPreprocessIn net buf.first = .ok b)
    (h : step net s (.processIncoming core buf pinfo) = some s') : s'.ports =
      if IsLookedUp b then s.ports.perform (.externalPortmapLookup core (dstPort b))
      else s.ports := by
  obtain ⟨r, t, hr, rfl⟩ := step_processIncoming.mp h
  obtain ⟨hroot, hproxy⟩ := PacketState.processIncoming_ports hpre hr
  have hlookup : UmProxy.externalPortmapLookup s.ports.root (s.ports.proxies core) (dstPort b) = _ :=
    UmProxy.externalPortmapLookup_portsOnly s.host.root (s.host.proxies core) (dstPort b)
  rw [ports_put, hroot, hproxy]
  split_ifs with hb
  · simp only [PortState.perform, hlookup]
    rfl
  · exact s.setProxy_portsOnly core

/-- A step does to the ports what its call does, and nothing when it makes none. -/
theorem ports_step {a : NetStep} (h : step net s a = some s') :
    match portCall net a with
    | some d => s.ports.step d = some s'.ports
    | none => s'.ports = s.ports := by
  cases a with
  | setActiveInstance core id =>
    obtain rfl := Option.some.inj h
    exact congrArg some
      (ports_setProxy s core ((s.host.proxies core).setActiveInstance id)).symm
  | removeInstanceState core id srcPorts =>
    obtain rfl := Option.some.inj h
    refine congrArg some ((ports_setProxy s core _).trans ?_).symm
    rw [UmProxy.portsOnly_removeInstanceState]
    rfl
  | registerInternalPort core id srcPort =>
    obtain rfl := Option.some.inj h
    refine (ports_setProxy s core _).trans ?_
    rw [UmProxy.portsOnly_registerInternalPort]
    exact s.setProxy_portsOnly core
  | manage core manager =>
    obtain rfl := Option.some.inj h
    rfl
  | processOutgoing core buf =>
    by_cases hb : IsOutboundTcp buf.first
    · rw [portCall, if_pos hb]
      exact congrArg some (ports_processOutgoing hb h)
    · rw [portCall, if_neg hb]
      obtain ⟨r, t, hr, rfl⟩ := step_processOutgoing.mp h
      obtain ⟨hroot, hproxy⟩ := PacketState.processOutgoing_ports_of_not hb hr
      have hlogged : s.logged core buf r = [] := by
        cases r <;> simp [logged, hb]
      rw [ports_put, hroot, hproxy, hlogged]
      exact s.setProxy_portsOnly core
  | processIncoming core buf pinfo =>
    obtain ⟨r, t, hr, -⟩ := step_processIncoming.mp h
    obtain ⟨b, hpre, -⟩ := bind_eq_ok.mp hr
    rw [portCall, hpre]
    have hports := ports_processIncoming hpre h
    by_cases hb : IsLookedUp b
    · rw [if_pos hb] at hports
      simp only [if_pos hb]
      exact congrArg some hports.symm
    · rw [if_neg hb] at hports
      simp only [if_neg hb]
      exact hports

/-- A run of packets is the run of its calls. -/
theorem ports_run {as : List NetStep} (h : run (step net) s as = some s') :
    run PortState.step s.ports (as.filterMap (portCall net)) = some s'.ports := by
  refine run_filterMap_of_run (fun s a s' hnone h => ?_) (fun s a d s' hsome h => ?_) h
  · have hports := ports_step h
    rwa [hnone] at hports
  · have hports := ports_step h
    rwa [hsome] at hports

end Ports

end NetState

end Umm
