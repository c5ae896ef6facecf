import Umm.Proxy.Activity

/-!
# The ports a packet is translated with

What `ProcessOutgoing` and `ProcessIncoming` do to the port maps: a TCP packet for a destination
outside is one outbound translation, a packet that is taken for a TCP packet from outside is one
lookup, and no other packet reads or changes them.

The owners of the internal source ports play no part in this.  `UmProxy.portsOnly` leaves them out.
-/

namespace Umm

open Foundations Umm.Frame

namespace UmProxy

variable {root : ProxyRoot} {x y : UmProxy}

/-- The proxy without the owners of the internal source ports. -/
def portsOnly (x : UmProxy) : UmProxy :=
  { x with hostSrcPortMapCache := fun _ => none }

@[simp] theorem portsOnly_setActiveInstance (x : UmProxy) (id : UmiId) :
    (x.setActiveInstance id).portsOnly = x.portsOnly.setActiveInstance id := rfl

theorem portsOnly_removeInstanceState (x : UmProxy) (id : UmiId) (srcPorts : Option (List Port)) :
    (x.removeInstanceState id srcPorts).portsOnly = x.portsOnly.removeInstanceState id none := by
  unfold removeInstanceState portsOnly
  cases srcPorts with
  | none => split_ifs <;> rfl
  | some ports => split_ifs <;> rfl

@[simp] theorem portsOnly_registerInternalPort (x : UmProxy) (id : UmiId) (srcPort : Port) :
    (x.registerInternalPort id srcPort).portsOnly = x.portsOnly := by
  unfold registerInternalPort
  split <;> rfl

@[simp] theorem portsOnly_processIncomingInternal (x : UmProxy) (syn : Bool) (port : Port) :
    (x.processIncomingInternal syn port).2.portsOnly = x.portsOnly := by
  unfold processIncomingInternal
  dsimp only
  split_ifs
  · rfl
  · exact portsOnly_registerInternalPort ..
  · rfl
  · rfl

theorem externalPortmapLookup_portsOnly (root : ProxyRoot) (x : UmProxy) (nport : Port) :
    externalPortmapLookup root x.portsOnly nport =
      ((externalPortmapLookup root x nport).1, (externalPortmapLookup root x nport).2.portsOnly) := by
  unfold externalPortmapLookup portsOnly
  cases x.portMapCache.findLeft nport <;> rfl

theorem swizzlePortOut_portsOnly (root : ProxyRoot) (core : UmiCore) (x : UmProxy) (iport : Port) :
    swizzlePortOut root core x.portsOnly iport = ((swizzlePortOut root core x iport).1,
      (swizzlePortOut root core x iport).2.1, (swizzlePortOut root core x iport).2.2.portsOnly) := by
  have hsame : x.portsOnly.portMapCache.findRight (internalPort iport x.portsOnly.umiId core) =
      x.portMapCache.findRight (internalPort iport x.umiId core) := rfl
  unfold swizzlePortOut
  rw [hsame]
  cases x.portMapCache.findRight (internalPort iport x.umiId core) <;> rfl

/-- A second lookup of a port finds everything as the first one left it. -/
theorem externalPortmapLookup_twice (root : ProxyRoot) (x : UmProxy) (nport : Port) :
    (externalPortmapLookup root (externalPortmapLookup root x nport).2 nport).2 =
      (externalPortmapLookup root x nport).2 := by
  cases hcached : x.portMapCache.findLeft nport with
  | some iport =>
    have hmem := Bimap.findLeft_eq_some.mp hcached
    rw [externalPortmapLookup_of_mem hmem, externalPortmapLookup_of_mem hmem]
  | none =>
    have hfirst : externalPortmapLookup root x nport = _ :=
      externalPortmapLookup_of_findLeft_eq_none hcached
    rw [hfirst]
    cases hagain : (x.portMapCache.insert nport (root.externalPortLookup nport)).findLeft nport with
    | some iport => rw [externalPortmapLookup_of_mem (Bimap.findLeft_eq_some.mp hagain)]
    | none =>
      rw [externalPortmapLookup_of_findLeft_eq_none hagain]
      -- the first insertion has been refused, and so is the second
      simp only [Bimap.insert_eq_self hagain]

end UmProxy

/-! ## Packets that are translated -/

/-- A TCP packet for a destination outside. -/
def IsOutboundTcp (b : List UInt8) : Prop :=
  ethtype b = kEthTypeIp ∧ proto b = kIpProtoTCP ∧ ipDst.read b ≠ hostInternalIpv4.bytes

instance (b : List UInt8) : Decidable (IsOutboundTcp b) :=
  inferInstanceAs (Decidable (_ ∧ _ ∧ _))

/-- A packet that is looked up: it is taken for a TCP packet from outside, whatever the type of its
frame. -/
def IsLookedUp (b : List UInt8) : Prop :=
  tcpStop ≤ b.length ∧ proto b = kIpProtoTCP ∧ PacketState.internalSource b = false

instance (b : List UInt8) : Decidable (IsLookedUp b) :=
  inferInstanceAs (Decidable (_ ∧ _ ∧ _))

namespace PacketState

/-- A packet from the address of the host and the port `nport`. -/
def withNatSource (net : Net) (nport : Port) (b : List UInt8) : List UInt8 :=
  tcpSrcPort.write (htons nport) (withIpSource net net.ipAddress b)

/-- A packet for the address of the client and the port `port`. -/
def withNatDestination (net : Net) (port : Port) (b : List UInt8) : List UInt8 :=
  tcpDstPort.write (htons port) (withClientAddresses net b)

variable {net : Net} {core : UmiCore} {s s' : PacketState} {buf buf' : IOBuf} {pinfo : PacketInfo}
  {b : List UInt8} {r : Outgoing}

/-! ## Packets that go out -/

section Outgoing

/-- The sender is marked in the manager only. -/
theorem markSender_ports {checked : Bool} (h : s.markSender checked b = .ok s') :
    s'.root = s.root ∧ s'.proxy = s.proxy := by
  unfold markSender at h
  by_cases htcp : proto b = kIpProtoTCP
  · rw [if_pos htcp] at h
    obtain ⟨_, -, h⟩ := bind_eq_ok.mp h
    split_ifs at h with hunder hpayload
    · cases hget : s.manager.getInstance s.proxy.umiId with
      | none => simp [hget] at h
      | some umi =>
        simp only [hget, Except.ok.injEq] at h
        subst h
        exact ⟨rfl, rfl⟩
    · obtain rfl := Except.ok.inj h
      exact ⟨rfl, rfl⟩
  · rw [if_neg htcp] at h
    obtain rfl := Except.ok.inj h
    exact ⟨rfl, rfl⟩

/-- Sending a packet that has been masked leaves the ports alone. -/
theorem sendMasked_ports {checked : Bool} (h : s.sendMasked checked buf = .ok (r, s')) :
    s'.root = s.root ∧ s'.proxy = s.proxy := by
  unfold sendMasked at h
  obtain ⟨internal, -, h⟩ := bind_eq_ok.mp h
  split_ifs at h
  · cases h
    exact ⟨rfl, rfl⟩
  · unfold sendExternal at h
    obtain ⟨_, -, h⟩ := bind_eq_ok.mp h
    obtain ⟨_, -, h⟩ := bind_eq_ok.mp h
    obtain ⟨t, ht, h⟩ := bind_eq_ok.mp h
    obtain ⟨-, rfl⟩ := Prod.mk.inj (Except.ok.inj h)
    exact markSender_ports ht

/-- A masked IP packet for a destination outside is sent without its Ethernet header. -/
theorem sendMasked_external {checked : Bool} (hlen : ipStop ≤ buf.first.length)
    (hip : ethtype buf.first = kEthTypeIp) (hdst : ipDst.read buf.first ≠ hostInternalIpv4.bytes)
    (h : s.sendMasked checked buf = .ok (r, s')) :
    ∃ t ip info, r = .sent t ip (buf.advance ethStop) info := by
  rw [sendMasked_of_external hlen (by
    rw [internalDestination_of_ip hlen hip, beq_eq_false_iff_ne.mpr hdst])] at h
  obtain ⟨_, -, h⟩ := bind_eq_ok.mp h
  obtain ⟨rfl, -⟩ := Prod.mk.inj (Except.ok.inj h)
  exact ⟨_, _, _, rfl⟩

/-- The masquerading translates the port of a TCP packet and no other one. -/
theorem masqueradeExternal_eq_ok {m : Option (List UInt8)} :
    s.masqueradeExternal net false core b = .ok (m, s') ↔
      if ethtype b = kEthTypeIp then ipStop ≤ b.length ∧
        if proto b = kIpProtoTCP then tcpStop ≤ b.length ∧
          m = some (withNatSource net
            (UmProxy.swizzlePortOut s.root core s.proxy (srcPort b)).1 b) ∧
          s' = { s with
            root := (UmProxy.swizzlePortOut s.root core s.proxy (srcPort b)).2.1
            proxy := (UmProxy.swizzlePortOut s.root core s.proxy (srcPort b)).2.2 }
        else m = some (withIpSource net net.ipAddress b) ∧ s' = s
      else m = none ∧ s' = s := by
  unfold masqueradeExternal
  by_cases hip : ethtype b = kEthTypeIp
  · simp only [if_pos hip, bind_eq_ok, maskIpSource_eq_ok]
    constructor
    · rintro ⟨_, ⟨hstop, -, rfl⟩, h⟩
      refine ⟨hstop, ?_⟩
      have hproto : proto (withIpSource net net.ipAddress b) = proto b := by
        rw [proto, read_withIpSource hstop (by decide) (by decide), proto]
      have hport : srcPort (withIpSource net net.ipAddress b) = srcPort b := by
        rw [srcPort, read_withIpSource hstop (by decide) (by decide), srcPort]
      rw [hproto, hport] at h
      split_ifs at h ⊢
      · obtain ⟨_, hget, h⟩ := bind_eq_ok.mp h
        rw [checkGet_eq_ok, length_withIpSource hstop] at hget
        obtain ⟨rfl, rfl⟩ := Prod.mk.inj (Except.ok.inj h)
        exact ⟨hget, rfl, rfl⟩
      · obtain ⟨rfl, rfl⟩ := Prod.mk.inj (Except.ok.inj h)
        exact ⟨rfl, rfl⟩
    · rintro ⟨hstop, h⟩
      refine ⟨_, ⟨hstop, Bool.noConfusion, rfl⟩, ?_⟩
      have hproto : proto (withIpSource net net.ipAddress b) = proto b := by
        rw [proto, read_withIpSource hstop (by decide) (by decide), proto]
      have hport : srcPort (withIpSource net net.ipAddress b) = srcPort b := by
        rw [srcPort, read_withIpSource hstop (by decide) (by decide), srcPort]
      rw [hproto, hport]
      split_ifs at h ⊢
      · obtain ⟨hget, rfl, rfl⟩ := h
        refine bind_eq_ok.mpr ⟨(), checkGet_eq_ok.mpr ?_, rfl⟩
        rwa [length_withIpSource hstop]
      · obtain ⟨rfl, rfl⟩ := h
        rfl
  · simp [hip, eq_comm]

/-- A packet that is not one of TCP for a destination outside leaves the ports alone. -/
theorem processOutgoing_ports_of_not (hb : ¬ IsOutboundTcp buf.first)
    (h : s.processOutgoing net false core buf = .ok (r, s')) :
    s'.root = s.root ∧ s'.proxy = s.proxy := by
  unfold processOutgoing at h
  obtain ⟨_, -, h⟩ := bind_eq_ok.mp h
  obtain ⟨keep, -, h⟩ := bind_eq_ok.mp h
  split_ifs at h
  · obtain ⟨⟨m, t⟩, hmasked, h⟩ := bind_eq_ok.mp h
    have ht : t.root = s.root ∧ t.proxy = s.proxy := by
      unfold natMasqueradeOut at hmasked
      obtain ⟨_, -, hmasked⟩ := bind_eq_ok.mp hmasked
      obtain ⟨_, -, hmasked⟩ := bind_eq_ok.mp hmasked
      obtain ⟨internal, hinternal, hmasked⟩ := bind_eq_ok.mp hmasked
      cases internal with
      | true =>
        obtain ⟨_, -, hmasked⟩ := bind_eq_ok.mp hmasked
        obtain ⟨-, rfl⟩ := Prod.mk.inj (Except.ok.inj hmasked)
        exact ⟨rfl, rfl⟩
      | false =>
        have hmasked := masqueradeExternal_eq_ok.mp hmasked
        split_ifs at hmasked with hip htcp
        · refine absurd ⟨hip, htcp, fun hhost => ?_⟩ hb
          obtain ⟨hstop, -⟩ := hmasked
          rw [internalDestination_of_ip hstop hip, hhost] at hinternal
          simp at hinternal
        · obtain ⟨-, -, rfl⟩ := hmasked
          exact ⟨rfl, rfl⟩
        · obtain ⟨-, rfl⟩ := hmasked
          exact ⟨rfl, rfl⟩
    cases m with
    | none =>
      obtain ⟨-, rfl⟩ := Prod.mk.inj (Except.ok.inj h)
      exact ht
    | some b =>
      obtain ⟨hroot, hproxy⟩ := sendMasked_ports h
      exact ⟨hroot.trans ht.1, hproxy.trans ht.2⟩
  · obtain ⟨-, rfl⟩ := Prod.mk.inj (Except.ok.inj h)
    exact ⟨rfl, rfl⟩

/-- A TCP packet for a destination outside is sent from the address of the host and from the port
that its own port is translated to. -/
theorem processOutgoing_ports (hb : IsOutboundTcp buf.first)
    (h : s.processOutgoing net false core buf = .ok (r, s')) :
    tcpStop ≤ buf.first.length ∧
      s'.root = (UmProxy.swizzlePortOut s.root core s.proxy (srcPort buf.first)).2.1 ∧
      s'.proxy = (UmProxy.swizzlePortOut s.root core s.proxy (srcPort buf.first)).2.2 ∧
      ∃ t ip info, r = .sent t ip ((buf.withFirst (withNatSource net
        (UmProxy.swizzlePortOut s.root core s.proxy (srcPort buf.first)).1 buf.first)).advance
          ethStop) info := by
  obtain ⟨hip, htcp, hdst⟩ := hb
  unfold processOutgoing at h
  obtain ⟨_, -, h⟩ := bind_eq_ok.mp h
  obtain ⟨keep, hkeep, h⟩ := bind_eq_ok.mp h
  rw [natPreprocessOut_of_ip (natPreprocessOut_eq_ok.mp hkeep).1 hip] at hkeep
  obtain rfl := Except.ok.inj hkeep
  rw [if_pos rfl] at h
  obtain ⟨⟨m, t⟩, hmasked, h⟩ := bind_eq_ok.mp h
  unfold natMasqueradeOut at hmasked
  obtain ⟨_, -, hmasked⟩ := bind_eq_ok.mp hmasked
  obtain ⟨_, -, hmasked⟩ := bind_eq_ok.mp hmasked
  obtain ⟨internal, hinternal, hmasked⟩ := bind_eq_ok.mp hmasked
  obtain ⟨-, hinternal⟩ := internalDestination_eq_ok.mp hinternal
  rw [if_neg (by rw [hip]; decide)] at hinternal
  obtain ⟨-, -, hinternal⟩ := hinternal
  rw [beq_eq_false_iff_ne.mpr hdst] at hinternal
  rw [hinternal, if_neg Bool.false_ne_true] at hmasked
  have hm := masqueradeExternal_eq_ok.mp hmasked
  rw [if_pos hip, if_pos htcp] at hm
  obtain ⟨hstop, hlen, rfl, ht⟩ := hm
  obtain ⟨htype, -, -, hread⟩ := read_masqueradeExternal hmasked
  have hlength := (masqueradeExternal_keeps hmasked).2.1
  obtain ⟨hroot, hproxy⟩ := sendMasked_ports h
  refine ⟨hlen, by rw [hroot, ht], by rw [hproxy, ht], ?_⟩
  exact sendMasked_external (hstop.trans_eq hlength.symm) htype (hread ▸ hdst) h

end Outgoing

/-! ## Packets that come in -/

section Incoming

variable {target : UmiId} {x : PacketState × Incoming}

theorem postMasq_ports {r : Incoming} (h : s.postMasq net target buf pinfo = .ok (r, s')) :
    s' = s := by
  unfold postMasq at h
  obtain ⟨_, -, h⟩ := bind_eq_ok.mp h
  cases hget : s.manager.getInstance target <;>
    · simp only [hget, Except.ok.injEq, Prod.mk.injEq] at h
      exact h.2.symm

/-- What becomes of a TCP packet for an instance of this core. -/
theorem processMapped_fst : (s.processMapped net target buf pinfo).map Prod.fst =
    match s.manager.getInstance target with
    | none => .ok (natConnectionReset net buf.first)
    | some umi => (setNeededChecksum net (buf.withFirst (s.natMasqueradeIn buf.first).1) pinfo).map
        (Incoming.delivered umi) := by
  unfold processMapped
  cases hget : s.manager.getInstance target with
  | none => rfl
  | some umi =>
    have hmanager : (s.natMasqueradeIn buf.first).2.manager.getInstance target = some umi := hget
    have hset : ∀ y : UmInstance, ((s.natMasqueradeIn buf.first).2.manager.setUmi umi y).getInstance
        target = some umi := fun _ => hget
    simp only [hmanager]
    split_ifs <;> unfold postMasq <;> simp only [hmanager, hset] <;>
      cases setNeededChecksum net (buf.withFirst (s.natMasqueradeIn buf.first).1) pinfo <;> rfl

/-- A second lookup changes nothing, so that the lookup of the packet is all that it does to the
ports. -/
theorem processMapped_ports {r : Incoming} (h : s.processMapped net target buf pinfo = .ok (r, s'))
    (hlookup : (UmProxy.externalPortmapLookup s.root s.proxy (dstPort buf.first)).2 = s.proxy) :
    s'.root = s.root ∧ s'.proxy = s.proxy := by
  have hswizzle : (s.natMasqueradeIn buf.first).2 = s := by
    simp only [natMasqueradeIn, UmProxy.swizzlePortIn, hlookup]
  unfold processMapped at h
  simp only [hswizzle] at h
  cases hget : s.manager.getInstance target with
  | none =>
    simp only [hget, Except.ok.injEq, Prod.mk.injEq] at h
    exact h.2 ▸ ⟨rfl, rfl⟩
  | some umi =>
    simp only [hget] at h
    split_ifs at h
    · exact postMasq_ports h ▸ ⟨rfl, rfl⟩
    · exact postMasq_ports h ▸ ⟨rfl, rfl⟩

/-- What becomes of a packet that is looked up. -/
theorem processExternalTcp_fst : (s.processExternalTcp net core buf pinfo).map Prod.fst =
    let mapping := (UmProxy.externalPortmapLookup s.root s.proxy (dstPort buf.first)).1
    if mapping = nullPortMapping then .ok (natConnectionReset net buf.first)
    else if core ≠ mapping.core then
      if mapping.core < net.cpuCount then .ok (.forwarded mapping.core buf pinfo)
      else .error .badCore
    else
      match s.manager.getInstance mapping.id with
      | none => .ok (natConnectionReset net buf.first)
      | some umi => (setNeededChecksum net
          (buf.withFirst (tcpDstPort.write (htons mapping.port) buf.first)) pinfo).map
            (Incoming.delivered umi) := by
  unfold processExternalTcp
  dsimp only
  split_ifs
  · rfl
  · rfl
  · rfl
  · rw [processMapped_fst]
    simp only [natMasqueradeIn, UmProxy.swizzlePortIn, UmProxy.externalPortmapLookup_again]

theorem processExternalTcp_ports {r : Incoming}
    (h : s.processExternalTcp net core buf pinfo = .ok (r, s')) : s'.root = s.root ∧
      s'.proxy = (UmProxy.externalPortmapLookup s.root s.proxy (dstPort buf.first)).2 := by
  unfold processExternalTcp at h
  dsimp only at h
  split_ifs at h
  · obtain ⟨-, rfl⟩ := Prod.mk.inj (Except.ok.inj h)
    exact ⟨rfl, rfl⟩
  · obtain ⟨-, rfl⟩ := Prod.mk.inj (Except.ok.inj h)
    exact ⟨rfl, rfl⟩
  · exact processMapped_ports h (UmProxy.externalPortmapLookup_twice ..)

/-- A packet that comes in is looked up, or leaves the ports alone. -/
theorem processIncoming_ports {r : Incoming} (hpre : natPreprocessIn net buf.first = .ok b)
    (h : s.processIncoming net core buf pinfo = .ok (r, s')) : s'.root = s.root ∧
      s'.proxy.portsOnly = if IsLookedUp b
        then (UmProxy.externalPortmapLookup s.root s.proxy (dstPort b)).2.portsOnly
        else s.proxy.portsOnly := by
  rw [processIncoming_eq hpre] at h
  unfold processPreprocessed at h
  rw [IOBuf.first_withFirst] at h
  by_cases htcp : tcpStop ≤ b.length ∧ proto b = kIpProtoTCP
  · rw [if_pos htcp] at h
    cases hsource : internalSource b with
    | true =>
      rw [if_neg fun hb : IsLookedUp b => Bool.noConfusion (hsource.symm.trans hb.2.2)]
      rw [hsource, if_pos rfl] at h
      unfold processInternalTcp at h
      simp only [IOBuf.first_withFirst] at h
      have hports := UmProxy.portsOnly_processIncomingInternal s.proxy (isSyn b) (srcPort b)
      rcases hinternal : s.proxy.processIncomingInternal (isSyn b) (srcPort b) with ⟨_ | target, x⟩
      · rw [hinternal] at h hports
        obtain ⟨-, rfl⟩ := Prod.mk.inj (Except.ok.inj h)
        exact ⟨rfl, hports⟩
      · rw [hinternal] at h hports
        obtain rfl := postMasq_ports h
        exact ⟨rfl, hports⟩
    | false =>
      rw [if_pos ⟨htcp.1, htcp.2, hsource⟩]
      rw [hsource, if_neg Bool.false_ne_true] at h
      obtain ⟨hroot, hproxy⟩ := processExternalTcp_ports h
      exact ⟨hroot, by rw [hproxy, IOBuf.first_withFirst]⟩
  · rw [if_neg htcp] at h
    rw [if_neg fun hb : IsLookedUp b => htcp ⟨hb.1, hb.2.1⟩, postMasq_ports h]
    exact ⟨rfl, rfl⟩

end Incoming

end PacketState

end Umm
