import Umm.Proxy.OutgoingSafety
import Umm.Proxy.Preprocess

/-!
# Which frames take the TCP path

A frame is one of TCP when its type is IP and the protocol of its IP header is TCP.
`ProcessIncoming` and `ProcessOutgoing` look at the protocol and not at the type, so that a frame of
another type can be taken for one of TCP, by what it has where a packet would have its protocol.

`plainIncoming` and `plainOutgoing` say how a frame that is not of TCP is to be handled.  Here it is
shown for which frames the functions do so.
-/

namespace Umm

open Foundations Umm.Frame

/-- The frame is one of TCP over IP. -/
def IsIpv4Tcp (b : List UInt8) : Prop :=
  ethtype b = kEthTypeIp ∧ proto b = kIpProtoTCP

/-- What becomes of a packet, whatever its bytes. -/
def Incoming.decision : Incoming → Incoming
  | .delivered umi _ => .delivered umi []
  | .forwarded core _ pinfo => .forwarded core [] pinfo
  | r => r

/-- What becomes of a packet, whatever its bytes. -/
def Outgoing.decision : Outgoing → Outgoing
  | .received _ => .received []
  | .sent ethtype _ _ pinfo => .sent ethtype [] [] pinfo
  | .dropped => .dropped

namespace PacketState

variable (net : Net)

/-! ## Frames that are not of TCP -/

/-- A packet that is not of TCP is for the active instance. -/
def plainIncoming (s : PacketState) (buf : IOBuf) (pinfo : PacketInfo) :
    Except PacketFault (Incoming × PacketState) := do
  let b ← natPreprocessIn net buf.first
  s.postMasq net s.proxy.umiId (buf.withFirst b) pinfo

/-- An ARP packet is for the host, and an IP packet is for its destination; other frames are
dropped. -/
def plainOutgoing (core : UmiCore) (s : PacketState) (buf : IOBuf) :
    Except PacketFault (Outgoing × PacketState) := do
  if ← natPreprocessOut buf.first then
    if ethtype buf.first = kEthTypeArp ∨ ethtype buf.first = kEthTypeIp then
      if ← internalDestination false buf.first then
        let b ← masqueradeInternal net false core buf.first
        .ok (.received (buf.withFirst b), s)
      else
        let b ← maskIpSource net false net.ipAddress buf.first
        .ok (.sent kEthTypeIp ((b.drop ethStop).take (ipStop - ethStop))
          ((buf.withFirst b).advance ethStop) outgoingInfo, s)
    else .ok (.dropped, s)
  else .ok (.dropped, s)

/-- Unless the frame is one of TCP, `ProcessIncoming` handles it as one that is not. -/
def IncomingTcpOnly (buf : IOBuf) : Prop :=
  ¬IsIpv4Tcp buf.first → ∀ core s pinfo,
    processIncoming net core s buf pinfo = s.plainIncoming net buf pinfo

/-- Unless the frame is one of TCP, `ProcessOutgoing` handles it as one that is not. -/
def OutgoingTcpOnly (buf : IOBuf) : Prop :=
  ¬IsIpv4Tcp buf.first → ∀ core s,
    processOutgoing net false core s buf = s.plainOutgoing net core buf

/-- If the frames are of the same type, and not of IP, what becomes of them is the same. -/
def SameIncoming (buf buf' : IOBuf) : Prop :=
  ethtype buf.first = ethtype buf'.first → ethtype buf.first ≠ kEthTypeIp → ∀ core s pinfo,
    (processIncoming net core s buf pinfo).map (fun r => (r.1.decision, r.2)) =
      (processIncoming net core s buf' pinfo).map fun r => (r.1.decision, r.2)

/-- The ARP packet asks for its own sender. -/
def isGratuitous (b : List UInt8) : Bool :=
  arpSpa.read b == arpTpa.read b

/-- If the frames are of the same type, and not of IP, what becomes of them is the same; of ARP
packets, the gratuitous ones are a type of their own. -/
def SameOutgoing (buf buf' : IOBuf) : Prop :=
  ethtype buf.first = ethtype buf'.first → ethtype buf.first ≠ kEthTypeIp →
    (ethtype buf.first = kEthTypeArp → isGratuitous buf.first = isGratuitous buf'.first) →
    ∀ core s, (processOutgoing net false core s buf).map (fun r => (r.1.decision, r.2)) =
      (processOutgoing net false core s buf').map fun r => (r.1.decision, r.2)

/-- The frame is not taken for one of TCP on the way in: if its type is not IP, it does not have the
number of TCP where the protocol would be. -/
def PlainIn (b : List UInt8) : Prop :=
  ethtype b ≠ kEthTypeIp → proto b ≠ kIpProtoTCP

/-- The frame is not taken for one of IP on the way out: if its type is one that the proxy does not
know, it does not have the address of the host where the destination would be. -/
def PlainOut (b : List UInt8) : Prop :=
  ethtype b ∉ [kEthTypeIp, kEthTypeArp, ethTypeIpv6] → ipDst.read b ≠ hostInternalIpv4.bytes

instance (b : List UInt8) : Decidable (PlainIn b) :=
  inferInstanceAs (Decidable (_ → _))

instance (b : List UInt8) : Decidable (PlainOut b) :=
  inferInstanceAs (Decidable (_ → _))

/-- Instance 1 is active and no port is mapped; the source ports belong to `owner`. -/
def owned (owner : UmiId) : PacketState where
  root := ProxyRoot.init
  proxy := { UmProxy.init with umiId := 1, hostSrcPortMapCache := fun _ => some owner }
  manager := { Core.init with status := .idle, activeUmi := some 1 }

/-! ## The way in -/

section Incoming

variable {net} {core : UmiCore} {s : PacketState} {buf buf' : IOBuf} {pinfo : PacketInfo}
  {b : List UInt8}

/-- A frame without the number of TCP is handled as one that is not of TCP. -/
theorem processIncoming_eq_plain (hproto : proto buf.first ≠ kIpProtoTCP) :
    s.processIncoming net core buf pinfo = s.plainIncoming net buf pinfo := by
  unfold processIncoming plainIncoming
  cases hpre : natPreprocessIn net buf.first with
  | error e => rfl
  | ok b =>
    have hproto' : ¬(tcpStop ≤ b.length ∧ proto b = kIpProtoTCP) := by
      rw [proto_natPreprocessIn hpre]
      exact fun h => hproto h.2
    exact if_neg hproto'

/-- A frame that is not of TCP is delivered, if the active instance is there. -/
theorem plainIncoming_delivered {umi : UmiId} (hlen : tcpStop ≤ buf.first.length)
    (hget : s.manager.getInstance s.proxy.umiId = some umi) :
    ∃ buf', s.plainIncoming net buf {} = .ok (.delivered umi buf', s) := by
  obtain ⟨b, hpre⟩ := natPreprocessIn_returns net hlen
  refine ⟨buf.withFirst b, ?_⟩
  unfold plainIncoming postMasq
  rw [hpre]
  simp only [bind, Except.bind]
  rw [hget]
  rfl

/-- No TCP packet is delivered when the source ports are those of an instance that is not there. -/
theorem processIncoming_owned (hlen : tcpStop ≤ buf.first.length)
    (hproto : proto buf.first = kIpProtoTCP) (umi : UmiId) (buf' : IOBuf) (s' : PacketState) :
    (owned 2).processIncoming net 0 buf {} ≠ .ok (.delivered umi buf', s') := by
  obtain ⟨b, hpre⟩ := natPreprocessIn_returns net hlen
  have htcp : tcpStop ≤ b.length ∧ proto b = kIpProtoTCP := by
    rw [(natPreprocessIn_keeps hpre).1, proto_natPreprocessIn hpre]
    exact ⟨hlen, hproto⟩
  have heq : (owned 2).processIncoming net 0 buf {} =
      (owned 2).processPreprocessed net 0 (buf.withFirst b) {} := by
    unfold processIncoming
    rw [hpre]
    rfl
  rw [heq]
  unfold processPreprocessed
  rw [IOBuf.first_withFirst, if_pos htcp]
  by_cases hsrc : internalSource b
  · rw [if_pos hsrc]
    have hlookup : ∀ syn port, (owned 2).proxy.processIncomingInternal syn port =
        (some 2, (owned 2).proxy) := by
      intro syn port
      cases syn <;> rfl
    intro h
    unfold processInternalTcp at h
    simp only [hlookup] at h
    cases h
  · rw [if_neg hsrc]
    have hlookup : (UmProxy.externalPortmapLookup (owned 2).root (owned 2).proxy (dstPort b)).1 =
        nullPortMapping := rfl
    intro h
    unfold processExternalTcp at h
    simp only [IOBuf.first_withFirst, hlookup, if_true] at h
    have hreset := (Prod.mk.inj (Except.ok.inj h)).1
    unfold natConnectionReset at hreset
    split_ifs at hreset

/-- On the way in, only a frame of TCP is handled as one, unless another one has the number of
TCP. -/
theorem incomingTcpOnly_iff (hlen : tcpStop ≤ buf.first.length) :
    IncomingTcpOnly net buf ↔ PlainIn buf.first := by
  constructor
  · intro h hip hproto
    obtain ⟨buf', hdelivered⟩ : ∃ buf', (owned 2).plainIncoming net buf {} =
        .ok (.delivered 1 buf', owned 2) := plainIncoming_delivered hlen (by decide)
    have hcode := h (fun htcp => hip htcp.1) 0 (owned 2) {}
    exact processIncoming_owned hlen hproto _ _ _ (hcode.trans hdelivered)
  · intro h htcp core s pinfo
    by_cases hip : ethtype buf.first = kEthTypeIp
    · exact processIncoming_eq_plain fun hproto => htcp ⟨hip, hproto⟩
    · exact processIncoming_eq_plain (h hip)

/-- What becomes of a frame that is not of TCP does not depend on its bytes. -/
theorem decision_plainIncoming (hlen : tcpStop ≤ buf.first.length) :
    (s.plainIncoming net buf pinfo).map (fun r => (r.1.decision, r.2)) =
      if pinfo.needsCsum ∧ pinfo.csumOffset ≠ 16 then .error .kabort
      else match s.manager.getInstance s.proxy.umiId with
        | none => .ok (.dropped, s)
        | some umi => .ok (.delivered umi [], s) := by
  obtain ⟨b, hpre⟩ := natPreprocessIn_returns net hlen
  have hb : tcpChecksum.stop ≤ (buf.withFirst b).first.length :=
    Nat.le_trans (by decide) (hlen.trans_eq (natPreprocessIn_keeps hpre).1.symm)
  unfold plainIncoming
  rw [hpre]
  change (postMasq net s s.proxy.umiId (buf.withFirst b) pinfo).map _ = _
  by_cases hneeds : pinfo.needsCsum = true
  · by_cases hoffset : pinfo.csumOffset = 16
    · unfold postMasq setNeededChecksum
      rw [if_pos hneeds, if_pos hoffset, setTcpChecksum_eq hb, if_neg (fun h => h.2 hoffset)]
      simp only [bind, Except.bind]
      cases s.manager.getInstance s.proxy.umiId <;> rfl
    · unfold postMasq setNeededChecksum
      rw [if_pos hneeds, if_neg hoffset, if_pos ⟨hneeds, hoffset⟩]
      rfl
  · unfold postMasq setNeededChecksum
    rw [if_neg hneeds, if_neg (fun h => hneeds h.1)]
    simp only [bind, Except.bind]
    cases s.manager.getInstance s.proxy.umiId <;> rfl

/-- Two frames that are not taken for ones of TCP are handled the same. -/
theorem sameIncoming_of_plainIn (hlen : tcpStop ≤ buf.first.length)
    (hlen' : tcpStop ≤ buf'.first.length) (h : PlainIn buf.first) (h' : PlainIn buf'.first) :
    SameIncoming net buf buf' := by
  intro htype hip core s pinfo
  rw [processIncoming_eq_plain (h hip), processIncoming_eq_plain (h' (htype ▸ hip)),
    decision_plainIncoming hlen, decision_plainIncoming hlen']

end Incoming

/-! ## The way out -/

section Outgoing

variable {net} {core : UmiCore} {s : PacketState} {buf buf' : IOBuf} {b b' : List UInt8}

/-- The protocol is no longer that of TCP once an ARP packet has been masked: the second byte of an
address of the proxy is there. -/
theorem proto_masqueradeInternal_of_arp (hlen : arpStop ≤ b.length) (harp : ethtype b = kEthTypeArp)
    (h : masqueradeInternal net false core b = .ok b') : proto b' = 0xfe := by
  have hmac := (coreLocalMac core).length_bytes
  obtain ⟨hlength, htype⟩ := write_ethSrc core (Nat.le_trans (by decide) hlen)
  have hsha : arpSha.stop ≤ (ethSrc.write (coreLocalMac core).bytes b).length :=
    Nat.le_trans (by decide) (hlen.trans_eq hlength.symm)
  have hspa : arpSpa.stop ≤ (arpSha.write (coreLocalMac core).bytes
      (ethSrc.write (coreLocalMac core).bytes b)).length := by
    rw [Field.length_write hmac hsha, hlength]
    exact Nat.le_trans (by decide) hlen
  unfold masqueradeInternal at h
  simp only [htype, if_pos harp] at h
  obtain ⟨_, -, h⟩ := bind_eq_ok.mp h
  obtain rfl := Except.ok.inj h
  rw [proto, Field.read_write_of_apart (by decide) (coreLocalIp core).length_bytes hspa,
    Field.read_write_of_within (by decide) (by decide) hmac hsha]
  rfl

/-- A masked packet for the host that is not of TCP is received. -/
theorem sendMasked_received (hdst : internalDestination false buf.first = .ok true)
    (hproto : proto buf.first ≠ kIpProtoTCP) :
    s.sendMasked false buf = .ok (.received buf, s) := by
  unfold sendMasked
  rw [hdst]
  have hsend : s.sendInternal buf = .received buf := by
    unfold sendInternal
    exact if_neg fun h => hproto h.2
  simp only [bind, Except.bind, if_true, hsend]

/-- A masked packet for a destination outside that is not of TCP is sent. -/
theorem sendMasked_sent (hlen : ipStop ≤ buf.first.length)
    (hdst : internalDestination false buf.first = .ok false)
    (hproto : proto buf.first ≠ kIpProtoTCP) :
    s.sendMasked false buf = .ok (.sent (ethtype buf.first)
      ((buf.first.drop ethStop).take (ipStop - ethStop)) (buf.advance ethStop) outgoingInfo, s) := by
  have hmark : s.markSender false buf.first = .ok s := by
    unfold markSender
    rw [if_neg hproto]
  rw [sendMasked_of_external hlen hdst, hmark]
  rfl

/-- The masquerading of an IP packet that is not of TCP leaves the ports as they are. -/
theorem masqueradeExternal_of_not_tcp (hlen : ipStop ≤ b.length) (hip : ethtype b = kEthTypeIp)
    (hproto : proto b ≠ kIpProtoTCP) : s.masqueradeExternal net false core b =
      .ok (some (withIpSource net net.ipAddress b), s) := by
  have hmask : maskIpSource net false net.ipAddress b = .ok (withIpSource net net.ipAddress b) :=
    maskIpSource_eq_ok.mpr ⟨hlen, Bool.noConfusion, rfl⟩
  have hproto' : proto (withIpSource net net.ipAddress b) ≠ kIpProtoTCP := by
    rw [proto, read_withIpSource hlen (by decide) (by decide)]
    exact hproto
  unfold masqueradeExternal
  rw [if_pos hip, hmask]
  simp only [bind, Except.bind, if_neg hproto']

/-- A packet for the host that is not of TCP, once it has been masked, is received. -/
theorem processOutgoing_received (hlen : ethStop ≤ buf.first.length)
    (hkeep : natPreprocessOut buf.first = .ok true)
    (hdst : internalDestination false buf.first = .ok true)
    (hmasked : ∀ b, masqueradeInternal net false core buf.first = .ok b →
      internalDestination false b = .ok true ∧ proto b ≠ kIpProtoTCP) :
    s.processOutgoing net false core buf = (do
      let b ← masqueradeInternal net false core buf.first
      .ok (.received (buf.withFirst b), s)) := by
  rw [processOutgoing_of_internal hlen hkeep hdst]
  cases hmask : masqueradeInternal net false core buf.first with
  | error e => rfl
  | ok b =>
    have hb : internalDestination false (buf.withFirst b).first = .ok true ∧
        proto (buf.withFirst b).first ≠ kIpProtoTCP := hmasked b hmask
    exact sendMasked_received hb.1 hb.2

/-- Which packets are kept. -/
theorem natPreprocessOut_eq (hlen : arpStop ≤ b.length) : natPreprocessOut b =
    .ok (if ethtype b = kEthTypeArp then !isGratuitous b else ethtype b != ethTypeIpv6) := by
  rw [natPreprocessOut_eq_ok]
  refine ⟨Nat.le_trans (by decide) hlen, ?_⟩
  split_ifs
  · exact ⟨hlen, rfl⟩
  · rfl

/-- An ARP packet is handled as one that is not of TCP. -/
theorem processOutgoing_eq_plain_of_arp (hlen : arpStop ≤ buf.first.length)
    (harp : ethtype buf.first = kEthTypeArp) :
    s.processOutgoing net false core buf = s.plainOutgoing net core buf := by
  have heth : ethStop ≤ buf.first.length := Nat.le_trans (by decide) hlen
  have hkeep := natPreprocessOut_eq hlen
  rw [if_pos harp] at hkeep
  have hdst : internalDestination false buf.first = .ok true := internalDestination_of_arp heth harp
  unfold plainOutgoing
  rw [hkeep]
  cases hgratuitous : isGratuitous buf.first with
  | true =>
    rw [hgratuitous] at hkeep
    exact processOutgoing_of_dropped heth hkeep
  | false =>
    rw [hgratuitous] at hkeep
    rw [processOutgoing_received heth hkeep hdst fun b hb => ?_]
    · simp only [Bool.not_false, bind, Except.bind, if_true, if_pos (Or.inl harp), hdst]
    · have hlength := (masqueradeInternal_keeps heth hb).1
      refine ⟨internalDestination_of_arp (heth.trans_eq hlength.symm)
        ((ethtype_masqueradeInternal heth hb).trans harp), ?_⟩
      rw [proto_masqueradeInternal_of_arp hlen harp hb]
      decide

/-- A packet of IP that is not of TCP is handled as one that is not. -/
theorem processOutgoing_eq_plain_of_ip (hlen : arpStop ≤ buf.first.length)
    (hip : ethtype buf.first = kEthTypeIp) (hproto : proto buf.first ≠ kIpProtoTCP) :
    s.processOutgoing net false core buf = s.plainOutgoing net core buf := by
  have heth : ethStop ≤ buf.first.length := Nat.le_trans (by decide) hlen
  have hstop : ipStop ≤ buf.first.length := Nat.le_trans (by decide) hlen
  have hne : ethtype buf.first ≠ kEthTypeArp := by rw [hip]; decide
  have hkeep := natPreprocessOut_of_ip heth hip
  have hdst : internalDestination false buf.first = _ := internalDestination_of_ip hstop hip
  unfold plainOutgoing
  rw [hkeep, hdst]
  simp only [bind, Except.bind, if_true, if_pos (Or.inr hip)]
  cases hhost : ipDst.read buf.first == hostInternalIpv4.bytes with
  | true =>
    rw [processOutgoing_received heth hkeep (hhost ▸ hdst) fun b hb => ?_]
    · rfl
    · have hlength := (masqueradeInternal_keeps heth hb).1
      obtain ⟨hread, hproto'⟩ := read_masqueradeInternal heth hne hb
      rw [internalDestination_of_ip (hstop.trans_eq hlength.symm)
        ((ethtype_masqueradeInternal heth hb).trans hip), hread, hhost, hproto']
      exact ⟨rfl, hproto⟩
  | false =>
    obtain ⟨b, hb⟩ : ∃ b, b = withIpSource net net.ipAddress buf.first := ⟨_, rfl⟩
    have hmask : maskIpSource net false net.ipAddress buf.first = .ok b :=
      maskIpSource_eq_ok.mpr ⟨hstop, Bool.noConfusion, hb⟩
    have hmasq : s.masqueradeExternal net false core buf.first = .ok (some b, s) :=
      hb ▸ masqueradeExternal_of_not_tcp hstop hip hproto
    obtain ⟨htype, hproto', -, hread⟩ := read_masqueradeExternal hmasq
    have hlen' : ipStop ≤ b.length := hstop.trans_eq (masqueradeExternal_keeps hmasq).2.1.symm
    have hdst' : internalDestination false b = .ok false := by
      rw [internalDestination_of_ip hlen' htype, hread, hhost]
    have hsent : s.sendMasked false (buf.withFirst b) = .ok (.sent (ethtype b)
        ((b.drop ethStop).take (ipStop - ethStop)) ((buf.withFirst b).advance ethStop)
        outgoingInfo, s) := sendMasked_sent hlen' hdst' (hproto' ▸ hproto)
    rw [processOutgoing_of_external heth hkeep (hhost ▸ hdst), hmasq, hmask]
    rw [htype] at hsent
    exact hsent

/-- A packet of another type is dropped, unless it has the address of the host. -/
theorem processOutgoing_eq_plain_of_other (hlen : arpStop ≤ buf.first.length)
    (hip : ethtype buf.first ≠ kEthTypeIp) (harp : ethtype buf.first ≠ kEthTypeArp)
    (hdst : ethtype buf.first ≠ ethTypeIpv6 → ipDst.read buf.first ≠ hostInternalIpv4.bytes) :
    s.processOutgoing net false core buf = s.plainOutgoing net core buf := by
  have heth : ethStop ≤ buf.first.length := Nat.le_trans (by decide) hlen
  have hkeep := natPreprocessOut_eq hlen
  rw [if_neg harp] at hkeep
  unfold plainOutgoing
  rw [hkeep]
  cases hv6 : ethtype buf.first != ethTypeIpv6 with
  | false => exact processOutgoing_of_dropped heth (hv6 ▸ hkeep)
  | true =>
    have hhost : internalDestination false buf.first = .ok false := by
      rw [internalDestination_eq (Nat.le_trans (by decide) hlen), beq_eq_false_iff_ne.mpr harp,
        beq_eq_false_iff_ne.mpr (hdst (bne_iff_ne.mp hv6)), Bool.false_or]
    have hmasq : s.masqueradeExternal net false core buf.first = .ok (none, s) := if_neg hip
    rw [processOutgoing_of_external heth (hv6 ▸ hkeep) hhost, hmasq]
    simp only [bind, Except.bind, if_true, if_neg (not_or.mpr ⟨harp, hip⟩)]

/-- A packet of another type is received when it has the address of the host. -/
theorem processOutgoing_owned (hlen : arpStop ≤ buf.first.length)
    (htype : ethtype buf.first ∉ [kEthTypeIp, kEthTypeArp, ethTypeIpv6])
    (hdst : ipDst.read buf.first = hostInternalIpv4.bytes) :
    ∃ buf', (owned 1).processOutgoing net false core buf = .ok (.received buf', owned 1) := by
  simp only [List.mem_cons, List.not_mem_nil, or_false, not_or] at htype
  obtain ⟨hip, harp, hv6⟩ := htype
  have heth : ethStop ≤ buf.first.length := Nat.le_trans (by decide) hlen
  have hstop : ipStop ≤ buf.first.length := Nat.le_trans (by decide) hlen
  have hkeep : natPreprocessOut buf.first = .ok true := by
    rw [natPreprocessOut_eq hlen, if_neg harp, bne_iff_ne.mpr hv6]
  have hhost : ∀ b : List UInt8, ipStop ≤ b.length → ipDst.read b = hostInternalIpv4.bytes →
      internalDestination false b = .ok true := by
    intro b hb hread
    rw [internalDestination_eq hb, beq_iff_eq.mpr hread, Bool.or_true]
  have hmask : ∃ b, masqueradeInternal net false core buf.first = .ok b := by
    have htype' := (write_ethSrc core heth).2
    unfold masqueradeInternal
    simp only [htype', if_neg harp, if_neg hip]
    exact ⟨_, rfl⟩
  obtain ⟨b, hb⟩ := hmask
  have hlength := (masqueradeInternal_keeps heth hb).1
  have hdst' : ipDst.read b = hostInternalIpv4.bytes :=
    (read_masqueradeInternal heth harp hb).1.trans hdst
  have hsend : (owned 1).sendInternal (buf.withFirst b) = .received (buf.withFirst b) := by
    have hport : (owned 1).checkInternalPort (buf.withFirst b) = .received (buf.withFirst b) := rfl
    unfold sendInternal
    rw [hport, ite_self]
  rw [processOutgoing_of_internal heth hkeep (hhost _ hstop hdst), hb]
  refine ⟨buf.withFirst b, ?_⟩
  have hafter := hhost b (hstop.trans_eq hlength.symm) hdst'
  simp only [bind, Except.bind, sendMasked, IOBuf.first_withFirst, hafter, if_true, hsend]

/-- On the way out, only a frame of IP is handled as one, unless another one has the address of the
host. -/
theorem outgoingTcpOnly_iff (hlen : arpStop ≤ buf.first.length) :
    OutgoingTcpOnly net buf ↔ PlainOut buf.first := by
  constructor
  · intro h htype hdst
    obtain ⟨buf', hreceived⟩ : ∃ buf', (owned 1).processOutgoing net false 0 buf =
        .ok (.received buf', owned 1) := processOutgoing_owned hlen htype hdst
    have hcode := h (fun htcp => htype (by simp [htcp.1])) 0 (owned 1)
    simp only [List.mem_cons, List.not_mem_nil, or_false, not_or] at htype
    have hplain : (owned 1).plainOutgoing net 0 buf = .ok (.dropped, owned 1) := by
      unfold plainOutgoing
      rw [natPreprocessOut_eq hlen, if_neg htype.2.1, bne_iff_ne.mpr htype.2.2]
      simp only [bind, Except.bind, if_true, if_neg (not_or.mpr ⟨htype.2.1, htype.1⟩)]
    cases hreceived.symm.trans (hcode.trans hplain)
  · intro h htcp core s
    by_cases hip : ethtype buf.first = kEthTypeIp
    · exact processOutgoing_eq_plain_of_ip hlen hip fun hproto => htcp ⟨hip, hproto⟩
    by_cases harp : ethtype buf.first = kEthTypeArp
    · exact processOutgoing_eq_plain_of_arp hlen harp
    · exact processOutgoing_eq_plain_of_other hlen hip harp fun hv6 =>
        h (by simp [hip, harp, hv6])

/-- What becomes of a frame that is not of IP depends only on its type, and of an ARP packet on
whether it is gratuitous. -/
theorem decision_plainOutgoing (hlen : arpStop ≤ buf.first.length)
    (hip : ethtype buf.first ≠ kEthTypeIp) :
    (s.plainOutgoing net core buf).map (fun r => (r.1.decision, r.2)) =
      if ethtype buf.first = kEthTypeArp ∧ isGratuitous buf.first = false then .ok (.received [], s)
      else .ok (.dropped, s) := by
  have hkeep := natPreprocessOut_eq hlen
  by_cases harp : ethtype buf.first = kEthTypeArp
  · rw [if_pos harp] at hkeep
    cases hgratuitous : isGratuitous buf.first with
    | true =>
      have hplain : s.plainOutgoing net core buf = .ok (.dropped, s) := by
        unfold plainOutgoing
        rw [hkeep, hgratuitous]
        rfl
      rw [hplain, if_neg fun h => Bool.noConfusion h.2]
      rfl
    | false =>
      have hdst : internalDestination false buf.first = .ok true :=
        internalDestination_of_arp (Nat.le_trans (by decide) hlen) harp
      obtain ⟨b, hb⟩ : ∃ b, masqueradeInternal net false core buf.first = .ok b :=
        (masqueradeInternal_returns (Nat.le_trans (by decide) hlen) (Or.inl harp)).mpr
          (by rwa [if_pos harp])
      have hplain : s.plainOutgoing net core buf = .ok (.received (buf.withFirst b), s) := by
        unfold plainOutgoing
        rw [hkeep, hgratuitous, hdst, hb]
        simp only [Bool.not_false, bind, Except.bind, if_true, if_pos (Or.inl harp)]
      rw [hplain, if_pos ⟨harp, rfl⟩]
      rfl
  · rw [if_neg harp] at hkeep
    have hplain : s.plainOutgoing net core buf = .ok (.dropped, s) := by
      unfold plainOutgoing
      rw [hkeep]
      simp only [bind, Except.bind, if_neg (not_or.mpr ⟨harp, hip⟩), ite_self]
    rw [hplain, if_neg fun h => harp h.1]
    rfl

/-- Two frames that are not taken for ones of IP are handled the same. -/
theorem sameOutgoing_of_plainOut (hlen : arpStop ≤ buf.first.length)
    (hlen' : arpStop ≤ buf'.first.length) (h : PlainOut buf.first) (h' : PlainOut buf'.first) :
    SameOutgoing net buf buf' := by
  intro htype hip hgratuitous core s
  have hip' : ethtype buf'.first ≠ kEthTypeIp := htype ▸ hip
  have hcode : s.processOutgoing net false core buf = s.plainOutgoing net core buf :=
    (outgoingTcpOnly_iff hlen).mpr h (fun htcp => hip htcp.1) core s
  have hcode' : s.processOutgoing net false core buf' = s.plainOutgoing net core buf' :=
    (outgoingTcpOnly_iff hlen').mpr h' (fun htcp => hip' htcp.1) core s
  rw [hcode, hcode', decision_plainOutgoing hlen hip, decision_plainOutgoing hlen' hip', ← htype]
  by_cases harp : ethtype buf.first = kEthTypeArp
  · rw [hgratuitous harp]
  · rw [if_neg fun h => harp h.1, if_neg fun h => harp h.1]

end Outgoing

/-! ## The law -/

section Law

variable {net} {buf buf' : IOBuf}

/-- For two chains whose first buffers have room for the three headers, in the default build: only
frames of TCP over IP are handled as such on the way in, and what becomes of frames of another type
is the same for both, exactly when neither has the number of TCP where the protocol would be without
being of type IP; on the way out, exactly when neither is of an unknown type and has the address of
the host where the destination would be. -/
theorem tcpOnly_iff (hlen : tcpStop ≤ buf.first.length) (hlen' : tcpStop ≤ buf'.first.length) :
    (IncomingTcpOnly net buf ∧ IncomingTcpOnly net buf' ∧ SameIncoming net buf buf' ↔
      PlainIn buf.first ∧ PlainIn buf'.first) ∧
    (OutgoingTcpOnly net buf ∧ OutgoingTcpOnly net buf' ∧ SameOutgoing net buf buf' ↔
      PlainOut buf.first ∧ PlainOut buf'.first) := by
  have harp : arpStop ≤ buf.first.length := Nat.le_trans (by decide) hlen
  have harp' : arpStop ≤ buf'.first.length := Nat.le_trans (by decide) hlen'
  refine ⟨⟨?_, ?_⟩, ?_, ?_⟩
  · rintro ⟨h, h', -⟩
    exact ⟨(incomingTcpOnly_iff hlen).mp h, (incomingTcpOnly_iff hlen').mp h'⟩
  · rintro ⟨h, h'⟩
    exact ⟨(incomingTcpOnly_iff hlen).mpr h, (incomingTcpOnly_iff hlen').mpr h',
      sameIncoming_of_plainIn hlen hlen' h h'⟩
  · rintro ⟨h, h', -⟩
    exact ⟨(outgoingTcpOnly_iff harp).mp h, (outgoingTcpOnly_iff harp').mp h'⟩
  · rintro ⟨h, h'⟩
    exact ⟨(outgoingTcpOnly_iff harp).mpr h, (outgoingTcpOnly_iff harp').mpr h',
      sameOutgoing_of_plainOut harp harp' h h'⟩

/-- Two ARP requests padded to 60 bytes, from senders whose addresses differ in the second byte. -/
theorem tcpOnly_arp : ∃ buf buf' : IOBuf, buf ≠ buf' ∧
    SameIncoming (Net.onesComplement ⟨[10, 0, 0, 2], rfl⟩ 2) buf buf' ∧
    SameOutgoing (Net.onesComplement ⟨[10, 0, 0, 2], rfl⟩ 2) buf buf' := by
  obtain ⟨frame, hframe⟩ : ∃ frame : List UInt8, frame = List.replicate 12 1 ++
    [0x08, 0x06, 0, 1, 8, 0, 6, 4, 0, 1, 2, 5, 0, 0, 0, 1, 10, 0, 0, 9] ++
      List.replicate 28 0 := ⟨_, rfl⟩
  obtain ⟨frame', hframe'⟩ : ∃ frame : List UInt8, frame = List.replicate 12 1 ++
    [0x08, 0x06, 0, 1, 8, 0, 6, 4, 0, 1, 2, 7, 0, 0, 0, 1, 10, 0, 0, 9] ++
      List.replicate 28 0 := ⟨_, rfl⟩
  have hlen : tcpStop ≤ (IOBuf.first [frame]).length := by subst hframe; decide
  have hlen' : tcpStop ≤ (IOBuf.first [frame']).length := by subst hframe'; decide
  obtain ⟨hin, hout⟩ := tcpOnly_iff hlen hlen'
  refine ⟨[frame], [frame'], ?_, (hin.mpr ⟨?_, ?_⟩).2.2, (hout.mpr ⟨?_, ?_⟩).2.2⟩
  all_goals
    subst hframe hframe'
    decide

/-- A padded ARP request from a sender whose address has a 6 as its second byte is reset, instead of
delivered; and a frame of an unknown type with the address of the host is received, instead of
dropped. -/
theorem arp_reset :
    ((owned 1).processIncoming (Net.onesComplement ⟨[10, 0, 0, 2], rfl⟩ 2) 0
      [List.replicate 12 1 ++ [0x08, 0x06, 0, 1, 8, 0, 6, 4, 0, 1, 2, 6, 0, 0, 0, 1,
        10, 0, 0, 9] ++ List.replicate 28 0] {}).map (fun r => r.1) =
      .ok (.reset 0 ⟨[10, 0, 0, 2], rfl⟩ [0, 1, 10, 0] 0 0) ∧
    ((owned 1).processOutgoing (Net.onesComplement ⟨[10, 0, 0, 2], rfl⟩ 2) false 0
      [List.replicate 12 1 ++ [0x88, 0xcc] ++ List.replicate 16 0 ++ hostInternalIpv4.bytes ++
        List.replicate 26 0]).map (fun r => r.1.decision) = .ok (.received []) := by
  decide

end Law

end PacketState

end Umm
