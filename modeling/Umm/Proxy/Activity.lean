import Umm.Manager.Rules
import Umm.Proxy.OutgoingSafety
import Umm.Proxy.Redirect

/-!
# Activity flags

TCP segments with payload switch the activity flag of an instance: it becomes active when it gets
one from outside, and inactive when it sends one.  The proxy takes for the payload what the first
buffer of the packet holds after the headers.

`IsTcpSegment` are the packets whose length fields say how much payload there is, with padding
after it and the payload spread over the chain at will.
-/

namespace Umm

open Foundations Umm.Frame

namespace PacketState

variable {net : Net} {core : UmiCore} {s s' : PacketState} {buf buf' : IOBuf} {pinfo : PacketInfo}
  {b : List UInt8} {target umi : UmiId}

/-! ## Packets that are delivered -/

section Delivered

/-- When the end of `ProcessIncoming` delivers a packet. -/
theorem postMasq_eq_delivered : s.postMasq net target buf pinfo = .ok (.delivered umi buf', s') ↔
    setNeededChecksum net buf pinfo = .ok buf' ∧ s.manager.getInstance target = some umi ∧
      s' = s := by
  unfold postMasq
  rw [bind_eq_ok]
  cases hget : s.manager.getInstance target with
  | none => simp
  | some x =>
    constructor
    · rintro ⟨buf'', hset, h⟩
      simp only [Except.ok.injEq, Prod.mk.injEq, Incoming.delivered.injEq] at h
      obtain ⟨⟨rfl, rfl⟩, rfl⟩ := h
      exact ⟨hset, rfl, rfl⟩
    · rintro ⟨hset, hx, rfl⟩
      obtain rfl := Option.some.inj hx
      exact ⟨buf', hset, rfl⟩

theorem natConnectionReset_ne_delivered {b : List UInt8} (umi : UmiId) (buf' : IOBuf) :
    natConnectionReset net b ≠ .delivered umi buf' := by
  unfold natConnectionReset
  split_ifs <;> simp

/-- A segment that is delivered to an instance has its port, and the instance is marked active when
the first buffer goes on after the headers. -/
theorem processMapped_delivered
    (h : s.processMapped net target buf pinfo = .ok (.delivered umi buf', s')) :
    setNeededChecksum net (buf.withFirst (s.natMasqueradeIn buf.first).1) pinfo = .ok buf' ∧
      s.manager.getInstance target = some umi ∧ s'.manager = if 0 < payloadLen buf.first
        then s.manager.setUmi umi (s.manager.umis umi).setActive else s.manager := by
  unfold processMapped at h
  cases hget : s.manager.getInstance target with
  | none =>
    simp only [hget] at h
    exact absurd (Prod.mk.inj (Except.ok.inj h)).1 (natConnectionReset_ne_delivered _ _)
  | some x =>
    have hmanager : (s.natMasqueradeIn buf.first).2.manager = s.manager := rfl
    simp only [hget, hmanager] at h
    split_ifs at h with hpayload
    · obtain ⟨hset, htarget, rfl⟩ := postMasq_eq_delivered.mp h
      obtain rfl := Option.some.inj (hget.symm.trans htarget)
      rw [if_pos hpayload]
      exact ⟨hset, rfl, rfl⟩
    · obtain ⟨hset, htarget, rfl⟩ := postMasq_eq_delivered.mp h
      rw [if_neg hpayload]
      exact ⟨hset, hget.symm.trans htarget, hmanager⟩

/-- A TCP packet from outside that is delivered has been preprocessed and has the port of its
mapping. -/
theorem processIncoming_delivered (hbuf : IsExternalTcp buf)
    (hpre : natPreprocessIn net buf.first = .ok b)
    (h : s.processIncoming net core buf pinfo = .ok (.delivered umi buf', s')) :
    setNeededChecksum net (buf.withFirst (tcpDstPort.write (htons (UmProxy.externalPortmapLookup
      s.root s.proxy (dstPort buf.first)).1.port) b)) pinfo = .ok buf' ∧
      s.manager.getInstance (UmProxy.externalPortmapLookup s.root s.proxy
        (dstPort buf.first)).1.id = some umi ∧ s'.manager = if 0 < payloadLen b
        then s.manager.setUmi umi (s.manager.umis umi).setActive else s.manager := by
  have hport : dstPort b = dstPort buf.first := (hbuf.preprocessed hpre).2
  rw [hbuf.processIncoming_eq hpre] at h
  unfold processExternalTcp at h
  simp only [IOBuf.first_withFirst, hport] at h
  split_ifs at h with hnull hcore hcpu
  · exact absurd (Prod.mk.inj (Except.ok.inj h)).1 (natConnectionReset_ne_delivered _ _)
  · cases h
  · have hmapped := processMapped_delivered h
    rw [IOBuf.first_withFirst, IOBuf.withFirst_withFirst] at hmapped
    have hswizzle : (natMasqueradeIn ⟨s.root, (UmProxy.externalPortmapLookup s.root s.proxy
        (dstPort buf.first)).2, s.manager⟩ b).1 = tcpDstPort.write (htons
          (UmProxy.externalPortmapLookup s.root s.proxy (dstPort buf.first)).1.port) b := by
      simp only [natMasqueradeIn, UmProxy.swizzlePortIn, hport, UmProxy.externalPortmapLookup_again]
    rw [hswizzle] at hmapped
    exact hmapped

/-- Such a packet and the signal of `WritePacket` are one step of the manager: `ProcessIncoming` of a
packet for the instance that the port is mapped to. -/
theorem processIncoming_refines (hbuf : IsExternalTcp buf)
    (hpre : natPreprocessIn net buf.first = .ok b)
    (h : s.processIncoming net core buf pinfo = .ok (.delivered umi buf', s')) :
    s'.manager.signalResume umi = s.manager.processIncoming
      (UmProxy.externalPortmapLookup s.root s.proxy (dstPort buf.first)).1.id
        (decide (0 < payloadLen b)) := by
  obtain ⟨-, htarget, hmanager⟩ := processIncoming_delivered hbuf hpre h
  unfold Core.processIncoming
  rw [htarget, hmanager]
  simp only [decide_eq_true_eq]

end Delivered

/-! ## Packets that are sent -/

section Sent

/-- The sender of a TCP segment is marked inactive when the first buffer goes on after the
headers. -/
theorem markSender_eq (hlen : tcpStop ≤ b.length) (htcp : proto b = kIpProtoTCP)
    (hsender : s.manager.getInstance s.proxy.umiId = some umi) :
    ∃ s', s.markSender false b = .ok s' ∧ s'.manager = if 0 < payloadLen b
      then s.manager.setUmi umi (s.manager.umis umi).setInactive else s.manager := by
  have hget : checkGet tcpStop b = .ok () := checkGet_eq_ok.mpr hlen
  unfold markSender
  rw [if_pos htcp, hget]
  simp only [Bool.false_and, Bool.false_eq_true, if_false, bind, Except.bind, hsender]
  split_ifs
  · exact ⟨_, rfl, rfl⟩
  · exact ⟨_, rfl, rfl⟩

/-- A TCP packet for a destination outside is sent, and its sender is marked inactive when the first
buffer goes on after the headers. -/
theorem processOutgoing_sent (hlen : tcpStop ≤ buf.first.length)
    (hip : ethtype buf.first = kEthTypeIp) (htcp : proto buf.first = kIpProtoTCP)
    (hdst : ipDst.read buf.first ≠ hostInternalIpv4.bytes)
    (hsender : s.manager.getInstance s.proxy.umiId = some umi) :
    ∃ r s', s.processOutgoing net false core buf = .ok (r, s') ∧
      s'.manager = if 0 < payloadLen buf.first
        then s.manager.setUmi umi (s.manager.umis umi).setInactive else s.manager := by
  have hstop : ipStop ≤ buf.first.length := Nat.le_trans (by decide) hlen
  have heth : ethStop ≤ buf.first.length := Nat.le_trans (by decide) hlen
  have hkeep := natPreprocessOut_of_ip heth hip
  have hexternal : ∀ b : List UInt8, ipStop ≤ b.length → ethtype b = kEthTypeIp →
      ipDst.read b ≠ hostInternalIpv4.bytes → internalDestination false b = .ok false := by
    intro b hb htype hread
    rw [internalDestination_of_ip hb htype, beq_eq_false_iff_ne.mpr hread]
  obtain ⟨b, t, hmask⟩ : ∃ b t, s.masqueradeExternal net false core buf.first = .ok (some b, t) :=
    (masqueradeExternal_returns hip).mpr ⟨hstop, Bool.noConfusion, fun _ => hlen⟩
  obtain ⟨-, hlength, -, hmanager, humi⟩ := masqueradeExternal_keeps hmask
  obtain ⟨htype, hproto, hhdr, hread⟩ := read_masqueradeExternal hmask
  have hdst' : ipDst.read b ≠ hostInternalIpv4.bytes := hread ▸ hdst
  have hpayload : payloadLen b = payloadLen buf.first := by
    rw [payloadLen, hlength, hhdr, payloadLen]
  have hb : ipStop ≤ (buf.withFirst b).first.length := hstop.trans_eq hlength.symm
  rw [← hmanager, ← humi] at hsender
  obtain ⟨s', hmark, hs'⟩ := markSender_eq (hlen.trans_eq hlength.symm) (hproto.trans htcp)
    hsender
  rw [hpayload, hmanager] at hs'
  have hsend : t.sendMasked false (buf.withFirst b) = .ok (.sent (ethtype b)
      ((b.drop ethStop).take (ipStop - ethStop)) ((buf.withFirst b).advance ethStop)
      outgoingInfo, s') := by
    rw [sendMasked_of_external hb (hexternal b hb htype hdst'), IOBuf.first_withFirst, hmark]
    rfl
  rw [processOutgoing_of_external heth hkeep (hexternal _ hstop hip hdst), hmask]
  exact ⟨_, s', hsend, hs'⟩

/-- Such a packet is one step of the manager: `ProcessOutgoing` of an external TCP packet. -/
theorem processOutgoing_refines (hlen : tcpStop ≤ buf.first.length)
    (hip : ethtype buf.first = kEthTypeIp) (htcp : proto buf.first = kIpProtoTCP)
    (hdst : ipDst.read buf.first ≠ hostInternalIpv4.bytes)
    (hproxy : s.manager.proxyUmi = s.proxy.umiId)
    (hsender : s.manager.getInstance s.proxy.umiId = some umi) (writer : UmiId) :
    ∃ r s', s.processOutgoing net false core buf = .ok (r, s') ∧
      s.manager.processOutgoing writer ⟨true, true, payloadLen buf.first⟩ =
        .ok { s'.manager with sent := (writer, s.proxy.umiId) :: s.manager.sent } := by
  obtain ⟨r, s', h, hmanager⟩ : ∃ r s', s.processOutgoing net false core buf = .ok (r, s') ∧ _ :=
    processOutgoing_sent hlen hip htcp hdst hsender
  refine ⟨r, s', h, ?_⟩
  rw [← hproxy] at hsender ⊢
  have hget : Core.getInstance { s.manager with
      sent := (writer, s.manager.proxyUmi) :: s.manager.sent } s.manager.proxyUmi = some umi := hsender
  have hexternal : OutPacket.isExternalTcp ⟨true, true, payloadLen buf.first⟩ = true := rfl
  unfold Core.processOutgoing
  rw [if_pos hexternal, hmanager]
  by_cases hpayload : 0 < payloadLen buf.first
  · simp only [if_pos hpayload, hget]
    rfl
  · simp only [if_neg hpayload]

end Sent

/-! ## The law -/

/-- By its length fields, the packet has payload: it goes on after the two headers. -/
def HasPayload (b : List UInt8) : Prop :=
  ipStop - ethStop + hdrLen b < totalLength b

instance (b : List UInt8) : Decidable (HasPayload b) :=
  inferInstanceAs (Decidable (_ < _))

/-- The packet is one of TCP over IP, without options in its IP header.  Its length fields fit to
each other and to the chain, which may go on after the packet; the headers are in the first
buffer. -/
structure IsTcpSegment (buf : IOBuf) : Prop where
  /-- The frame is of type IP. -/
  ip : ethtype buf.first = kEthTypeIp
  /-- The protocol is TCP. -/
  tcp : proto buf.first = kIpProtoTCP
  /-- The IP header has no options. -/
  ihl : ihl buf.first = 5
  /-- The TCP header is one at least without options. -/
  header : tcpStop - ipStop ≤ hdrLen buf.first
  /-- Both headers are in the packet. -/
  fits : ipStop - ethStop + hdrLen buf.first ≤ totalLength buf.first
  /-- The packet is in the chain. -/
  whole : ethStop + totalLength buf.first ≤ buf.flatten.length
  /-- The headers are in the first buffer. -/
  headers : ipStop + hdrLen buf.first ≤ buf.first.length

section Law

/-- Marking the instance or not is the same when it has the mark already. -/
theorem setUmi_ite_iff {m : Core} {x : UmInstance} {p q : Prop} [Decidable p] [Decidable q] :
    (if p then m.setUmi umi x else m) = (if q then m.setUmi umi x else m) ↔
      m.umis umi = x ∨ (p ↔ q) := by
  have hself : m.setUmi umi x = m ↔ m.umis umi = x := by
    constructor
    · intro h
      have humi : (m.setUmi umi x).umis umi = m.umis umi := by rw [h]
      rw [← humi]
      exact Function.update_self ..
    · rintro rfl
      exact Core.setUmi_self ..
  by_cases hp : p <;> by_cases hq : q <;> simp [hp, hq, hself, eq_comm (a := m)]

theorem IsTcpSegment.tcpStop_le (h : IsTcpSegment buf) : tcpStop ≤ buf.first.length := by
  have hheader := h.header
  have hheaders := h.headers
  unfold tcpStop ipStop at *
  omega

/-- The first buffer holds payload when it goes on after the headers. -/
theorem IsTcpSegment.payloadLen_pos (h : IsTcpSegment buf) :
    0 < payloadLen buf.first ↔ ipStop + hdrLen buf.first < buf.first.length := by
  rw [payloadLen_pos_iff (by rw [Nat.add_comm]; exact h.headers), Nat.add_comm]

/-- For every TCP packet over IP without options, with consistent length fields, any padding after
it, and any chain that has the headers in its first buffer.  From outside, when it is delivered,
its instance is marked active if it has payload and left as it is otherwise, exactly when the
instance is active anyway or the first buffer goes on after the headers just if the packet has
payload.  To a destination outside, the same holds of its sender, which is marked inactive. -/
theorem activity_iff (hbuf : IsTcpSegment buf) :
    (internalSource buf.first = false → ∀ core s pinfo umi buf' s',
      processIncoming net core s buf pinfo = .ok (.delivered umi buf', s') →
        (s'.manager = (if HasPayload buf.first
            then s.manager.setUmi umi (s.manager.umis umi).setActive else s.manager) ↔
          (s.manager.umis umi).active = true ∨
            (ipStop + hdrLen buf.first < buf.first.length ↔ HasPayload buf.first))) ∧
    (ipDst.read buf.first ≠ hostInternalIpv4.bytes → ∀ core s umi,
      s.manager.getInstance s.proxy.umiId = some umi →
        ∃ r s', processOutgoing net false core s buf = .ok (r, s') ∧
          (s'.manager = (if HasPayload buf.first
              then s.manager.setUmi umi (s.manager.umis umi).setInactive else s.manager) ↔
            (s.manager.umis umi).active = false ∨
              (ipStop + hdrLen buf.first < buf.first.length ↔ HasPayload buf.first))) := by
  have hlen := hbuf.tcpStop_le
  constructor
  · intro hexternal core s pinfo umi buf' s' h
    have htcp : IsExternalTcp buf := ⟨hlen, hbuf.ip, hbuf.tcp, hexternal⟩
    obtain ⟨b, hpre⟩ := natPreprocessIn_returns net hlen
    have hpayload : payloadLen b = payloadLen buf.first := by
      rw [payloadLen, (natPreprocessIn_keeps hpre).1, hdrLen,
        read_of_natPreprocessIn_ip hbuf.ip hpre (by decide) (by decide) (by decide)]
      rfl
    have hmark : (s.manager.umis umi) = (s.manager.umis umi).setActive ↔
        (s.manager.umis umi).active = true := by
      cases s.manager.umis umi
      simp [UmInstance.setActive]
    rw [(processIncoming_delivered htcp hpre h).2.2, hpayload, setUmi_ite_iff, hmark,
      hbuf.payloadLen_pos]
  · intro hexternal core s umi hsender
    obtain ⟨r, s', h, hmanager⟩ : ∃ r s', s.processOutgoing net false core buf = .ok (r, s') ∧ _ :=
      processOutgoing_sent hlen hbuf.ip hbuf.tcp hexternal hsender
    have hmark : (s.manager.umis umi) = (s.manager.umis umi).setInactive ↔
        (s.manager.umis umi).active = false := by
      cases s.manager.umis umi
      simp [UmInstance.setInactive]
    refine ⟨r, s', h, ?_⟩
    rw [hmanager, setUmi_ite_iff, hmark, hbuf.payloadLen_pos]

/-- Instance 5 is active on core 0 and has the port 300 for its port 80; its activity flag is
`active`. -/
def serving (active : Bool) : PacketState where
  root := ⟨[], Bimap.empty.insert 300 ⟨5, 0, 80⟩⟩
  proxy := { UmProxy.init with umiId := 5 }
  manager := { Core.init with
    status := .idle, activeUmi := some 5, umis := fun _ => { UmInstance.init with active } }

/-- A TCP packet from 10.0.0.9 to 10.0.0.2, for the port 300, of `len` bytes from the IP header on:
its headers, which are those of a plain acknowledgement. -/
def acknowledgement (len : UInt8) : List UInt8 :=
  List.replicate 12 1 ++ [0x08, 0x00, 0x45, 0, 0, len, 0, 0, 0, 0, 64, 6, 0, 0, 10, 0, 0, 9,
    10, 0, 0, 2, 0x1f, 0x90, 0x01, 0x2c, 0, 0, 0, 0, 0, 0, 0, 0, 0x50, 0x10, 0, 0, 0, 0, 0, 0]

/-- Instance 5 sends a byte. -/
theorem activity_byte : ∃ r s',
    (serving true).processOutgoing (Net.onesComplement ⟨[10, 0, 0, 2], rfl⟩ 2) false 0
      [acknowledgement 41 ++ [7]] = .ok (r, s') ∧
    s'.manager = (serving true).manager.setUmi 5 (UmInstance.init.setInactive) := by
  have hbuf : IsTcpSegment [acknowledgement 41 ++ [7]] :=
    ⟨by decide, by decide, by decide, by decide, by decide, by decide, by decide⟩
  obtain ⟨r, s', h, hiff⟩ := (activity_iff hbuf).2 (by decide) 0 (serving true) 5 (by decide)
  exact ⟨r, s', h, hiff.mpr (Or.inr (by decide))⟩

/-- A plain acknowledgement with the padding of a short frame, which has no payload, marks its target
active and its sender inactive; one byte of payload in a second buffer marks neither. -/
theorem activity_misjudged :
    (¬HasPayload (acknowledgement 40) ∧
      ((serving false).processIncoming (Net.onesComplement ⟨[10, 0, 0, 2], rfl⟩ 2) 0
        [acknowledgement 40 ++ List.replicate 6 0] {}).map
          (fun r => (r.2.manager.umis 5).active) = .ok true ∧
      ((serving true).processOutgoing (Net.onesComplement ⟨[10, 0, 0, 2], rfl⟩ 2) false 0
        [acknowledgement 40 ++ List.replicate 6 0]).map
          (fun r => (r.2.manager.umis 5).active) = .ok false) ∧
    HasPayload (acknowledgement 41) ∧
      ((serving false).processIncoming (Net.onesComplement ⟨[10, 0, 0, 2], rfl⟩ 2) 0
        [acknowledgement 41, [7]] {}).map
          (fun r => (r.2.manager.umis 5).active) = .ok false ∧
      ((serving true).processOutgoing (Net.onesComplement ⟨[10, 0, 0, 2], rfl⟩ 2) false 0
        [acknowledgement 41, [7]]).map
          (fun r => (r.2.manager.umis 5).active) = .ok true := by
  decide

end Law

end PacketState

end Umm
