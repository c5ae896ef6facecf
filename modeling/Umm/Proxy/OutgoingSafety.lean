import Umm.Proxy.Packets

/-!
# Packets that a guest writes

When does the checked build of the way out return, for the bytes that a guest passes to `netwrite`?
Each stage returns exactly on frames of a certain kind; `Handled` puts these together to a condition
on the bytes and on the instance of the proxy.
-/

namespace Umm

open Foundations Umm.Frame

namespace PacketState

variable {net : Net} {checked : Bool} {core : UmiCore} {s : PacketState} {b b' : List UInt8}

/-! ## The stages of the way out -/

section Stages

/-- `nat_preprocess_out` needs the whole ARP packet, of an ARP packet. -/
theorem natPreprocessOut_eq_ok {keep : Bool} : natPreprocessOut b = .ok keep ↔
    ethStop ≤ b.length ∧ if ethtype b = kEthTypeArp then
      arpStop ≤ b.length ∧ keep = (arpSpa.read b != arpTpa.read b)
    else keep = (ethtype b != ethTypeIpv6) := by
  unfold natPreprocessOut
  rw [bind_eq_ok]
  simp only [checkGet_eq_ok]
  split_ifs with harp
  · simp only [bind_eq_ok, checkGet_eq_ok, Except.ok.injEq]
    simp [eq_comm]
  · simp [eq_comm]

/-- An IP packet is kept. -/
theorem natPreprocessOut_of_ip (hlen : ethStop ≤ b.length) (hip : ethtype b = kEthTypeIp) :
    natPreprocessOut b = .ok true :=
  natPreprocessOut_eq_ok.mpr ⟨hlen, by rw [if_neg (by rw [hip]; decide), hip]; rfl⟩

/-- `internal_destination` needs the IP header, of all packets but ARP packets. -/
theorem internalDestination_eq_ok {internal : Bool} :
    internalDestination checked b = .ok internal ↔
      ethStop ≤ b.length ∧ if ethtype b = kEthTypeArp then internal = true
      else (checked = true → ethtype b = kEthTypeIp) ∧ ipStop ≤ b.length ∧
        internal = (ipDst.read b == hostInternalIpv4.bytes) := by
  unfold internalDestination
  simp only [bind_eq_ok, kassert_eq_ok, checkGet_eq_ok, decide_eq_true_eq]
  split_ifs with harp
  · simp only [Except.ok.injEq, eq_comm, exists_const]
    tauto
  · simp only [bind_eq_ok, kassert_eq_ok, checkGet_eq_ok, Except.ok.injEq, beq_iff_eq]
    simp only [eq_comm, exists_const]
    tauto

/-- An ARP packet is for the host. -/
theorem internalDestination_of_arp (hlen : ethStop ≤ b.length) (harp : ethtype b = kEthTypeArp) :
    internalDestination checked b = .ok true :=
  internalDestination_eq_ok.mpr ⟨hlen, by rw [if_pos harp]⟩

/-- An IP packet is for its destination. -/
theorem internalDestination_of_ip (hlen : ipStop ≤ b.length) (hip : ethtype b = kEthTypeIp) :
    internalDestination checked b = .ok (ipDst.read b == hostInternalIpv4.bytes) := by
  refine internalDestination_eq_ok.mpr ⟨Nat.le_trans (by decide) hlen, ?_⟩
  rw [if_neg (by rw [hip]; decide)]
  exact ⟨fun _ => hip, hlen, rfl⟩

/-- Which packets are for the host, in the default build. -/
theorem internalDestination_eq (hlen : ipStop ≤ b.length) : internalDestination false b =
    .ok (ethtype b == kEthTypeArp || ipDst.read b == hostInternalIpv4.bytes) := by
  rw [internalDestination_eq_ok]
  refine ⟨Nat.le_trans (by decide) hlen, ?_⟩
  by_cases harp : ethtype b = kEthTypeArp
  · rw [if_pos harp, beq_iff_eq.mpr harp, Bool.true_or]
  · rw [if_neg harp, beq_eq_false_iff_ne.mpr harp, Bool.false_or]
    exact ⟨Bool.noConfusion, hlen, rfl⟩

theorem maskIpSource_eq_ok {src : Ipv4Address} : maskIpSource net checked src b = .ok b' ↔
    ipStop ≤ b.length ∧ (checked = true → verifies net src b = true) ∧
      b' = withIpSource net src b := by
  unfold maskIpSource
  simp only [bind_eq_ok, kassert_eq_ok, checkGet_eq_ok, Except.ok.injEq, exists_const]
  simp only [eq_comm]

/-- The source address of the Ethernet header changes neither the length nor the type. -/
theorem write_ethSrc (core : UmiCore) (hlen : ethStop ≤ b.length) :
    (ethSrc.write (coreLocalMac core).bytes b).length = b.length ∧
      ethtype (ethSrc.write (coreLocalMac core).bytes b) = ethtype b := by
  have hmac := (coreLocalMac core).length_bytes
  have hfits : ethSrc.stop ≤ b.length := Nat.le_trans (by decide) hlen
  refine ⟨Field.length_write hmac hfits, ?_⟩
  rw [ethtype, ethtype, Field.read_write_of_apart (by decide) hmac hfits]

/-- What the masquerading of a packet for the host leaves as it is. -/
theorem masqueradeInternal_keeps (hlen : ethStop ≤ b.length)
    (h : masqueradeInternal net checked core b = .ok b') : b'.length = b.length ∧
      ∀ g : Field, ethSrc.Apart g → (ethtype b = kEthTypeArp → arpSha.Apart g ∧ arpSpa.Apart g) →
        (ethtype b = kEthTypeIp → ipSrc.Apart g ∧ ipChksum.Apart g) → g.read b' = g.read b := by
  have hfits : ethSrc.stop ≤ b.length := Nat.le_trans (by decide) hlen
  have hmac := (coreLocalMac core).length_bytes
  obtain ⟨hlength, htype⟩ := write_ethSrc core hlen
  unfold masqueradeInternal at h
  simp only [htype] at h
  split_ifs at h with harp hip
  · obtain ⟨_, hget, h⟩ := bind_eq_ok.mp h
    have harpStop := checkGet_eq_ok.mp hget
    have hsha : arpSha.stop ≤ (ethSrc.write (coreLocalMac core).bytes b).length :=
      Nat.le_trans (by decide) harpStop
    have hspa : arpSpa.stop ≤ (arpSha.write (coreLocalMac core).bytes
        (ethSrc.write (coreLocalMac core).bytes b)).length := by
      rw [Field.length_write hmac hsha]
      exact Nat.le_trans (by decide) harpStop
    have hip4 := (coreLocalIp core).length_bytes
    obtain rfl := Except.ok.inj h
    refine ⟨?_, fun g hsrc harp' _ => ?_⟩
    · rw [Field.length_write hip4 hspa, Field.length_write hmac hsha, hlength]
    · rw [Field.read_write_of_apart (harp' harp).2 hip4 hspa,
        Field.read_write_of_apart (harp' harp).1 hmac hsha,
        Field.read_write_of_apart hsrc hmac hfits]
  · obtain ⟨hipStop, -, rfl⟩ := maskIpSource_eq_ok.mp h
    refine ⟨?_, fun g hsrc _ hip' => ?_⟩
    · rw [length_withIpSource hipStop, hlength]
    · rw [read_withIpSource hipStop (hip' hip).1 (hip' hip).2,
        Field.read_write_of_apart hsrc hmac hfits]
  · obtain rfl := Except.ok.inj h
    exact ⟨hlength, fun g hsrc _ _ => Field.read_write_of_apart hsrc hmac hfits⟩

/-- The type of a masked packet is the one it had. -/
theorem ethtype_masqueradeInternal (hlen : ethStop ≤ b.length)
    (h : masqueradeInternal net checked core b = .ok b') : ethtype b' = ethtype b := by
  rw [ethtype, (masqueradeInternal_keeps hlen h).2 ethType (by decide) (fun _ => by decide)
    fun _ => by decide, ethtype]

/-- A packet that is not one of ARP keeps its destination and its protocol. -/
theorem read_masqueradeInternal (hlen : ethStop ≤ b.length) (harp : ethtype b ≠ kEthTypeArp)
    (h : masqueradeInternal net checked core b = .ok b') :
    ipDst.read b' = ipDst.read b ∧ proto b' = proto b := by
  have hread := (masqueradeInternal_keeps hlen h).2
  constructor
  · exact hread ipDst (by decide) (fun h => absurd h harp) fun _ => by decide
  · rw [proto, hread ipProto (by decide) (fun h => absurd h harp) fun _ => by decide, proto]

/-- When the masquerading of an ARP packet or an IP packet for the host returns. -/
theorem masqueradeInternal_returns (hlen : ethStop ≤ b.length)
    (htype : ethtype b = kEthTypeArp ∨ ethtype b = kEthTypeIp) :
    (∃ b', masqueradeInternal net checked core b = .ok b') ↔
      if ethtype b = kEthTypeArp then arpStop ≤ b.length
      else ipStop ≤ b.length ∧ (checked = true → verifies net (coreLocalIp core) b = true) := by
  have hmac := (coreLocalMac core).length_bytes
  obtain ⟨hlength, htype'⟩ := write_ethSrc core hlen
  unfold masqueradeInternal
  simp only [htype']
  split_ifs with harp hip
  · simp only [bind_eq_ok, checkGet_eq_ok, hlength, exists_const, Except.ok.injEq]
    constructor
    · rintro ⟨_, hget, -⟩
      exact hget
    · exact fun hget => ⟨_, hget, rfl⟩
  · simp only [maskIpSource_eq_ok, hlength]
    constructor
    · rintro ⟨_, hget, hverifies, -⟩
      exact ⟨hget, fun hc => (verifies_write hget hmac (by decide)).symm.trans (hverifies hc)⟩
    · rintro ⟨hget, hverifies⟩
      exact ⟨_, hget, fun hc => (verifies_write hget hmac (by decide)).trans (hverifies hc), rfl⟩
  · exact absurd htype (not_or.mpr ⟨harp, hip⟩)

/-- What the masquerading of a packet for a destination outside leaves as it is. -/
theorem masqueradeExternal_keeps {s' : PacketState}
    (h : s.masqueradeExternal net checked core b = .ok (some b', s')) :
    ethtype b = kEthTypeIp ∧ b'.length = b.length ∧
      (∀ g : Field, ipSrc.Apart g → ipChksum.Apart g → tcpSrcPort.Apart g → g.read b' = g.read b) ∧
      s'.manager = s.manager ∧ s'.proxy.umiId = s.proxy.umiId := by
  unfold masqueradeExternal at h
  split_ifs at h with hip
  · obtain ⟨m, hm, h⟩ := bind_eq_ok.mp h
    obtain ⟨hipStop, -, rfl⟩ := maskIpSource_eq_ok.mp hm
    have hlength : (withIpSource net net.ipAddress b).length = b.length :=
      length_withIpSource hipStop
    split_ifs at h with htcp
    · obtain ⟨_, hget, h⟩ := bind_eq_ok.mp h
      have hport : tcpSrcPort.stop ≤ (withIpSource net net.ipAddress b).length :=
        Nat.le_trans (by decide) (checkGet_eq_ok.mp hget)
      simp only [Except.ok.injEq, Prod.mk.injEq, Option.some.injEq] at h
      obtain ⟨rfl, rfl⟩ := h
      refine ⟨hip, ?_, fun g hsrc hchksum hsrcPort => ?_, rfl, UmProxy.umiId_swizzlePortOut ..⟩
      · rw [Field.length_write (length_htons _) hport, hlength]
      · rw [Field.read_write_of_apart hsrcPort (length_htons _) hport,
          read_withIpSource hipStop hsrc hchksum]
    · simp only [Except.ok.injEq, Prod.mk.injEq, Option.some.injEq] at h
      obtain ⟨rfl, rfl⟩ := h
      exact ⟨hip, hlength, fun g hsrc hchksum _ => read_withIpSource hipStop hsrc hchksum, rfl, rfl⟩
  · cases h

/-- The fields of a masked packet that what comes after it looks at. -/
theorem read_masqueradeExternal {s' : PacketState}
    (h : s.masqueradeExternal net checked core b = .ok (some b', s')) :
    ethtype b' = kEthTypeIp ∧ proto b' = proto b ∧ hdrLen b' = hdrLen b ∧
      ipDst.read b' = ipDst.read b := by
  obtain ⟨hip, -, hread, -, -⟩ := masqueradeExternal_keeps h
  refine ⟨?_, ?_, ?_, hread ipDst (by decide) (by decide) (by decide)⟩
  · rw [ethtype, hread ethType (by decide) (by decide) (by decide)]
    exact hip
  · rw [proto, hread ipProto (by decide) (by decide) (by decide), proto]
  · rw [hdrLen, hread tcpHdrlenFlags (by decide) (by decide) (by decide), hdrLen]

/-- When the masquerading of an IP packet for a destination outside returns. -/
theorem masqueradeExternal_returns (hip : ethtype b = kEthTypeIp) :
    (∃ b' s', s.masqueradeExternal net checked core b = .ok (some b', s')) ↔
      ipStop ≤ b.length ∧ (checked = true → verifies net net.ipAddress b = true) ∧
        (proto b = kIpProtoTCP → tcpStop ≤ b.length) := by
  unfold masqueradeExternal
  simp only [if_pos hip, bind_eq_ok, maskIpSource_eq_ok]
  constructor
  · rintro ⟨_, _, m, ⟨hipStop, hverifies, rfl⟩, h⟩
    refine ⟨hipStop, hverifies, fun htcp => ?_⟩
    have htcp' : proto (withIpSource net net.ipAddress b) = kIpProtoTCP := by
      rwa [proto, read_withIpSource hipStop (by decide) (by decide)]
    rw [if_pos htcp'] at h
    obtain ⟨_, hget, -⟩ := bind_eq_ok.mp h
    rw [checkGet_eq_ok, length_withIpSource hipStop] at hget
    exact hget
  · rintro ⟨hipStop, hverifies, htcp⟩
    have hproto : proto (withIpSource net net.ipAddress b) = proto b := by
      rw [proto, proto, read_withIpSource hipStop (by decide) (by decide)]
    by_cases h : proto b = kIpProtoTCP
    · have hget : checkGet tcpStop (withIpSource net net.ipAddress b) = .ok () :=
        checkGet_eq_ok.mpr ((htcp h).trans_eq (length_withIpSource hipStop).symm)
      exact ⟨_, _, _, ⟨hipStop, hverifies, rfl⟩,
        (if_pos (hproto.trans h)).trans (bind_eq_ok.mpr ⟨(), hget, rfl⟩)⟩
    · exact ⟨_, _, _, ⟨hipStop, hverifies, rfl⟩, if_neg fun h' => h (hproto.symm.trans h')⟩

/-- When the headers end in the buffer, the payload length is what is left of it. -/
theorem payloadLen_pos_iff (h : hdrLen b + ipStop ≤ b.length) :
    0 < payloadLen b ↔ hdrLen b + ipStop < b.length := by
  rw [payloadLen, subSize, if_pos h]
  omega

end Stages

/-! ## The way out -/

section Netwrite

/-- A packet that is dropped before the masquerading. -/
theorem processOutgoing_of_dropped {buf : IOBuf} (hlen : ethStop ≤ buf.first.length)
    (hkeep : natPreprocessOut buf.first = .ok false) :
    s.processOutgoing net checked core buf = .ok (.dropped, s) := by
  have hassert : kassert checked (decide (ethStop ≤ buf.first.length)) = .ok () :=
    kassert_eq_ok.mpr fun _ => decide_eq_true hlen
  unfold processOutgoing
  rw [hassert, hkeep]
  rfl

/-- A packet for the host is masked and received. -/
theorem processOutgoing_of_internal {buf : IOBuf} (hlen : ethStop ≤ buf.first.length)
    (hkeep : natPreprocessOut buf.first = .ok true)
    (hdst : internalDestination checked buf.first = .ok true) :
    s.processOutgoing net checked core buf = (do
      let b ← masqueradeInternal net checked core buf.first
      s.sendMasked checked (buf.withFirst b)) := by
  have hassert : kassert checked (decide (ethStop ≤ buf.first.length)) = .ok () :=
    kassert_eq_ok.mpr fun _ => decide_eq_true hlen
  have hget : checkGet ethStop buf.first = .ok () := checkGet_eq_ok.mpr hlen
  unfold processOutgoing natMasqueradeOut
  rw [hassert, hkeep, hget, hdst]
  simp only [bind, Except.bind, if_true]
  cases masqueradeInternal net checked core buf.first <;> rfl

/-- A packet for a destination outside is masked and sent. -/
theorem processOutgoing_of_external {buf : IOBuf} (hlen : ethStop ≤ buf.first.length)
    (hkeep : natPreprocessOut buf.first = .ok true)
    (hdst : internalDestination checked buf.first = .ok false) :
    s.processOutgoing net checked core buf = (do
      match ← s.masqueradeExternal net checked core buf.first with
      | (none, s) => .ok (.dropped, s)
      | (some b, s) => s.sendMasked checked (buf.withFirst b)) := by
  have hassert : kassert checked (decide (ethStop ≤ buf.first.length)) = .ok () :=
    kassert_eq_ok.mpr fun _ => decide_eq_true hlen
  have hget : checkGet ethStop buf.first = .ok () := checkGet_eq_ok.mpr hlen
  unfold processOutgoing natMasqueradeOut
  rw [hassert, hkeep, hget, hdst]
  rfl

/-- A masked packet for a destination outside is sent once its sender has been marked. -/
theorem sendMasked_of_external {buf : IOBuf} (hlen : ipStop ≤ buf.first.length)
    (hdst : internalDestination checked buf.first = .ok false) :
    s.sendMasked checked buf = (do
      let s ← s.markSender checked buf.first
      .ok (.sent (ethtype buf.first) ((buf.first.drop ethStop).take (ipStop - ethStop))
        (buf.advance ethStop) outgoingInfo, s)) := by
  have heth : checkGet ethStop buf.first = .ok () :=
    checkGet_eq_ok.mpr (Nat.le_trans (by decide) hlen)
  have hip : checkGet ipStop buf.first = .ok () := checkGet_eq_ok.mpr hlen
  unfold sendMasked
  rw [hdst]
  simp only [bind, Except.bind, Bool.false_eq_true, if_false, sendExternal, heth, hip]

end Netwrite

end PacketState

end Umm
