import Umm.Proxy.Packets

/-!
# Preprocessing of incoming packets

`nat_preprocess_in` writes the addresses of the client into a packet.  It keeps the length and every
field apart from the ones it writes, and a packet that has been preprocessed once is not changed by
doing it again.
-/

namespace Umm

open Foundations Umm.Frame

namespace PacketState

variable {net : Net} {b b' : List UInt8}

/-- An IP packet with the addresses of the client. -/
def withClientAddresses (net : Net) (b : List UInt8) : List UInt8 :=
  setIpChecksum net (ipDst.write clientInternalIpv4.bytes
    (ethDst.write clientInternalMacaddr.bytes b))

section Ip

/-- The addresses are written into a packet that keeps its length. -/
theorem length_write_addresses (hb : ipStop ≤ b.length) :
    (ethDst.write clientInternalMacaddr.bytes b).length = b.length ∧
      (ipDst.write clientInternalIpv4.bytes
        (ethDst.write clientInternalMacaddr.bytes b)).length = b.length := by
  have hdst : (ethDst.write clientInternalMacaddr.bytes b).length = b.length :=
    Field.length_write clientInternalMacaddr.length_bytes (Nat.le_trans (by decide) hb)
  refine ⟨hdst, ?_⟩
  rw [Field.length_write clientInternalIpv4.length_bytes
    (Nat.le_trans (by decide) (hb.trans_eq hdst.symm)), hdst]

theorem length_withClientAddresses (hb : ipStop ≤ b.length) :
    (withClientAddresses net b).length = b.length := by
  have hip := (length_write_addresses hb).2
  rw [withClientAddresses, length_setIpChecksum (hb.trans_eq hip.symm), hip]

/-- Apart from the checksum, a field is what it is once the addresses have been written. -/
theorem read_withClientAddresses_of_apart {g : Field} (hb : ipStop ≤ b.length)
    (hchksum : ipChksum.Apart g) : g.read (withClientAddresses net b) =
      g.read (ipDst.write clientInternalIpv4.bytes (ethDst.write clientInternalMacaddr.bytes b)) := by
  have hip := (length_write_addresses hb).2
  rw [withClientAddresses, read_setIpChecksum (hb.trans_eq hip.symm) hchksum]

/-- The fields that are kept. -/
theorem read_withClientAddresses {g : Field} (hb : ipStop ≤ b.length) (heth : ethDst.Apart g)
    (hdst : ipDst.Apart g) (hchksum : ipChksum.Apart g) :
    g.read (withClientAddresses net b) = g.read b := by
  have hlength := (length_write_addresses hb).1
  rw [read_withClientAddresses_of_apart hb hchksum,
    Field.read_write_of_apart hdst clientInternalIpv4.length_bytes
      (Nat.le_trans (by decide) (hb.trans_eq hlength.symm)),
    Field.read_write_of_apart heth clientInternalMacaddr.length_bytes
      (Nat.le_trans (by decide) hb)]

/-- The destination of the packet is the client. -/
theorem ipDst_withClientAddresses (hb : ipStop ≤ b.length) :
    ipDst.read (withClientAddresses net b) = clientInternalIpv4.bytes := by
  have hlength := (length_write_addresses hb).1
  rw [read_withClientAddresses_of_apart hb (by decide),
    Field.read_write clientInternalIpv4.length_bytes
      (Nat.le_trans (by decide) (hb.trans_eq hlength.symm))]

theorem ethDst_withClientAddresses (hb : ipStop ≤ b.length) :
    ethDst.read (withClientAddresses net b) = clientInternalMacaddr.bytes := by
  have hlength := (length_write_addresses hb).1
  rw [read_withClientAddresses_of_apart hb (by decide),
    Field.read_write_of_apart (by decide) clientInternalIpv4.length_bytes
      (Nat.le_trans (by decide) (hb.trans_eq hlength.symm)),
    Field.read_write clientInternalMacaddr.length_bytes (Nat.le_trans (by decide) hb)]

/-- What comes after the IP header is left as it is. -/
theorem drop_withClientAddresses (hb : ipStop ≤ b.length) :
    (withClientAddresses net b).drop ipStop = b.drop ipStop := by
  obtain ⟨hlength, hip⟩ := length_write_addresses hb
  rw [withClientAddresses, drop_setIpChecksum (hb.trans_eq hip.symm),
    Field.drop_write_of_le (by decide) clientInternalIpv4.length_bytes
      (Nat.le_trans (by decide) (hb.trans_eq hlength.symm)),
    Field.drop_write_of_le (by decide) clientInternalMacaddr.length_bytes
      (Nat.le_trans (by decide) hb)]

/-- Writing the addresses again changes nothing. -/
theorem withClientAddresses_idem (hb : ipStop ≤ b.length) :
    withClientAddresses net (withClientAddresses net b) = withClientAddresses net b := by
  have hip := (length_write_addresses hb).2
  have heth : ethDst.write clientInternalMacaddr.bytes (withClientAddresses net b) =
      withClientAddresses net b := Field.write_of_read (ethDst_withClientAddresses hb)
  have hdst : ipDst.write clientInternalIpv4.bytes (withClientAddresses net b) =
      withClientAddresses net b := Field.write_of_read (ipDst_withClientAddresses hb)
  rw [withClientAddresses, heth, hdst, withClientAddresses,
    setIpChecksum_idem (hb.trans_eq hip.symm)]

end Ip

/-- An ARP packet with the addresses of the client, where it carries them. -/
def withClientArp (b : List UInt8) : List UInt8 :=
  if ntohs (arpOper.read b) = 1 then arpTpa.write clientInternalIpv4.bytes b
  else if ntohs (arpOper.read b) = 2 then
    ethDst.write clientInternalMacaddr.bytes (arpTha.write clientInternalMacaddr.bytes
      (arpTpa.write clientInternalIpv4.bytes b))
  else b

section Arp

/-- The lengths of an ARP reply in which the addresses are written one by one. -/
theorem length_arpReply (hb : arpStop ≤ b.length) :
    (arpTpa.write clientInternalIpv4.bytes b).length = b.length ∧
    (arpTha.write clientInternalMacaddr.bytes
      (arpTpa.write clientInternalIpv4.bytes b)).length = b.length := by
  have htpa : (arpTpa.write clientInternalIpv4.bytes b).length = b.length :=
    Field.length_write clientInternalIpv4.length_bytes hb
  refine ⟨htpa, ?_⟩
  rw [Field.length_write clientInternalMacaddr.length_bytes
    (Nat.le_trans (by decide) (hb.trans_eq htpa.symm)), htpa]

theorem length_withClientArp (hb : arpStop ≤ b.length) : (withClientArp b).length = b.length := by
  obtain ⟨htpa, htha⟩ := length_arpReply hb
  unfold withClientArp
  split_ifs
  · exact htpa
  · rw [Field.length_write clientInternalMacaddr.length_bytes
      (Nat.le_trans (by decide) (hb.trans_eq htha.symm)), htha]
  · rfl

theorem read_withClientArp {g : Field} (hb : arpStop ≤ b.length) (heth : ethDst.Apart g)
    (htha : arpTha.Apart g) (htpa : arpTpa.Apart g) : g.read (withClientArp b) = g.read b := by
  obtain ⟨htpa', htha'⟩ := length_arpReply hb
  have hread : g.read (arpTpa.write clientInternalIpv4.bytes b) = g.read b :=
    Field.read_write_of_apart htpa clientInternalIpv4.length_bytes hb
  unfold withClientArp
  split_ifs
  · exact hread
  · rw [Field.read_write_of_apart heth clientInternalMacaddr.length_bytes
        (Nat.le_trans (by decide) (hb.trans_eq htha'.symm)),
      Field.read_write_of_apart htha clientInternalMacaddr.length_bytes
        (Nat.le_trans (by decide) (hb.trans_eq htpa'.symm)), hread]
  · rfl

/-- Writing the addresses again changes nothing. -/
theorem withClientArp_idem (hb : arpStop ≤ b.length) :
    withClientArp (withClientArp b) = withClientArp b := by
  have hoper : arpOper.read (withClientArp b) = arpOper.read b :=
    read_withClientArp hb (by decide) (by decide) (by decide)
  obtain ⟨htpa, htha⟩ := length_arpReply hb
  have hip := clientInternalIpv4.length_bytes
  have hmac := clientInternalMacaddr.length_bytes
  have hthaFits : arpTha.stop ≤ (arpTpa.write clientInternalIpv4.bytes b).length :=
    Nat.le_trans (by decide) (hb.trans_eq htpa.symm)
  have htpaFits : arpTpa.stop ≤ b.length := hb
  have hethFits : ethDst.stop ≤ (arpTha.write clientInternalMacaddr.bytes
      (arpTpa.write clientInternalIpv4.bytes b)).length :=
    Nat.le_trans (by decide) (hb.trans_eq htha.symm)
  rw [withClientArp, hoper]
  by_cases hrequest : ntohs (arpOper.read b) = 1
  · have htwice : arpTpa.write clientInternalIpv4.bytes (arpTpa.write clientInternalIpv4.bytes b) =
        arpTpa.write clientInternalIpv4.bytes b := Field.write_write hip hb
    rw [if_pos hrequest, withClientArp, if_pos hrequest, htwice]
  by_cases hreply : ntohs (arpOper.read b) = 2
  · have heq : withClientArp b = ethDst.write clientInternalMacaddr.bytes
        (arpTha.write clientInternalMacaddr.bytes (arpTpa.write clientInternalIpv4.bytes b)) := by
      rw [withClientArp, if_neg hrequest, if_pos hreply]
    rw [if_neg hrequest, if_pos hreply, heq]
    have htpaRead : arpTpa.read (ethDst.write clientInternalMacaddr.bytes
        (arpTha.write clientInternalMacaddr.bytes (arpTpa.write clientInternalIpv4.bytes b))) =
        clientInternalIpv4.bytes := by
      rw [Field.read_write_of_apart (by decide) hmac hethFits,
        Field.read_write_of_apart (by decide) hmac hthaFits, Field.read_write hip htpaFits]
    have hthaRead : arpTha.read (ethDst.write clientInternalMacaddr.bytes
        (arpTha.write clientInternalMacaddr.bytes (arpTpa.write clientInternalIpv4.bytes b))) =
        clientInternalMacaddr.bytes := by
      rw [Field.read_write_of_apart (by decide) hmac hethFits, Field.read_write hmac hthaFits]
    rw [Field.write_of_read htpaRead, Field.write_of_read hthaRead,
      Field.write_write hmac hethFits]
  · rw [if_neg hrequest, if_neg hreply]

end Arp

/-! ## The function -/

/-- `nat_preprocess_in` needs the whole header that it writes to. -/
theorem natPreprocessIn_eq_ok : natPreprocessIn net b = .ok b' ↔
    ethStop ≤ b.length ∧
      if ethtype b = kEthTypeArp then arpStop ≤ b.length ∧ b' = withClientArp b
      else if ethtype b = kEthTypeIp then ipStop ≤ b.length ∧ b' = withClientAddresses net b
      else b' = b := by
  unfold natPreprocessIn
  simp only [bind_eq_ok, checkGet_eq_ok, exists_const]
  refine and_congr_right fun _ => ?_
  by_cases harp : ethtype b = kEthTypeArp
  · simp only [if_pos harp, bind_eq_ok, checkGet_eq_ok, exists_const]
    refine and_congr_right fun _ => ?_
    unfold withClientArp
    split_ifs <;> simp [eq_comm]
  rw [if_neg harp, if_neg harp]
  by_cases hip : ethtype b = kEthTypeIp
  · simp only [if_pos hip, bind_eq_ok, checkGet_eq_ok, exists_const, Except.ok.injEq]
    rw [withClientAddresses, eq_comm (a := b')]
  · rw [if_neg hip, if_neg hip, Except.ok.injEq, eq_comm]

/-- A frame with room for the three headers is preprocessed. -/
theorem natPreprocessIn_returns (net : Net) (hb : tcpStop ≤ b.length) :
    ∃ b', natPreprocessIn net b = .ok b' := by
  have harp : arpStop ≤ b.length := Nat.le_trans (by decide) hb
  have hip : ipStop ≤ b.length := Nat.le_trans (by decide) hb
  simp only [natPreprocessIn_eq_ok]
  split_ifs
  · exact ⟨_, Nat.le_trans (by decide) hb, harp, rfl⟩
  · exact ⟨_, Nat.le_trans (by decide) hb, hip, rfl⟩
  · exact ⟨b, Nat.le_trans (by decide) hb, rfl⟩

/-- What preprocessing leaves as it is. -/
theorem natPreprocessIn_keeps (h : natPreprocessIn net b = .ok b') : b'.length = b.length ∧
    ∀ g : Field, ethDst.Apart g → (ethtype b = kEthTypeArp → arpTha.Apart g ∧ arpTpa.Apart g) →
      (ethtype b = kEthTypeIp → ipDst.Apart g ∧ ipChksum.Apart g) → g.read b' = g.read b := by
  obtain ⟨-, h⟩ := natPreprocessIn_eq_ok.mp h
  split_ifs at h with harp hip
  · obtain ⟨hstop, rfl⟩ := h
    exact ⟨length_withClientArp hstop, fun g heth hg _ =>
      read_withClientArp hstop heth (hg harp).1 (hg harp).2⟩
  · obtain ⟨hstop, rfl⟩ := h
    exact ⟨length_withClientAddresses hstop, fun g heth _ hg =>
      read_withClientAddresses hstop heth (hg hip).1 (hg hip).2⟩
  · subst h
    exact ⟨rfl, fun g _ _ _ => rfl⟩

theorem ethtype_natPreprocessIn (h : natPreprocessIn net b = .ok b') : ethtype b' = ethtype b := by
  rw [ethtype, (natPreprocessIn_keeps h).2 ethType (by decide) (fun _ => by decide)
    fun _ => by decide, ethtype]

theorem proto_natPreprocessIn (h : natPreprocessIn net b = .ok b') : proto b' = proto b := by
  rw [proto, (natPreprocessIn_keeps h).2 ipProto (by decide) (fun _ => by decide)
    fun _ => by decide, proto]

theorem internalSource_natPreprocessIn (h : natPreprocessIn net b = .ok b') :
    internalSource b' = internalSource b := by
  rw [internalSource, (natPreprocessIn_keeps h).2 ethSrc (by decide) (fun _ => by decide)
    fun _ => by decide, internalSource]

/-- Preprocessing a packet again changes nothing. -/
theorem natPreprocessIn_idem (h : natPreprocessIn net b = .ok b') :
    natPreprocessIn net b' = .ok b' := by
  obtain ⟨hlength, -⟩ := natPreprocessIn_keeps h
  have htype := ethtype_natPreprocessIn h
  obtain ⟨hstop, h⟩ := natPreprocessIn_eq_ok.mp h
  refine natPreprocessIn_eq_ok.mpr ⟨hstop.trans_eq hlength.symm, ?_⟩
  rw [htype, hlength]
  split_ifs at h ⊢ with harp hip
  · obtain ⟨hstop, rfl⟩ := h
    exact ⟨hstop, (withClientArp_idem hstop).symm⟩
  · obtain ⟨hstop, rfl⟩ := h
    exact ⟨hstop, (withClientAddresses_idem hstop).symm⟩
  · rfl

end PacketState

end Umm
