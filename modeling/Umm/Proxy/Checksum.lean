import Umm.Proxy.Activity

/-!
# The checksum of a delivered segment

The checksum of a TCP packet is the one of its segment and of a pseudo header with its addresses.
`ProcessIncoming` rewrites the destination address, and the destination port of a packet from
outside; it computes the checksum anew only for a packet that comes with the flag `kNeedsCsum`.

What a rewrite does to the checksum depends on the sum of the words that are replaced, so that it can
be said exactly when a delivered packet still verifies.
-/

namespace Umm

open Foundations Umm.Frame

/-! ## Sums of words -/

section Words

/-- Two bytes hold the number that they are read as. -/
theorem wordSum_eq_ntohs {v : List UInt8} (hv : v.length = 2) : wordSum v = (ntohs v).toNat := by
  obtain ⟨x, y, rfl⟩ := List.length_eq_two.mp hv
  have hx := x.toNat_lt
  have hy := y.toNat_lt
  have hnat : beNat [x, y] = 256 * x.toNat + y.toNat := by simp [beNat]
  rw [ntohs, hnat, UInt16.toNat_ofNat_of_lt' (by change _ < 65536; omega)]
  simp [wordSum]

@[simp] theorem wordSum_htons (x : UInt16) : wordSum (htons x) = x.toNat := by
  rw [wordSum_eq_ntohs (length_htons x), ntohs_htons]

theorem length_pseudoHeader {proto : UInt8} {src dst : List UInt8} {len : ℕ}
    (hsrc : src.length = 4) (hdst : dst.length = 4) :
    (pseudoHeader proto src dst len).length = 12 := by
  simp [pseudoHeader, hsrc, hdst]

/-- The sum of a pseudo header. -/
theorem wordSum_pseudoHeader {proto : UInt8} {src dst : List UInt8} {len : ℕ}
    (hsrc : src.length = 4) (hdst : dst.length = 4) : wordSum (pseudoHeader proto src dst len) =
      wordSum src + wordSum dst + proto.toNat + (UInt16.ofNat len).toNat := by
  unfold pseudoHeader
  rw [wordSum_append (by simp [hsrc, hdst]), wordSum_append (by simp [hsrc, hdst]),
    wordSum_append (by rw [hsrc]), wordSum_htons]
  simp [wordSum]

end Words

namespace PacketState

/-! ## The checksum of a packet -/

/-- The bytes after the IP header of a packet. -/
def segment (buf : IOBuf) : List UInt8 :=
  buf.flatten.drop ipStop

/-- The bytes that the checksum of a TCP packet is about: the pseudo header and the segment. -/
def checksummed (buf : IOBuf) : List UInt8 :=
  pseudoHeader kIpProtoTCP (ipSrc.read buf.first) (ipDst.read buf.first) (segment buf).length ++
    segment buf

/-- The TCP checksum of the packet is valid. -/
def SegmentVerifies (buf : IOBuf) : Prop :=
  Verifies (checksummed buf)

instance (buf : IOBuf) : Decidable (SegmentVerifies buf) :=
  inferInstanceAs (Decidable (Verifies _))

section Rewrites

variable {net : Net} {buf buf' : IOBuf} {b c v : List UInt8} {f : Field}

/-- The segment of a chain whose first buffer holds the IP header. -/
theorem segment_withFirst (hb : ipStop ≤ b.length) :
    segment (buf.withFirst b) = b.drop ipStop ++ buf.tail.flatten := by
  rw [segment, IOBuf.withFirst, List.flatten_cons, List.drop_append_of_le_length hb]

theorem withFirst_first (hb : ipStop ≤ buf.first.length) : buf.withFirst buf.first = buf := by
  cases buf with
  | nil => exact absurd hb (by decide)
  | cons b rest => rfl

/-- What the checksum sums up: the addresses and the segment are the parts that can change. -/
theorem wordSum_checksummed (hb : ipStop ≤ b.length) : wordSum (checksummed (buf.withFirst b)) =
    wordSum (ipSrc.read b) + wordSum (ipDst.read b) + kIpProtoTCP.toNat +
      (UInt16.ofNat (b.length - ipStop + buf.tail.flatten.length)).toNat +
      wordSum (b.drop ipStop ++ buf.tail.flatten) := by
  have hsrc : (ipSrc.read b).length = 4 := Field.length_read (Nat.le_trans (by decide) hb)
  have hdst : (ipDst.read b).length = 4 := Field.length_read (Nat.le_trans (by decide) hb)
  unfold checksummed
  rw [IOBuf.first_withFirst, segment_withFirst hb,
    wordSum_append (by rw [length_pseudoHeader hsrc hdst]), wordSum_pseudoHeader hsrc hdst,
    List.length_append, List.length_drop]

/-- The checksum of a packet is about some words that are not zero. -/
theorem wordSum_checksummed_pos (hb : ipStop ≤ b.length) :
    0 < wordSum (checksummed (buf.withFirst b)) := by
  rw [wordSum_checksummed hb]
  have hproto : kIpProtoTCP.toNat = 6 := rfl
  omega

/-- Another destination address changes the sum by its words. -/
theorem wordSum_checksummed_of_drop_eq (hb : ipStop ≤ b.length) (hlength : c.length = b.length)
    (hsrc : ipSrc.read c = ipSrc.read b) (hdrop : c.drop ipStop = b.drop ipStop) :
    wordSum (checksummed (buf.withFirst c)) + wordSum (ipDst.read b) =
      wordSum (checksummed (buf.withFirst b)) + wordSum (ipDst.read c) := by
  rw [wordSum_checksummed hb, wordSum_checksummed (hb.trans_eq hlength.symm), hlength, hsrc, hdrop]
  omega

/-- Another word in the segment changes the sum by itself. -/
theorem wordSum_checksummed_write (hoffset : ipStop ≤ f.offset) (heven : f.offset % 2 = 0)
    (hsize : f.size = 2) (hv : v.length = 2) (hb : f.stop ≤ b.length) :
    wordSum (checksummed (buf.withFirst (f.write v b))) + wordSum (f.read b) =
      wordSum (checksummed (buf.withFirst b)) + wordSum v := by
  have hvsize : v.length = f.size := hv.trans hsize.symm
  have hlength : (f.write v b).length = b.length := Field.length_write hvsize hb
  have hstop : ipStop ≤ b.length :=
    hoffset.trans (Nat.le_trans (Nat.le_add_right _ _) hb)
  have hfits : (f.shift ipStop).stop ≤ (b.drop ipStop).length := by
    rw [List.length_drop]
    simp only [Field.stop, Field.shift] at hb ⊢
    omega
  have hsegment : (f.write v b).drop ipStop ++ buf.tail.flatten =
      (f.shift ipStop).write v (b.drop ipStop ++ buf.tail.flatten) := by
    rw [Field.drop_write hoffset hvsize hb, Field.write_append hfits]
  have hread : (f.shift ipStop).read (b.drop ipStop ++ buf.tail.flatten) = f.read b := by
    rw [Field.read_append hfits, Field.read_drop hoffset]
  have hwrite := wordSum_write (f := f.shift ipStop) (v := v)
    (b := b.drop ipStop ++ buf.tail.flatten) (by simp only [Field.shift, ipStop]; omega)
    (by simp only [Field.shift, hsize]) hvsize
    (by rw [List.length_append]; exact Nat.le_trans hfits (Nat.le_add_right _ _))
  have hsrc : ipSrc.read (f.write v b) = ipSrc.read b :=
    Field.read_write_of_apart (Or.inr (Nat.le_trans (by decide) hoffset)) hvsize hb
  have hdst : ipDst.read (f.write v b) = ipDst.read b :=
    Field.read_write_of_apart (Or.inr (Nat.le_trans (by decide) hoffset)) hvsize hb
  rw [wordSum_checksummed (hstop.trans_eq hlength.symm), wordSum_checksummed hstop, hsrc, hdst,
    hlength, hsegment]
  rw [hread] at hwrite
  omega

/-- A segment verifies once its checksum has been computed anew. -/
theorem setTcpChecksum_verifies (hnet : net.HasPseudoCsum) (hb : tcpChecksum.stop ≤ buf.first.length)
    (h : setTcpChecksum net buf = .ok buf') : SegmentVerifies buf' := by
  obtain ⟨z, hz⟩ : ∃ z, z = tcpChecksum.write (htons 0) buf.first := ⟨_, rfl⟩
  have hstop : ipStop ≤ buf.first.length := Nat.le_trans (by decide) hb
  have hlength : z.length = buf.first.length := by rw [hz, Field.length_write (length_htons _) hb]
  have hsrc : ipSrc.read z = ipSrc.read buf.first := by
    rw [hz, Field.read_write_of_apart (by decide) (length_htons _) hb]
  have hdst : ipDst.read z = ipDst.read buf.first := by
    rw [hz, Field.read_write_of_apart (by decide) (length_htons _) hb]
  have hzero : tcpChecksum.read z = htons 0 := by
    rw [hz, Field.read_write (length_htons _) hb]
  have hz' : ipStop ≤ z.length := hstop.trans_eq hlength.symm
  obtain ⟨csum, hcsum⟩ : ∃ csum, csum = net.ipPseudoCsum (buf.withFirst (z.drop ipStop))
    kIpProtoTCP (ipSrc.read buf.first) (ipDst.read buf.first) := ⟨_, rfl⟩
  have hvalue : csum.toNat = checksum (checksummed (buf.withFirst z)) := by
    have hflatten : (buf.withFirst (z.drop ipStop)).flatten = segment (buf.withFirst z) := by
      rw [segment_withFirst hz', IOBuf.withFirst, List.flatten_cons]
    have hlt : checksum (checksummed (buf.withFirst z)) < 65536 := by
      unfold checksum maxWord
      omega
    rw [hcsum, hnet, hflatten, ← hsrc, ← hdst]
    exact UInt16.toNat_ofNat_of_lt' hlt
  rw [setTcpChecksum_eq hb, ← hz, ← hcsum] at h
  obtain rfl := Except.ok.inj h
  refine verifies_of_wordSum_eq (a := checksummed (buf.withFirst z)) ?_
  have hwrite : wordSum (checksummed (buf.withFirst (tcpChecksum.write (htons csum) z))) +
      wordSum (tcpChecksum.read z) =
        wordSum (checksummed (buf.withFirst z)) + wordSum (htons csum) :=
    wordSum_checksummed_write (by decide) (by decide) rfl (length_htons _)
      (hb.trans_eq hlength.symm)
  rw [hzero, wordSum_htons, wordSum_htons, hvalue] at hwrite
  exact hwrite

end Rewrites

/-! ## The packet that is delivered -/

/-- The destination port of a packet once it has been delivered: the one that the port of a TCP
packet from outside is mapped to. -/
def rewrittenPort (s : PacketState) (b : List UInt8) : Port :=
  if tcpStop ≤ b.length ∧ internalSource b = false
  then (UmProxy.externalPortmapLookup s.root s.proxy (dstPort b)).1.port else dstPort b

/-- The packet is one of TCP over IP, without options in its IP header, and the chain ends where the
packet does. -/
structure IsBareTcp (buf : IOBuf) : Prop where
  /-- The frame is of type IP. -/
  ip : ethtype buf.first = kEthTypeIp
  /-- The protocol is TCP. -/
  tcp : proto buf.first = kIpProtoTCP
  /-- The IP header has no options. -/
  ihl : ihl buf.first = 5
  /-- The TCP header is in the packet. -/
  fits : tcpStop ≤ buf.flatten.length
  /-- The chain is the packet. -/
  whole : buf.flatten.length = ethStop + totalLength buf.first

section Law

variable {net : Net} {core : UmiCore} {s s' : PacketState} {buf buf' : IOBuf} {pinfo : PacketInfo}
  {b : List UInt8} {umi : UmiId}

/-- A TCP packet that is not handled as one from outside is delivered as it has been preprocessed. -/
theorem processIncoming_delivered_of_not_external (htcp : proto buf.first = kIpProtoTCP)
    (hlocal : ¬(tcpStop ≤ buf.first.length ∧ internalSource buf.first = false))
    (hpre : natPreprocessIn net buf.first = .ok b)
    (h : s.processIncoming net core buf pinfo = .ok (.delivered umi buf', s')) :
    setNeededChecksum net (buf.withFirst b) pinfo = .ok buf' := by
  rw [processIncoming_eq hpre] at h
  unfold processPreprocessed at h
  rw [IOBuf.first_withFirst, (natPreprocessIn_keeps hpre).1, proto_natPreprocessIn hpre,
    internalSource_natPreprocessIn hpre] at h
  by_cases hlen : tcpStop ≤ buf.first.length
  · have hsrc : internalSource buf.first = true := by
      rw [← Bool.not_eq_false]
      exact fun hsrc => hlocal ⟨hlen, hsrc⟩
    rw [if_pos ⟨hlen, htcp⟩, if_pos hsrc] at h
    simp only [processInternalTcp] at h
    split at h
    · cases h
    · exact (postMasq_eq_delivered.mp h).1
  · rw [if_neg fun h => hlen h.1] at h
    exact (postMasq_eq_delivered.mp h).1

/-- A TCP packet that is delivered has the address of the client and its rewritten port, and its
checksum is the one it came with or has been computed anew. -/
theorem processIncoming_delivered_checksum (hbuf : IsBareTcp buf)
    (h : s.processIncoming net core buf pinfo = .ok (.delivered umi buf', s')) :
    ipStop ≤ buf.first.length ∧ ∃ c, setNeededChecksum net (buf.withFirst c) pinfo = .ok buf' ∧
      ipStop ≤ c.length ∧
      wordSum (checksummed (buf.withFirst c)) + wordSum (ipDst.read buf.first) +
          (dstPort buf.first).toNat =
        wordSum (checksummed buf) + wordSum clientInternalIpv4.bytes +
          (s.rewrittenPort buf.first).toNat := by
  have hpre : ∃ b, natPreprocessIn net buf.first = .ok b := by
    unfold processIncoming at h
    obtain ⟨b, hb, -⟩ := bind_eq_ok.mp h
    exact ⟨b, hb⟩
  obtain ⟨b, hpre⟩ := hpre
  have harp : ethtype buf.first ≠ kEthTypeArp := by rw [hbuf.ip]; decide
  have hip := (natPreprocessIn_eq_ok.mp hpre).2
  rw [if_neg harp, if_pos hbuf.ip] at hip
  obtain ⟨hstop, rfl⟩ := hip
  have hlength : (withClientAddresses net buf.first).length = buf.first.length :=
    length_withClientAddresses hstop
  have hsum : wordSum (checksummed (buf.withFirst (withClientAddresses net buf.first))) +
      wordSum (ipDst.read buf.first) = wordSum (checksummed (buf.withFirst buf.first)) +
        wordSum (ipDst.read (withClientAddresses net buf.first)) :=
    wordSum_checksummed_of_drop_eq hstop hlength
      (read_withClientAddresses hstop (by decide) (by decide) (by decide))
      (drop_withClientAddresses hstop)
  rw [ipDst_withClientAddresses hstop, withFirst_first hstop] at hsum
  refine ⟨hstop, ?_⟩
  by_cases hexternal : tcpStop ≤ buf.first.length ∧ internalSource buf.first = false
  · have htcp : IsExternalTcp buf := ⟨hexternal.1, hbuf.ip, hbuf.tcp, hexternal.2⟩
    have hport : dstPort (withClientAddresses net buf.first) = dstPort buf.first :=
      (htcp.preprocessed hpre).2
    have hfits : tcpDstPort.stop ≤ (withClientAddresses net buf.first).length :=
      Nat.le_trans (by decide) (hexternal.1.trans_eq hlength.symm)
    have hwrite : wordSum (checksummed (buf.withFirst (tcpDstPort.write
        (htons (s.rewrittenPort buf.first)) (withClientAddresses net buf.first)))) +
          wordSum (tcpDstPort.read (withClientAddresses net buf.first)) =
        wordSum (checksummed (buf.withFirst (withClientAddresses net buf.first))) +
          wordSum (htons (s.rewrittenPort buf.first)) :=
      wordSum_checksummed_write (by decide) (by decide) rfl (length_htons _) hfits
    rw [wordSum_eq_ntohs (Field.length_read hfits), ← dstPort, hport, wordSum_htons] at hwrite
    refine ⟨tcpDstPort.write (htons (s.rewrittenPort buf.first)) (withClientAddresses net buf.first),
      ?_, ?_, by omega⟩
    · rw [rewrittenPort, if_pos hexternal]
      exact (processIncoming_delivered htcp hpre h).1
    · rw [Field.length_write (length_htons _) hfits, hlength]
      exact hstop
  · refine ⟨withClientAddresses net buf.first, ?_, hstop.trans_eq hlength.symm, ?_⟩
    · exact processIncoming_delivered_of_not_external hbuf.tcp hexternal hpre h
    · rw [rewrittenPort, if_neg hexternal]
      omega

/-- For every TCP packet over IP without options and without padding, in a chain of any buffers, that
is delivered and came with a valid checksum or with the flag for its checksum to be set: it is
delivered with a valid checksum exactly when the flag was set or the rewritten address and port have
the sum of the old ones. -/
theorem delivered_verifies_iff (hnet : net.HasPseudoCsum) (hbuf : IsBareTcp buf)
    (harrived : pinfo.needsCsum = true ∧ pinfo.csumOffset = 16 ∨ SegmentVerifies buf)
    (h : s.processIncoming net core buf pinfo = .ok (.delivered umi buf', s')) :
    SegmentVerifies buf' ↔ pinfo.needsCsum = true ∨
      (wordSum (ipDst.read buf.first) + (dstPort buf.first).toNat) % maxWord =
        (wordSum clientInternalIpv4.bytes + (s.rewrittenPort buf.first).toNat) % maxWord := by
  obtain ⟨hstop, c, hset, hc, hsum⟩ := processIncoming_delivered_checksum hbuf h
  unfold setNeededChecksum at hset
  by_cases hneeds : pinfo.needsCsum = true
  · refine iff_of_true ?_ (Or.inl hneeds)
    rw [if_pos hneeds] at hset
    split_ifs at hset
    have hchecksum : tcpChecksum.stop ≤ (buf.withFirst c).first.length := by
      simp only [setTcpChecksum] at hset
      obtain ⟨_, hget, -⟩ := bind_eq_ok.mp hset
      exact checkGet_eq_ok.mp hget
    exact setTcpChecksum_verifies hnet hchecksum hset
  · rw [if_neg hneeds] at hset
    obtain rfl := Except.ok.inj hset
    have hverifies : SegmentVerifies buf := harrived.resolve_left fun h => hneeds h.1
    have hold := (verifies_iff.mp hverifies).2
    have hpos : 0 < wordSum (checksummed (buf.withFirst c)) := wordSum_checksummed_pos hc
    unfold SegmentVerifies
    rw [verifies_iff, or_iff_right hneeds]
    unfold maxWord at *
    constructor
    · rintro ⟨-, hnew⟩
      omega
    · intro hsame
      exact ⟨by omega, by omega⟩

/-- A packet whose checksum still has to be set, for the port 300 of instance 5. -/
theorem delivered_verifies_unset : ∃ buf' s',
    (serving true).processIncoming (Net.onesComplement ⟨[10, 0, 0, 2], rfl⟩ 2) 0
      [acknowledgement 41 ++ [7]] { flags := 1, csumOffset := 16 } =
        .ok (.delivered 5 buf', s') ∧ SegmentVerifies buf' := by
  have hbuf : IsBareTcp [acknowledgement 41 ++ [7]] :=
    ⟨by decide, by decide, by decide, by decide, by decide⟩
  obtain ⟨buf', s', h⟩ : ∃ buf' s',
      (serving true).processIncoming (Net.onesComplement ⟨[10, 0, 0, 2], rfl⟩ 2) 0
        [acknowledgement 41 ++ [7]] { flags := 1, csumOffset := 16 } =
          .ok (.delivered 5 buf', s') := ⟨_, _, rfl⟩
  have hverifies := delivered_verifies_iff (fun _ _ _ _ => rfl) hbuf (Or.inl (by decide)) h
  exact ⟨buf', s', h, hverifies.mpr (Or.inl (by decide))⟩

/-- A packet that comes from outside with a valid checksum and without the flag is delivered with a
checksum that is not valid. -/
theorem delivered_misses :
    SegmentVerifies [tcpChecksum.write [116, 13] (acknowledgement 41 ++ [7])] ∧
    ((serving true).processIncoming (Net.onesComplement ⟨[10, 0, 0, 2], rfl⟩ 2) 0
      [tcpChecksum.write [116, 13] (acknowledgement 41 ++ [7])] {}).map
        (fun r => match r.1 with
          | .delivered umi buf' => some (umi, decide (SegmentVerifies buf'))
          | _ => none) = .ok (some (5, false)) := by
  decide

end Law

end PacketState

end Umm
