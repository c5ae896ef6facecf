import Umm.Foundations.Outcome
import Umm.Manager.Core
import Umm.Proxy.Frame
import Umm.Proxy.UmProxy

/-!
# Packets through the proxy

`ProcessIncoming` and `ProcessOutgoing` on the bytes of a frame, translated with the functions they
call.  What a call does with its packet is its result, `Incoming` or `Outgoing`; what it changes
beside that is the port maps and the activity flag of an instance.

A header that is read past the end of its buffer is a fault.  The functions on the way out come in
two builds: the checked one has the assertions compiled in and counts a payload length below zero as
a fault.  `ProcessIncoming` is the one of the default build, without assertions.
-/

namespace Umm

open Foundations Umm.Frame

/-- What can go wrong with a packet. -/
inductive PacketFault where
  /-- A header is read past the end of its buffer. -/
  | misread
  /-- A `kassert` fails. -/
  | kassert
  /-- A `kbugon` or `kabort` is reached. -/
  | kabort
  /-- An event is spawned on a core that does not exist. -/
  | badCore
  /-- A payload length below zero is computed. -/
  | underflow
deriving DecidableEq, Repr

/-- What the proxy of a core works on. -/
structure PacketState where
  /-- The shared port map. -/
  root : ProxyRoot
  /-- The proxy of the core. -/
  proxy : UmProxy
  /-- The manager of the core. -/
  manager : Core

/-- A core that starts empty. -/
def PacketState.init : PacketState where
  root := ProxyRoot.init
  proxy := UmProxy.init
  manager := Core.init

/-- What becomes of a packet that comes in. -/
inductive Incoming where
  /-- It is dropped. -/
  | dropped
  /-- It is dropped after a call of `TcpReset`, which gets these arguments. -/
  | reset (ackno : UInt32) (localIp : Ipv4Address) (remoteIp : List UInt8)
      (localPort remotePort : Port)
  /-- `ProcessIncoming` of it is spawned on another core. -/
  | forwarded (core : UmiCore) (buf : IOBuf) (pinfo : PacketInfo)
  /-- It is given to `WritePacket` of an instance. -/
  | delivered (umi : UmiId) (buf : IOBuf)
deriving DecidableEq

/-- What becomes of a packet that goes out. -/
inductive Outgoing where
  /-- It is dropped. -/
  | dropped
  /-- The loopback interface receives it. -/
  | received (buf : IOBuf)
  /-- It is given to `EthArpSend`, with the type of the frame and its IP header. -/
  | sent (ethtype : UInt16) (ip : List UInt8) (buf : IOBuf) (pinfo : PacketInfo)
deriving DecidableEq

/-- `Get` of a header that ends at `stop`. -/
def checkGet (stop : ℕ) (b : List UInt8) : Except PacketFault Unit :=
  if stop ≤ b.length then .ok () else .error .misread

/-- `kassert`, in the checked build. -/
def kassert (checked : Bool) (cond : Bool) : Except PacketFault Unit :=
  if checked && !cond then .error .kassert else .ok ()

/-- The difference of two values of type `size_t`. -/
def subSize (a b : ℕ) : ℕ :=
  if b ≤ a then a - b else a + UInt64.size - b

/-- `payload_len`: what is left of the buffer after the headers. -/
def payloadLen (b : List UInt8) : ℕ :=
  subSize b.length (hdrLen b + ipStop)

theorem checkGet_eq_ok {stop : ℕ} {b : List UInt8} {u : Unit} :
    checkGet stop b = .ok u ↔ stop ≤ b.length := by
  unfold checkGet
  split_ifs with h <;> simp [h]

theorem kassert_eq_ok {checked cond : Bool} {u : Unit} :
    kassert checked cond = .ok u ↔ (checked = true → cond = true) := by
  unfold kassert
  cases checked <;> cases cond <;> simp

namespace PacketState

variable (net : Net)

/-- Set `chksum` of the IP header. -/
def setIpChecksum (b : List UInt8) : List UInt8 :=
  let b := ipChksum.write (htons 0) b
  ipChksum.write (htons (net.computeChecksum (b.drop ethStop))) b

section Frame

variable {net} {b v : List UInt8} {f g : Field}

@[simp] theorem length_setIpChecksum (hb : ipStop ≤ b.length) :
    (setIpChecksum net b).length = b.length := by
  have hzero : (ipChksum.write (htons 0) b).length = b.length :=
    Field.length_write rfl (Nat.le_trans (by decide) hb)
  unfold setIpChecksum
  rw [Field.length_write rfl (Nat.le_trans (by decide) (hb.trans_eq hzero.symm)), hzero]

/-- The checksum of the IP header is the only field that changes. -/
theorem read_setIpChecksum (hb : ipStop ≤ b.length) (hg : ipChksum.Apart g) :
    g.read (setIpChecksum net b) = g.read b := by
  have hfits : ipChksum.stop ≤ b.length := Nat.le_trans (by decide) hb
  unfold setIpChecksum
  rw [Field.read_write_of_apart hg rfl (by rwa [Field.length_write rfl hfits]),
    Field.read_write_of_apart hg rfl hfits]

/-- The checksum is part of the IP header. -/
theorem drop_setIpChecksum (hb : ipStop ≤ b.length) :
    (setIpChecksum net b).drop ipStop = b.drop ipStop := by
  have hfits : ipChksum.stop ≤ b.length := Nat.le_trans (by decide) hb
  unfold setIpChecksum
  rw [Field.drop_write_of_le (by decide) rfl (by rwa [Field.length_write rfl hfits]),
    Field.drop_write_of_le (by decide) rfl hfits]

/-- The checksum does not depend on what was there. -/
theorem setIpChecksum_write (hb : ipStop ≤ b.length) (hv : v.length = 2) :
    setIpChecksum net (ipChksum.write v b) = setIpChecksum net b := by
  unfold setIpChecksum
  rw [Field.write_write hv (Nat.le_trans (by decide) hb)]

theorem setIpChecksum_idem (hb : ipStop ≤ b.length) :
    setIpChecksum net (setIpChecksum net b) = setIpChecksum net b := by
  have hset : setIpChecksum net b = ipChksum.write (htons (net.computeChecksum
      ((ipChksum.write (htons 0) b).drop ethStop))) b := by
    simp only [setIpChecksum]
    rw [Field.write_write rfl (Nat.le_trans (by decide) hb)]
  rw [hset, setIpChecksum_write hb rfl, hset]

/-- A field of the Ethernet header can be written before or after. -/
theorem setIpChecksum_write_comm (hb : ipStop ≤ b.length) (hv : v.length = f.size)
    (hf : f.stop ≤ ethStop) :
    setIpChecksum net (f.write v b) = f.write v (setIpChecksum net b) := by
  have hfits : f.stop ≤ b.length := hf.trans (Nat.le_trans (by decide) hb)
  have hcs : ipChksum.stop ≤ b.length := Nat.le_trans (by decide) hb
  have hapart : ipChksum.Apart f := Or.inr (hf.trans (by decide))
  have hzero := Field.write_comm (v := htons 0) hapart rfl hv hcs hfits
  have hdrop : (ipChksum.write (htons 0) (f.write v b)).drop ethStop =
      (ipChksum.write (htons 0) b).drop ethStop := by
    rw [hzero]
    exact Field.drop_write_of_le hf hv (by rwa [Field.length_write rfl hcs])
  have hlength : (ipChksum.write (htons 0) b).length = b.length := Field.length_write rfl hcs
  simp only [setIpChecksum]
  rw [hdrop, hzero]
  exact Field.write_comm hapart rfl hv (hcs.trans_eq hlength.symm) (hfits.trans_eq hlength.symm)

end Frame

/-! ## Packets that come in -/

/-- `internal_source`. -/
def internalSource (b : List UInt8) : Bool :=
  ethSrc.read b == hostInternalMacaddr.bytes

/-- `nat_preprocess_in`. -/
def natPreprocessIn (b : List UInt8) : Except PacketFault (List UInt8) := do
  checkGet ethStop b
  if ethtype b = kEthTypeArp then
    checkGet arpStop b
    if ntohs (arpOper.read b) = 1 then .ok (arpTpa.write clientInternalIpv4.bytes b)
    else if ntohs (arpOper.read b) = 2 then
      let b := arpTpa.write clientInternalIpv4.bytes b
      let b := arpTha.write clientInternalMacaddr.bytes b
      .ok (ethDst.write clientInternalMacaddr.bytes b)
    else .ok b
  else if ethtype b = kEthTypeIp then
    checkGet ipStop b
    let b := ethDst.write clientInternalMacaddr.bytes b
    .ok (setIpChecksum net (ipDst.write clientInternalIpv4.bytes b))
  else .ok b

/-- `nat_masquerade_in`. -/
def natMasqueradeIn (s : PacketState) (b : List UInt8) : List UInt8 × PacketState :=
  let (port, x) := UmProxy.swizzlePortIn s.root s.proxy (dstPort b)
  (tcpDstPort.write (htons port) b, { s with proxy := x })

/-- `nat_connection_reset`, after which the packet is dropped. -/
def natConnectionReset (b : List UInt8) : Incoming :=
  if tcpStop ≤ b.length then
    .reset (ntohl (tcpAckno.read b)) net.ipAddress (ipSrc.read b) (dstPort b) (srcPort b)
  else .dropped

/-- The checksum of an incoming TCP segment is computed anew. -/
def setTcpChecksum (buf : IOBuf) : Except PacketFault IOBuf := do
  let b := buf.first
  checkGet tcpChecksum.stop b
  let srcAddr := ipSrc.read b
  let dstAddr := ipDst.read b
  let b := tcpChecksum.write (htons 0) b
  let csum := net.ipPseudoCsum (buf.withFirst (b.drop ipStop)) kIpProtoTCP srcAddr dstAddr
  .ok (buf.withFirst (tcpChecksum.write (htons csum) b))

/-- The segment gets the checksum for its addresses. -/
theorem setTcpChecksum_eq {net : Net} {buf : IOBuf} (hbuf : tcpChecksum.stop ≤ buf.first.length) :
    setTcpChecksum net buf = .ok (buf.withFirst (tcpChecksum.write (htons (net.ipPseudoCsum
      (buf.withFirst ((tcpChecksum.write (htons 0) buf.first).drop ipStop)) kIpProtoTCP
      (ipSrc.read buf.first) (ipDst.read buf.first))) (tcpChecksum.write (htons 0) buf.first))) := by
  have hget : checkGet tcpChecksum.stop buf.first = .ok () := checkGet_eq_ok.mpr hbuf
  simp only [setTcpChecksum]
  rw [hget]
  rfl

/-- The checksum of an incoming packet is set, when `pinfo` says that it still has to be. -/
def setNeededChecksum (buf : IOBuf) (pinfo : PacketInfo) : Except PacketFault IOBuf :=
  if pinfo.needsCsum then
    if pinfo.csumOffset = 16 then setTcpChecksum net buf else .error .kabort
  else .ok buf

/-- The end of `ProcessIncoming`, from the label `post_masq` on. -/
def postMasq (s : PacketState) (target : UmiId) (buf : IOBuf) (pinfo : PacketInfo) :
    Except PacketFault (Incoming × PacketState) := do
  let buf ← setNeededChecksum net buf pinfo
  match s.manager.getInstance target with
  | none => .ok (.dropped, s)
  | some umi => .ok (.delivered umi buf, s)

/-- What `ProcessIncoming` does with a TCP packet from the host. -/
def processInternalTcp (s : PacketState) (buf : IOBuf) (pinfo : PacketInfo) :
    Except PacketFault (Incoming × PacketState) :=
  let b := buf.first
  match s.proxy.processIncomingInternal (isSyn b) (srcPort b) with
  | (none, x) => .ok (.dropped, { s with proxy := x })
  | (some target, x) => { s with proxy := x }.postMasq net target buf pinfo

/-- What `ProcessIncoming` does with a TCP packet from outside for an instance of this core. -/
def processMapped (s : PacketState) (target : UmiId) (buf : IOBuf) (pinfo : PacketInfo) :
    Except PacketFault (Incoming × PacketState) :=
  match s.manager.getInstance target with
  | none => .ok (natConnectionReset net buf.first, s)
  | some _ =>
    let (b, s) := s.natMasqueradeIn buf.first
    if 0 < payloadLen buf.first then
      match s.manager.getInstance target with
      | none => .error .kabort
      | some umi =>
        { s with manager := s.manager.setUmi umi (s.manager.umis umi).setActive }.postMasq net target
          (buf.withFirst b) pinfo
    else s.postMasq net target (buf.withFirst b) pinfo

/-- What `ProcessIncoming` on `core` does with a TCP packet from outside. -/
def processExternalTcp (core : UmiCore) (s : PacketState) (buf : IOBuf) (pinfo : PacketInfo) :
    Except PacketFault (Incoming × PacketState) :=
  let (mapping, x) := UmProxy.externalPortmapLookup s.root s.proxy (dstPort buf.first)
  let s := { s with proxy := x }
  if mapping = nullPortMapping then .ok (natConnectionReset net buf.first, s)
  else if core ≠ mapping.core then
    if mapping.core < net.cpuCount then .ok (.forwarded mapping.core buf pinfo, s)
    else .error .badCore
  else s.processMapped net mapping.id buf pinfo

/-- `ProcessIncoming` on `core`, once the packet has been preprocessed. -/
def processPreprocessed (core : UmiCore) (s : PacketState) (buf : IOBuf) (pinfo : PacketInfo) :
    Except PacketFault (Incoming × PacketState) :=
  if tcpStop ≤ buf.first.length ∧ proto buf.first = kIpProtoTCP then
    if internalSource buf.first then s.processInternalTcp net buf pinfo
    else s.processExternalTcp net core buf pinfo
  else s.postMasq net s.proxy.umiId buf pinfo

/-- `ProcessIncoming` on `core`. -/
def processIncoming (core : UmiCore) (s : PacketState) (buf : IOBuf) (pinfo : PacketInfo) :
    Except PacketFault (Incoming × PacketState) := do
  let b ← natPreprocessIn net buf.first
  s.processPreprocessed net core (buf.withFirst b) pinfo

/-! ## Packets that go out -/

/-- `nat_preprocess_out`: the packet is kept. -/
def natPreprocessOut (b : List UInt8) : Except PacketFault Bool := do
  checkGet ethStop b
  if ethtype b = kEthTypeArp then
    checkGet arpStop b
    .ok (arpSpa.read b != arpTpa.read b)
  else .ok (ethtype b != ethTypeIpv6)

/-- `internal_destination`. -/
def internalDestination (checked : Bool) (b : List UInt8) : Except PacketFault Bool := do
  kassert checked (decide (ethStop ≤ b.length))
  checkGet ethStop b
  if ethtype b = kEthTypeArp then .ok true
  else
    kassert checked (ethtype b == kEthTypeIp)
    checkGet ipStop b
    .ok (ipDst.read b == hostInternalIpv4.bytes)

/-- The packet with another `src` in its IP header, and the `chksum` for it. -/
def withIpSource (src : Ipv4Address) (b : List UInt8) : List UInt8 :=
  setIpChecksum net (ipSrc.write src.bytes b)

section Source

variable {net} {src : Ipv4Address} {b v : List UInt8} {f g : Field}

@[simp] theorem length_withIpSource (hb : ipStop ≤ b.length) :
    (withIpSource net src b).length = b.length := by
  have hsrc : (ipSrc.write src.bytes b).length = b.length :=
    Field.length_write src.length_bytes (Nat.le_trans (by decide) hb)
  rw [withIpSource, length_setIpChecksum (hb.trans_eq hsrc.symm), hsrc]

/-- Only `src` and `chksum` change. -/
theorem read_withIpSource (hb : ipStop ≤ b.length) (hsrc : ipSrc.Apart g)
    (hchksum : ipChksum.Apart g) : g.read (withIpSource net src b) = g.read b := by
  have hfits : ipSrc.stop ≤ b.length := Nat.le_trans (by decide) hb
  have hlength := Field.length_write (v := src.bytes) src.length_bytes hfits
  rw [withIpSource, read_setIpChecksum (hb.trans_eq hlength.symm) hchksum,
    Field.read_write_of_apart hsrc src.length_bytes hfits]

/-- A field of the Ethernet header can be written before or after. -/
theorem withIpSource_write (hb : ipStop ≤ b.length) (hv : v.length = f.size)
    (hf : f.stop ≤ ethStop) :
    withIpSource net src (f.write v b) = f.write v (withIpSource net src b) := by
  have hsrc : ipSrc.stop ≤ b.length := Nat.le_trans (by decide) hb
  have hfits : f.stop ≤ b.length := hf.trans (Nat.le_trans (by decide) hb)
  have hlength := Field.length_write (v := src.bytes) src.length_bytes hsrc
  have happart : ipSrc.Apart f := Or.inr (hf.trans (by decide))
  rw [withIpSource, Field.write_comm happart src.length_bytes hv hsrc hfits,
    setIpChecksum_write_comm (hb.trans_eq hlength.symm) hv hf, withIpSource]

end Source

/-- The IP header with the source `src` verifies: its checksum is zero when it has been set. -/
def verifies (src : Ipv4Address) (b : List UInt8) : Bool :=
  net.computeChecksum ((withIpSource net src b).drop ethStop) == 0

/-- The Ethernet header does not count. -/
theorem verifies_write {net : Net} {src : Ipv4Address} {b v : List UInt8} {f : Field}
    (hb : ipStop ≤ b.length) (hv : v.length = f.size) (hf : f.stop ≤ ethStop) :
    verifies net src (f.write v b) = verifies net src b := by
  have hfits : f.stop ≤ (withIpSource net src b).length := by
    rw [length_withIpSource hb]
    exact hf.trans (Nat.le_trans (by decide) hb)
  rw [verifies, withIpSource_write hb hv hf, Field.drop_write_of_le hf hv hfits, verifies]

/-- Set `src` of the IP header, and its `chksum`. -/
def maskIpSource (checked : Bool) (src : Ipv4Address) (b : List UInt8) :
    Except PacketFault (List UInt8) := do
  checkGet ipStop b
  kassert checked (verifies net src b)
  .ok (withIpSource net src b)

/-- The masquerading of a packet for the host. -/
def masqueradeInternal (checked : Bool) (core : UmiCore) (b : List UInt8) :
    Except PacketFault (List UInt8) := do
  let b := ethSrc.write (coreLocalMac core).bytes b
  if ethtype b = kEthTypeArp then
    checkGet arpStop b
    let b := arpSha.write (coreLocalMac core).bytes b
    .ok (arpSpa.write (coreLocalIp core).bytes b)
  else if ethtype b = kEthTypeIp then maskIpSource net checked (coreLocalIp core) b
  else .ok b

/-- The masquerading of a packet for a destination outside. -/
def masqueradeExternal (checked : Bool) (core : UmiCore) (s : PacketState) (b : List UInt8) :
    Except PacketFault (Option (List UInt8) × PacketState) := do
  if ethtype b = kEthTypeIp then
    let b ← maskIpSource net checked net.ipAddress b
    if proto b = kIpProtoTCP then
      checkGet tcpStop b
      let (nport, root, x) := UmProxy.swizzlePortOut s.root core s.proxy (srcPort b)
      .ok (some (tcpSrcPort.write (htons nport) b), { s with root, proxy := x })
    else .ok (some b, s)
  else .ok (none, s)

/-- `nat_masquerade_out`: the masked packet, or none when it is to be dropped. -/
def natMasqueradeOut (checked : Bool) (core : UmiCore) (s : PacketState) (b : List UInt8) :
    Except PacketFault (Option (List UInt8) × PacketState) := do
  kassert checked (decide (ethStop ≤ b.length))
  checkGet ethStop b
  if ← internalDestination checked b then
    let b ← masqueradeInternal net checked core b
    .ok (some b, s)
  else s.masqueradeExternal net checked core b

/-- The TCP port check of `ProcessOutgoing`: a packet for a port that no instance of this core has is
dropped. -/
def checkInternalPort (s : PacketState) (buf : IOBuf) : Outgoing :=
  let target := s.proxy.internalPortLookup (dstPort buf.first)
  if target = nullId then .dropped
  else
    match s.manager.getInstance target with
    | none => .dropped
    | some _ => .received buf

/-- What `ProcessOutgoing` does with a masked packet for the host. -/
def sendInternal (s : PacketState) (buf : IOBuf) : Outgoing :=
  if tcpStop ≤ buf.first.length ∧ proto buf.first = kIpProtoTCP then s.checkInternalPort buf
  else .received buf

/-- The information that goes with an external packet: its checksum is still to be computed. -/
def outgoingInfo : PacketInfo where
  flags := PacketInfo.kNeedsCsum
  csumStart := UInt16.ofNat ipStop
  csumOffset := 16

/-- The sender of a TCP segment with payload is marked inactive. -/
def markSender (checked : Bool) (s : PacketState) (b : List UInt8) :
    Except PacketFault PacketState := do
  if proto b = kIpProtoTCP then
    checkGet tcpStop b
    if checked && decide (b.length < hdrLen b + ipStop) then .error .underflow
    else if 0 < payloadLen b then
      match s.manager.getInstance s.proxy.umiId with
      | none => .error .kabort
      | some umi =>
        .ok { s with manager := s.manager.setUmi umi (s.manager.umis umi).setInactive }
    else .ok s
  else .ok s

/-- What `ProcessOutgoing` does with a masked packet for a destination outside. -/
def sendExternal (checked : Bool) (s : PacketState) (buf : IOBuf) :
    Except PacketFault (Outgoing × PacketState) := do
  let b := buf.first
  checkGet ethStop b
  checkGet ipStop b
  let s ← s.markSender checked b
  .ok (.sent (ethtype b) ((b.drop ethStop).take (ipStop - ethStop)) (buf.advance ethStop)
    outgoingInfo, s)

/-- The end of `ProcessOutgoing`: the masked packet is sent. -/
def sendMasked (checked : Bool) (s : PacketState) (buf : IOBuf) :
    Except PacketFault (Outgoing × PacketState) := do
  if ← internalDestination checked buf.first then .ok (s.sendInternal buf, s)
  else s.sendExternal checked buf

/-- `ProcessOutgoing` on `core`. -/
def processOutgoing (checked : Bool) (core : UmiCore) (s : PacketState) (buf : IOBuf) :
    Except PacketFault (Outgoing × PacketState) := do
  kassert checked (decide (ethStop ≤ buf.first.length))
  if ← natPreprocessOut buf.first then
    match ← s.natMasqueradeOut net checked core buf.first with
    | (none, s) => .ok (.dropped, s)
    | (some b, s) => s.sendMasked checked (buf.withFirst b)
  else .ok (.dropped, s)

/-- `raw_to_iobuf`. -/
def rawToIobuf (checked : Bool) (data : List UInt8) : Except PacketFault IOBuf := do
  kassert checked (decide (ethStop < data.length))
  .ok [data]

/-- What a guest's call of `netwrite` has the event loop do. -/
def netwrite (checked : Bool) (core : UmiCore) (s : PacketState) (data : List UInt8) :
    Except PacketFault (Outgoing × PacketState) := do
  let buf ← rawToIobuf checked data
  s.processOutgoing net checked core buf

end PacketState

end Umm
