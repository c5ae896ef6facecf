import Umm.Foundations.OnesComplement
import Umm.Manager.Instance
import Umm.Proxy.ProxyRoot

/-!
# Frames

The bytes of an Ethernet frame as the network proxy reads and writes them.  A frame is the first
buffer of its chain; a header is a struct laid over the bytes from a fixed offset, so that its
members are `Field`s of the buffer.  The IP header is the one without options.

`Net` is what the proxy uses of the network stack of the host.
-/

namespace Umm

open Foundations

/-- An address of `n` bytes. -/
structure Address (n : ℕ) where
  /-- The bytes of the address. -/
  bytes : List UInt8
  /-- There are `n` of them. -/
  length_bytes : bytes.length = n
deriving DecidableEq

/-- `Ipv4Address`. -/
abbrev Ipv4Address := Address 4

/-- `EthernetAddress`. -/
abbrev EthernetAddress := Address 6

/-- What the network stack of the host provides. -/
structure Net where
  /-- `Ipv4Header::ComputeChecksum` of the header at the front of the bytes. -/
  computeChecksum : List UInt8 → UInt16
  /-- `IpPseudoCsum` of a chain, for a protocol, a source and a destination address. -/
  ipPseudoCsum : IOBuf → UInt8 → List UInt8 → List UInt8 → UInt16
  /-- `IpAddress` of the network manager. -/
  ipAddress : Ipv4Address
  /-- `Cpu::Count`. -/
  cpuCount : ℕ

namespace IOBuf

/-- The bytes of the first buffer of a chain. -/
def first (buf : IOBuf) : List UInt8 :=
  buf.headD []

/-- The chain with other bytes in its first buffer. -/
def withFirst (buf : IOBuf) (b : List UInt8) : IOBuf :=
  b :: buf.tail

@[simp] theorem first_withFirst (buf : IOBuf) (b : List UInt8) : (buf.withFirst b).first = b := rfl

@[simp] theorem withFirst_withFirst (buf : IOBuf) (b c : List UInt8) :
    (buf.withFirst b).withFirst c = buf.withFirst c := rfl

end IOBuf

/-! ## Numbers in network byte order -/

/-- The number whose bytes these are, the most significant one first. -/
def beNat (v : List UInt8) : ℕ :=
  v.foldl (fun n x => 256 * n + x.toNat) 0

/-- `ntohs` of a member of two bytes. -/
def ntohs (v : List UInt8) : UInt16 :=
  UInt16.ofNat (beNat v)

/-- `ntohl` of a member of four bytes. -/
def ntohl (v : List UInt8) : UInt32 :=
  UInt32.ofNat (beNat v)

/-- `htons`. -/
def htons (x : UInt16) : List UInt8 :=
  [UInt8.ofNat (x.toNat / 256), UInt8.ofNat (x.toNat % 256)]

@[simp] theorem length_htons (x : UInt16) : (htons x).length = 2 := rfl

@[simp] theorem ntohs_htons (x : UInt16) : ntohs (htons x) = x := by
  have hx := x.toNat_lt
  have hdiv : (UInt8.ofNat (x.toNat / 256)).toNat = x.toNat / 256 :=
    UInt8.toNat_ofNat_of_lt' (by change x.toNat / 256 < 256; omega)
  have hmod : (UInt8.ofNat (x.toNat % 256)).toNat = x.toNat % 256 :=
    UInt8.toNat_ofNat_of_lt' (by change x.toNat % 256 < 256; omega)
  have hnat : beNat (htons x) = x.toNat := by
    simp only [beNat, htons, List.foldl_cons, List.foldl_nil, hdiv, hmod]
    omega
  rw [ntohs, hnat, UInt16.ofNat_toNat]

/-! ## Checksums -/

/-- The pseudo header of a segment of `len` bytes. -/
def pseudoHeader (proto : UInt8) (src dst : List UInt8) (len : ℕ) : List UInt8 :=
  src ++ dst ++ [0, proto] ++ htons (UInt16.ofNat len)

namespace Net

/-- `IpPseudoCsum` computes the checksum of the pseudo header and the bytes of the chain. -/
def HasPseudoCsum (net : Net) : Prop :=
  ∀ buf proto src dst, net.ipPseudoCsum buf proto src dst =
    UInt16.ofNat (checksum (pseudoHeader proto src dst buf.flatten.length ++ buf.flatten))

/-- A network stack with ones' complement checksums, on a machine with `cpuCount` cores. -/
def onesComplement (ipAddress : Ipv4Address) (cpuCount : ℕ) : Net where
  computeChecksum header :=
    UInt16.ofNat (checksum (header.take (4 * ((header.headD 0).toNat % 16))))
  ipPseudoCsum buf proto src dst :=
    UInt16.ofNat (checksum (pseudoHeader proto src dst buf.flatten.length ++ buf.flatten))
  ipAddress := ipAddress
  cpuCount := cpuCount

end Net

namespace Frame

/-! ## The headers -/

/-- `dst` of the Ethernet header. -/
def ethDst : Field := ⟨0, 6⟩
/-- `src` of the Ethernet header. -/
def ethSrc : Field := ⟨6, 6⟩
/-- `type` of the Ethernet header. -/
def ethType : Field := ⟨12, 2⟩

/-- `version_ihl` of the IP header. -/
def ipVersionIhl : Field := ⟨14, 1⟩
/-- `length` of the IP header. -/
def ipLength : Field := ⟨16, 2⟩
/-- `proto` of the IP header. -/
def ipProto : Field := ⟨23, 1⟩
/-- `chksum` of the IP header. -/
def ipChksum : Field := ⟨24, 2⟩
/-- `src` of the IP header. -/
def ipSrc : Field := ⟨26, 4⟩
/-- `dst` of the IP header. -/
def ipDst : Field := ⟨30, 4⟩

/-- `oper` of an ARP packet. -/
def arpOper : Field := ⟨20, 2⟩
/-- `sha` of an ARP packet. -/
def arpSha : Field := ⟨22, 6⟩
/-- `spa` of an ARP packet. -/
def arpSpa : Field := ⟨28, 4⟩
/-- `tha` of an ARP packet. -/
def arpTha : Field := ⟨32, 6⟩
/-- `tpa` of an ARP packet. -/
def arpTpa : Field := ⟨38, 4⟩

/-- `src_port` of the TCP header. -/
def tcpSrcPort : Field := ⟨34, 2⟩
/-- `dst_port` of the TCP header. -/
def tcpDstPort : Field := ⟨36, 2⟩
/-- `ackno` of the TCP header. -/
def tcpAckno : Field := ⟨42, 4⟩
/-- `hdrlen_flags` of the TCP header. -/
def tcpHdrlenFlags : Field := ⟨46, 2⟩
/-- `checksum` of the TCP header. -/
def tcpChecksum : Field := ⟨50, 2⟩

/-- Where the Ethernet header ends. -/
def ethStop : ℕ := 14
/-- Where an ARP packet ends. -/
def arpStop : ℕ := 42
/-- Where the IP header ends. -/
def ipStop : ℕ := 34
/-- Where the TCP header ends. -/
def tcpStop : ℕ := 54

/-- `kEthTypeIp`. -/
def kEthTypeIp : UInt16 := 0x800
/-- `kEthTypeArp`. -/
def kEthTypeArp : UInt16 := 0x806
/-- The type of IPv6, which is ignored. -/
def ethTypeIpv6 : UInt16 := 0x86dd
/-- `kIpProtoTCP`. -/
def kIpProtoTCP : UInt8 := 6

section Accessors

variable (b : List UInt8)

/-- The type of the frame. -/
def ethtype : UInt16 := ntohs (ethType.read b)

/-- `proto` of the IP header. -/
def proto : UInt8 := (ipProto.read b).headD 0

/-- The length of the IP header that `version_ihl` gives, in words of four bytes. -/
def ihl : ℕ := ((ipVersionIhl.read b).headD 0).toNat % 16

/-- `length` of the IP header. -/
def totalLength : ℕ := beNat (ipLength.read b)

/-- `HdrLen` of the TCP header. -/
def hdrLen : ℕ := ((tcpHdrlenFlags.read b).headD 0).toNat / 16 * 4

/-- `Flags` of the TCP header contain `kTcpSyn`. -/
def isSyn : Bool := ((tcpHdrlenFlags.read b).getD 1 0) &&& 2 != 0

/-- `src_port` of the TCP header. -/
def srcPort : Port := ntohs (tcpSrcPort.read b)

/-- `dst_port` of the TCP header. -/
def dstPort : Port := ntohs (tcpDstPort.read b)

end Accessors

/-! ## The addresses of the proxy -/

/-- `client_internal_macaddr`. -/
def clientInternalMacaddr : EthernetAddress := ⟨[0x06, 0xfe, 0x00, 0x00, 0x00, 0x00], rfl⟩

/-- `client_internal_ipv4`. -/
def clientInternalIpv4 : Ipv4Address := ⟨[169, 254, 1, 0], rfl⟩

/-- `host_internal_ipv4`. -/
def hostInternalIpv4 : Ipv4Address := ⟨[169, 254, 0, 1], rfl⟩

/-- `host_internal_macaddr`: the address of the loopback driver. -/
def hostInternalMacaddr : EthernetAddress := ⟨[0x06, 0xfe, 0x22, 0x22, 0x22, 0x22], rfl⟩

/-- `CoreLocalMac`. -/
def coreLocalMac (core : UmiCore) : EthernetAddress :=
  ⟨[0x06, 0xfe, 0x01, 0x02, 0x03, UInt8.ofNat core], rfl⟩

/-- `CoreLocalIp`. -/
def coreLocalIp (core : UmiCore) : Ipv4Address :=
  ⟨[169, 254, 254, UInt8.ofNat core], rfl⟩

end Frame

/-- `PacketInfo`. -/
structure PacketInfo where
  /-- `flags`. -/
  flags : UInt8 := 0
  /-- `gso_type`. -/
  gsoType : UInt8 := 0
  /-- `hdr_len`. -/
  hdrLen : UInt16 := 0
  /-- `gso_size`. -/
  gsoSize : UInt16 := 0
  /-- `csum_start`. -/
  csumStart : UInt16 := 0
  /-- `csum_offset`. -/
  csumOffset : UInt16 := 0
deriving DecidableEq, Repr

namespace PacketInfo

/-- `kNeedsCsum`. -/
def kNeedsCsum : UInt8 := 1

/-- The flag `kNeedsCsum` is set. -/
def needsCsum (pinfo : PacketInfo) : Bool :=
  pinfo.flags &&& kNeedsCsum != 0

end PacketInfo

end Umm
