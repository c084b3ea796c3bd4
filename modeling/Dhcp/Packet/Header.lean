import Dhcp.Address.Hardware
import Dhcp.Address.Ipv4
import Dhcp.Packet.Fault

/-!
The fixed part of a datagram: 236 octets of fields and the cookie that marks the
protocol. The transaction number, the elapsed seconds and the flags have their
lowest octet first. Only ethernet hardware addresses are accepted.
-/
namespace Dhcp

def Header.size : Nat := 240

def Header.ethernet : UInt8 := 1

def Header.ethernetLength : UInt8 := 6

def Header.magicCookie : Octets 4 := ⟨[99, 130, 83, 99], rfl⟩

/-- The fixed part of a datagram, field by field in order of transmission. -/
structure Header where
  /-- The operation; a reply carries its message type here. -/
  op : UInt8 := 0
  htype : UInt8 := Header.ethernet
  hlen : UInt8 := Header.ethernetLength
  hops : UInt8 := 0
  /-- The transaction number, chosen by the client. -/
  xid : UInt32 := 0
  /-- The seconds since the client began. -/
  secs : UInt16 := 0
  flags : UInt16 := 0
  ciaddr : Ipv4 := Ipv4.unspecified
  yiaddr : Ipv4 := Ipv4.unspecified
  /-- The address of the server to turn to next. -/
  siaddr : Ipv4 := Ipv4.unspecified
  giaddr : Ipv4 := Ipv4.unspecified
  chaddr : HardwareAddress := HardwareAddress.zero
  /-- The octets that a hardware address leaves unused. -/
  chaddrPadding : Octets 10 := Octets.zero 10
  sname : Octets 64 := Octets.zero 64
  file : Octets 128 := Octets.zero 128
  cookie : Octets 4 := Header.magicCookie
  deriving DecidableEq

namespace Header

def ofBytes (bytes : List UInt8) (h : size ≤ bytes.length) : Header :=
  have h : 240 ≤ bytes.length := h
  { op := bytes[0]
    htype := bytes[1]
    hlen := bytes[2]
    hops := bytes[3]
    xid := UInt32.ofNat (Octets.slice bytes 4 4 (by omega)).toNatLittle
    secs := UInt16.ofNat (Octets.slice bytes 8 2 (by omega)).toNatLittle
    flags := UInt16.ofNat (Octets.slice bytes 10 2 (by omega)).toNatLittle
    ciaddr := Ipv4.ofOctets (Octets.slice bytes 12 4 (by omega))
    yiaddr := Ipv4.ofOctets (Octets.slice bytes 16 4 (by omega))
    siaddr := Ipv4.ofOctets (Octets.slice bytes 20 4 (by omega))
    giaddr := Ipv4.ofOctets (Octets.slice bytes 24 4 (by omega))
    chaddr := ⟨Octets.slice bytes 28 6 (by omega)⟩
    chaddrPadding := Octets.slice bytes 34 10 (by omega)
    sname := Octets.slice bytes 44 64 (by omega)
    file := Octets.slice bytes 108 128 (by omega)
    cookie := Octets.slice bytes 236 4 (by omega) }

/-- The fixed part at the front of `bytes`; what follows it is left alone. The
length is checked first, then the hardware type, the hardware length, the cookie. -/
def parse (bytes : List UInt8) : Except PacketFault Header :=
  if h : size ≤ bytes.length then
    let header := ofBytes bytes h
    if header.htype ≠ ethernet then .error (.hardwareType header.htype)
    else if header.hlen ≠ ethernetLength then .error (.hardwareLength header.hlen)
    else if header.cookie ≠ magicCookie then .error .wrongCookie
    else .ok header
  else .error (.tooShort bytes.length)

def encode (header : Header) : List UInt8 :=
  [header.op, header.htype, header.hlen, header.hops] ++
    (Octets.littleEndian 4 header.xid.toNat).toList ++
    (Octets.littleEndian 2 header.secs.toNat).toList ++
    (Octets.littleEndian 2 header.flags.toNat).toList ++
    header.ciaddr.octets.toList ++ header.yiaddr.octets.toList ++
    header.siaddr.octets.toList ++ header.giaddr.octets.toList ++
    header.chaddr.octets.toList ++ header.chaddrPadding.toList ++
    header.sname.toList ++ header.file.toList ++ header.cookie.toList

theorem length_encode (header : Header) : header.encode.length = size := by
  simp [encode, Octets.length_toList, size]

end Header

end Dhcp
