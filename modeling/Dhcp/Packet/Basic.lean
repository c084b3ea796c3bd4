import Dhcp.Options.Area
import Dhcp.Packet.Header

/-!
A whole datagram: the fixed part and the option area behind it. A datagram is
sent with zeros behind the end mark up to 300 octets, the least that relays pass.
-/
namespace Dhcp

structure Packet where
  header : Header
  options : OptionArea
  deriving DecidableEq

namespace Packet

def minimumSize : Nat := 300

/-- The datagram of a string of octets. A fault of the fixed part is reported first. -/
def parse (bytes : List UInt8) : Except PacketFault Packet := do
  let header ← Header.parse bytes
  let options ← OptionArea.parse (bytes.drop Header.size)
  return ⟨header, options⟩

def body (packet : Packet) : List UInt8 := packet.header.encode ++ packet.options.encode

/-- The octets of a datagram as sent. -/
def encode (packet : Packet) : List UInt8 :=
  packet.body ++ List.replicate (minimumSize - packet.body.length) 0

theorem length_encode (packet : Packet) :
    packet.encode.length = max minimumSize packet.body.length := by
  simp only [encode, List.length_append, List.length_replicate]
  omega

end Packet

end Dhcp
