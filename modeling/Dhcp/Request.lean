import Dhcp.Options.MessageType
import Dhcp.Packet.Basic

/-!
Datagrams as the server acts on them. The datagram is kept as it arrived; beside
it stand the message type and the client address that count, which an option of
the right length overrides.
-/
namespace Dhcp

/-- An accepted datagram and what counts in it. -/
structure Request where
  packet : Packet
  /-- The message type option, or the operation of the fixed part. -/
  type : UInt8
  /-- The requested address option, or the client address of the fixed part. -/
  clientAddress : Ipv4
  source : Endpoint
  deriving DecidableEq

inductive RequestFault
  | sourcePort (port : UInt16)
  | packet (fault : PacketFault)
  deriving DecidableEq

def RequestFault.message : RequestFault → String
  | sourcePort port => "Source port is " ++ toString port.toNat ++ " rather than 68"
  | packet fault => fault.message

namespace Request

/-- The port that clients send from and listen on. -/
def clientPort : UInt16 := 68

/-- What counts in a datagram from `source`. -/
def ofPacket (packet : Packet) (source : Endpoint) : Request where
  packet := packet
  type := packet.options.messageType.getD packet.header.op
  clientAddress := packet.options.requestedAddress.getD packet.header.ciaddr
  source := source

/-- The request in a datagram. The port it comes from is checked before its octets. -/
def parse (bytes : List UInt8) (source : Endpoint) : Except RequestFault Request :=
  if source.port ≠ clientPort then .error (.sourcePort source.port)
  else match Packet.parse bytes with
    | .ok packet => .ok (ofPacket packet source)
    | .error fault => .error (.packet fault)

theorem parse_eq_ok_iff {bytes : List UInt8} {source : Endpoint} {request : Request} :
    parse bytes source = .ok request ↔
      source.port = clientPort ∧
        ∃ packet, Packet.parse bytes = .ok packet ∧ request = ofPacket packet source := by
  unfold parse
  by_cases hport : source.port = clientPort
  · cases Packet.parse bytes with
    | ok packet => simp [hport, eq_comm]
    | error fault => simp [hport]
  · simp [hport]

def kind? (request : Request) : Option MessageType := MessageType.ofUInt8? request.type

def client (request : Request) : HardwareAddress := request.packet.header.chaddr

def xid (request : Request) : UInt32 := request.packet.header.xid

/-- The host name the client gives itself. -/
def hostname (request : Request) : Option String := request.packet.options.hostname

end Request

end Dhcp
