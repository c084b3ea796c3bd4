import Dhcp.Lease.Basic
import Dhcp.Request

/-!
What the server reports while it works: the events, how grave each is, and the
line that stands for it in a log.
-/
namespace Dhcp

inductive Level
  | debug
  | info
  | warn
  | error
  deriving DecidableEq

def Level.text : Level → String
  | debug => "DEBUG"
  | info => "INFO"
  | warn => "WARN"
  | error => "ERROR"

/-- A reply that could not be sent, for a reason in the words of the system. -/
inductive SendFault
  | io (reason : String)
  deriving DecidableEq

def SendFault.message : SendFault → String
  | io reason => "IO error: " ++ reason

inductive Event
  /-- A client that held `previous` was given `address` in its place. -/
  | replaced (client : HardwareAddress) (previous address : Ipv4)
  | refused (source : Endpoint) (fault : RequestFault)
  /-- A datagram of a type on which the server does not act. -/
  | unimplemented (type : MessageType) (client : HardwareAddress)
  | unknownType (type : UInt8) (client : HardwareAddress)
  | discover (client : HardwareAddress)
  /-- A client asks for the address it was offered. -/
  | request (client : HardwareAddress)
  /-- A client asks for an address but holds none. -/
  | unrecognized (client : HardwareAddress)
  | noLease (client : HardwareAddress) (fault : PoolFault)
  | oldLease (client : HardwareAddress) (address : Ipv4)
  | newLease (client : HardwareAddress) (address : Ipv4)
  /-- A client asks for an address other than the one it holds. -/
  | mismatch (client : HardwareAddress) (asked held : Ipv4)
  | sending (type : MessageType) (address : Ipv4) (client : HardwareAddress)
  | buildFailed (type : MessageType) (client : HardwareAddress) (fault : OptionFault)
  | sendFailed (client : HardwareAddress) (fault : SendFault)
  deriving DecidableEq

namespace Event

def level : Event → Level
  | replaced .. => .debug
  | refused .. | unimplemented .. | unknownType .. | noLease .. | mismatch .. => .warn
  | discover .. | request .. | unrecognized .. | oldLease .. | newLease .. | sending .. => .info
  | buildFailed .. | sendFailed .. => .error

def text : Event → String
  | replaced client previous address =>
    "Replacing lease " ++ toString previous ++ " for " ++ toString client ++ " with " ++
      toString address
  | refused source fault =>
    "Failed parsing request from " ++ toString source ++ ": " ++ fault.message
  | unimplemented type client => "Unimplemented " ++ type.text ++ " from " ++ toString client
  | unknownType type client =>
    "Unimplemented op " ++ toString type.toNat ++ " from " ++ toString client
  | discover client => "DHCPDISCOVER from " ++ toString client
  | request client => "DHCPREQUEST from " ++ toString client
  | unrecognized client =>
    "Unrecognized lease for " ++ toString client ++ ", handling as DHCPDISCOVER"
  | noLease client fault =>
    "Could not get a new lease for " ++ toString client ++ ": " ++ fault.message
  | oldLease client address =>
    "Have old lease for " ++ toString client ++ ": " ++ toString address
  | newLease client address =>
    "Got a new lease for " ++ toString client ++ ": " ++ toString address
  | mismatch client asked held =>
    "Client IP does not match for " ++ toString client ++ ": " ++ toString asked ++ " != " ++
      toString held ++ " (expected)"
  | sending type address client =>
    "Sending " ++ type.text ++ " with " ++ toString address ++ " to " ++ toString client
  | buildFailed type client fault =>
    "Failed building " ++ type.text ++ " for " ++ toString client ++ ": " ++ fault.message
  | sendFailed client fault =>
    "Failed sending reply to " ++ toString client ++ ": " ++ fault.message

/-- The line of a log that stands for an event. -/
def line (event : Event) : String := event.level.text ++ " " ++ event.text

end Event

end Dhcp
