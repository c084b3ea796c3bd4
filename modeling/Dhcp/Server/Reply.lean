import Dhcp.Config.Basic
import Dhcp.Lease.Basic
import Dhcp.Request

/-!
Replies to clients. A reply repeats the transaction number and the hardware
address of its request and names the leased address; its options follow a fixed
order, in which empty lists are left out.
-/
namespace Dhcp.Reply

def header (config : Config) (request : Request) (lease : Lease) (type : MessageType) : Header where
  op := type.toUInt8
  xid := request.xid
  yiaddr := lease.address
  siaddr := config.serverAddress
  chaddr := request.client

/-- Sets a list of addresses unless it is empty. -/
def setAddresses (area : OptionArea) (code : OptionCode) (addresses : List Ipv4) :
    Except OptionFault OptionArea :=
  if addresses = [] then .ok area else area.set code.toUInt8 (encodeAddresses addresses)

/-- The options of a reply: message type, subnet mask, routers, name servers, lease
time, server. It fails when a list is too long for one option. -/
def options (config : Config) (type : MessageType) : Except OptionFault OptionArea := do
  let area ← OptionArea.empty.set OptionCode.messageType.toUInt8 [type.toUInt8]
  let area ← area.set OptionCode.subnetMask.toUInt8 config.subnetMask.octets.toList
  let area ← setAddresses area .router config.routers
  let area ← setAddresses area .dnsServer config.dnsServers
  let area ← area.set OptionCode.leaseTime.toUInt8
    (Octets.bigEndian 4 config.leaseSeconds.toNat).toList
  area.set OptionCode.serverIdentifier.toUInt8 config.serverAddress.octets.toList

/-- The reply of a type to a request for which there is a lease. -/
def build (config : Config) (request : Request) (lease : Lease) (type : MessageType) :
    Except OptionFault Packet := do
  return ⟨header config request lease type, ← options config type⟩

end Dhcp.Reply
