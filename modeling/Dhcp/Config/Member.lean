import Dhcp.Config.Basic

/-!
The members of a configuration text: their names, which of them must be there,
and the draft of a configuration in which only some are known yet.
-/
namespace Dhcp.Config

inductive Member
  | serverAddress
  | subnetMask
  | poolStart
  | poolEnd
  | routers
  | dnsServers
  | leaseSeconds
  | broadcastAddress
  deriving DecidableEq

namespace Member

def name : Member → String
  | serverAddress => "server_ip"
  | subnetMask => "subnet_mask"
  | poolStart => "pool_start"
  | poolEnd => "pool_end"
  | routers => "routers"
  | dnsServers => "dns_servers"
  | leaseSeconds => "lease_duration_seconds"
  | broadcastAddress => "broadcast_address"

/-- All members in the order in which they are written. -/
def all : List Member :=
  [serverAddress, subnetMask, poolStart, poolEnd, routers, dnsServers, leaseSeconds,
    broadcastAddress]

def ofName? (key : List Char) : Option Member := all.find? fun m => m.name.toList == key

/-- The number of members written before this one. -/
def index (m : Member) : Nat := all.idxOf m

end Member

/-- A configuration of which only some members are known. -/
structure Draft where
  serverAddress : Option Ipv4 := none
  subnetMask : Option Ipv4 := none
  poolStart : Option Ipv4 := none
  poolEnd : Option Ipv4 := none
  routers : Option (List Ipv4) := none
  dnsServers : Option (List Ipv4) := none
  leaseSeconds : Option UInt32 := none
  broadcastAddress : Option (Option Ipv4) := none
  deriving DecidableEq

namespace Draft

def has (draft : Draft) : Member → Bool
  | .serverAddress => draft.serverAddress.isSome
  | .subnetMask => draft.subnetMask.isSome
  | .poolStart => draft.poolStart.isSome
  | .poolEnd => draft.poolEnd.isSome
  | .routers => draft.routers.isSome
  | .dnsServers => draft.dnsServers.isSome
  | .leaseSeconds => draft.leaseSeconds.isSome
  | .broadcastAddress => draft.broadcastAddress.isSome

/-- The member, or that it is missing. -/
def require {α : Type} (m : Member) : Option α → Except Member α
  | some value => .ok value
  | none => .error m

/-- The configuration of a draft, or the first member that it must have and has
not. The lists may be left out and are then empty. -/
def toConfig (draft : Draft) : Except Member Config := do
  return {
    serverAddress := ← require .serverAddress draft.serverAddress
    subnetMask := ← require .subnetMask draft.subnetMask
    poolStart := ← require .poolStart draft.poolStart
    poolEnd := ← require .poolEnd draft.poolEnd
    routers := draft.routers.getD []
    dnsServers := draft.dnsServers.getD []
    leaseSeconds := ← require .leaseSeconds draft.leaseSeconds
    broadcastAddress := draft.broadcastAddress.getD none }

end Draft

end Dhcp.Config
