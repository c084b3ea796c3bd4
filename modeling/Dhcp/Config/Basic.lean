import Dhcp.Address.Ipv4

/-!
The configuration of a server: its own address, the range of addresses it leases,
and what it tells its clients. The range takes in both of its ends.
-/
namespace Dhcp

structure Config where
  serverAddress : Ipv4
  subnetMask : Ipv4
  poolStart : Ipv4
  poolEnd : Ipv4
  routers : List Ipv4
  dnsServers : List Ipv4
  leaseSeconds : UInt32
  /-- Where replies go, when that is not left to the subnet mask. -/
  broadcastAddress : Option Ipv4
  deriving DecidableEq

/-- Why a range of addresses has no size of 32 bits. -/
inductive PoolSizeFault
  /-- The range ends before it starts. -/
  | below
  /-- The range holds every address there is. -/
  | above
  deriving DecidableEq

def PoolSizeFault.message : PoolSizeFault → String
  | below => "attempt to subtract with overflow"
  | above => "attempt to add with overflow"

namespace Config

def standard : Config where
  serverAddress := .ofParts 192 168 1 1
  subnetMask := .ofParts 255 255 255 0
  poolStart := .ofParts 192 168 1 100
  poolEnd := .ofParts 192 168 1 200
  routers := [.ofParts 192 168 1 1]
  dnsServers := [.ofParts 8 8 8 8, .ofParts 8 8 4 4]
  leaseSeconds := 86400
  broadcastAddress := none

instance : Inhabited Config := ⟨standard⟩

def InPool (config : Config) (a : Ipv4) : Prop := config.poolStart ≤ a ∧ a ≤ config.poolEnd

instance (config : Config) (a : Ipv4) : Decidable (config.InPool a) :=
  inferInstanceAs (Decidable (_ ∧ _))

def poolSize (config : Config) : Except PoolSizeFault Nat :=
  if config.poolEnd < config.poolStart then .error .below
  else
    let size := config.poolEnd.toNat - config.poolStart.toNat + 1
    if size < UInt32.size then .ok size else .error .above

/-- Where replies go: the address given for it, or the server's own address with
every bit outside the subnet mask set. -/
def broadcast (config : Config) : Ipv4 :=
  match config.broadcastAddress with
  | some a => a
  | none => ⟨config.serverAddress.bits ||| ~~~config.subnetMask.bits⟩

end Config

end Dhcp
