import Dhcp.Address.Set
import Dhcp.Config.Basic
import Dhcp.Event
import Dhcp.Lease.Index

/-!
The pool of addresses a server leases. Three indexes are kept side by side: the
lease of each client, the client of each leased address, and the free addresses.
An address that is given out is always the least free one, and only a client that
is given another address in its place gives one back.
-/
namespace Dhcp

/-- The addresses of a range and who holds them. -/
structure Pool where
  config : Config
  leases : Index HardwareAddress Lease
  holders : Index Ipv4 HardwareAddress
  free : AddressSet

/-- A lease just made, the pool after it, and what there is to report. -/
structure Grant where
  lease : Lease
  pool : Pool
  events : List Event

inductive Allocation
  /-- The client held it before. -/
  | existing (lease : Lease)
  /-- It was made for the client just now. -/
  | new (grant : Grant)

def Allocation.lease : Allocation → Lease
  | existing lease => lease
  | new grant => grant.lease

namespace Pool

/-- The pool in which no address is leased. The server's own address is not part of
it, even where it lies in the range. -/
def create (config : Config) : Pool where
  config := config
  leases := .empty
  holders := .empty
  free := (AddressSet.range config.poolStart config.poolEnd).erase config.serverAddress

def leaseOf (pool : Pool) (client : HardwareAddress) : Option Lease := pool.leases.get? client

/-- The lease on an address, found through the client that holds it. -/
def leaseOn (pool : Pool) (address : Ipv4) : Option Lease :=
  (pool.holders.get? address).bind pool.leaseOf

def list (pool : Pool) : List Lease :=
  pool.leases.values.mergeSort fun a b => decide (a.address ≤ b.address)

/-- The number of leases that have not run out. -/
def activeCount (pool : Pool) (now : Instant) : Nat :=
  (pool.leases.values.filter fun lease => !lease.isExpired now).length

def freeCount (pool : Pool) : Nat := pool.free.size

def leaseCount (pool : Pool) : Nat := pool.leases.size

/-- Leases the least free address to a client. A lease the client held before is
replaced, and its address is free from then on. -/
def nextLease (pool : Pool) (client : HardwareAddress) (hostname : Option String)
    (now : Instant) : Except PoolFault Grant :=
  match pool.free.takeLeast? with
  | none => .error .exhausted
  | some (address, free) =>
    let lease := Lease.create address client hostname pool.config.leaseSeconds now
    let leases := pool.leases.insert client lease
    match pool.leaseOf client with
    | none =>
      .ok {
        lease := lease
        pool := { pool with leases, holders := pool.holders.insert address client, free }
        events := [] }
    | some previous =>
      .ok {
        lease := lease
        pool := { pool with
          leases
          holders := (pool.holders.erase previous.address).insert address client
          free := free.insert previous.address }
        events := [.replaced client previous.address address] }

/-- The lease a client holds, or else the least free address for it. -/
def leaseFor (pool : Pool) (client : HardwareAddress) (hostname : Option String)
    (now : Instant) : Except PoolFault Allocation :=
  match pool.leaseOf client with
  | some lease => .ok (.existing lease)
  | none =>
    match pool.nextLease client hostname now with
    | .ok grant => .ok (.new grant)
    | .error fault => .error fault

end Pool

end Dhcp
