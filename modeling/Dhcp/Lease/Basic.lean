import Dhcp.Address.Hardware
import Dhcp.Address.Ipv4

/-!
Leases. A lease records from when and until when it runs, but running out has no
effect on it: the address stays with its client.
-/
namespace Dhcp

/-- A point in time, in nanoseconds from a fixed one. -/
structure Instant where
  nanos : Int
  deriving DecidableEq, Inhabited

namespace Instant

def after (t : Instant) (seconds : Nat) : Instant := ⟨t.nanos + 1000000000 * seconds⟩

/-- The whole seconds from `t` to `u`, negative when `u` comes first. -/
def secondsTo (t u : Instant) : Int := (u.nanos - t.nanos).tdiv 1000000000

end Instant

/-- An address bound to a client. -/
structure Lease where
  address : Ipv4
  client : HardwareAddress
  /-- The host name the client gave when the lease was made. -/
  hostname : Option String
  expiresAt : Instant
  createdAt : Instant
  deriving DecidableEq

namespace Lease

def create (address : Ipv4) (client : HardwareAddress) (hostname : Option String)
    (seconds : UInt32) (now : Instant) : Lease where
  address := address
  client := client
  hostname := hostname
  expiresAt := now.after seconds.toNat
  createdAt := now

/-- The whole seconds for which the lease was made. -/
def duration (lease : Lease) : Int := lease.createdAt.secondsTo lease.expiresAt

theorem duration_create (address : Ipv4) (client : HardwareAddress) (hostname : Option String)
    (seconds : UInt32) (now : Instant) :
    (create address client hostname seconds now).duration = seconds.toNat := by
  simp only [duration, create, Instant.after, Instant.secondsTo]
  rw [show now.nanos + 1000000000 * (seconds.toNat : Int) - now.nanos =
    seconds.toNat * 1000000000 by omega]
  exact Int.mul_tdiv_cancel _ (by decide)

def isExpired (lease : Lease) (now : Instant) : Bool := lease.expiresAt.nanos < now.nanos

/-- The whole seconds left, none once the lease has run out. -/
def remainingSeconds (lease : Lease) (now : Instant) : Int :=
  max (now.secondsTo lease.expiresAt) 0

end Lease

inductive PoolFault
  | exhausted
  deriving DecidableEq

def PoolFault.message : PoolFault → String
  | exhausted => "No available IP addresses in pool"

end Dhcp
