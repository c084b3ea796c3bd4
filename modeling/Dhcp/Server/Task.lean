import Dhcp.Lease.Pool
import Dhcp.Server.Reply

/-!
The work on one datagram. It passes through stages, and one step leads to the next
stage. Looking up a lease and making one are each a step of their own, so that the
steps of several tasks on one pool may come in any order; no other step looks at
the leases.
-/
namespace Dhcp

/-- The stage of the work on one datagram, with the events so far. A client that asks for
its address has its lease looked up, any other one has a lease found or made for it. -/
inductive Task
  | lookUp (request : Request) (events : List Event)
  | allocate (request : Request) (events : List Event)
  | answer (request : Request) (lease : Lease) (type : MessageType) (events : List Event)
  | done (reply : Option Packet) (events : List Event)

namespace Task

def start (bytes : List UInt8) (source : Endpoint) : Task :=
  match Request.parse bytes source with
  | .error fault => .done none [.refused source fault]
  | .ok request =>
    match request.kind? with
    | some .discover => .allocate request [.discover request.client]
    | some .request => .lookUp request [.request request.client]
    | some type => .done none [.unimplemented type request.client]
    | none => .done none [.unknownType request.type request.client]

/-- One step. A client that asks for its address but holds none is treated as one
that looks for an address. -/
def step (task : Task) (pool : Pool) (now : Instant) : Task × Pool :=
  match task with
  | lookUp request events =>
    match pool.leaseOf request.client with
    | none =>
      (.allocate request
        (events ++ [.unrecognized request.client, .discover request.client]), pool)
    | some lease =>
      if request.clientAddress = lease.address then (.answer request lease .ack events, pool)
      else
        (.done none
          (events ++ [.mismatch request.client request.clientAddress lease.address]), pool)
  | allocate request events =>
    match pool.leaseFor request.client request.hostname now with
    | .error fault => (.done none (events ++ [.noLease request.client fault]), pool)
    | .ok (.existing lease) =>
      (.answer request lease .offer
        (events ++ [.oldLease request.client lease.address]), pool)
    | .ok (.new grant) =>
      (.answer request grant.lease .offer
        (events ++ grant.events ++ [.newLease request.client grant.lease.address]), grant.pool)
  | answer request lease type events =>
    match Reply.build pool.config request lease type with
    | .ok reply =>
      (.done (some reply) (events ++ [.sending type lease.address request.client]), pool)
    | .error fault =>
      (.done none (events ++ [.buildFailed type request.client fault]), pool)
  | done reply events => (.done reply events, pool)

/-- As many steps as there are stages. -/
def run (task : Task) (pool : Pool) (now : Instant) : Task × Pool :=
  let first := task.step pool now
  let second := first.1.step first.2 now
  second.1.step second.2 now

def reply : Task → Option Packet
  | done reply _ => reply
  | _ => none

def events : Task → List Event
  | lookUp _ events | allocate _ events | answer _ _ _ events | done _ events => events

end Task

end Dhcp
