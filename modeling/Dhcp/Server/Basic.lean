import Dhcp.Config.Rules
import Dhcp.Server.Task

/-!
The server on a pool: one datagram after the other, each answered by one reply at
most. A reply is sent to the broadcast address; whether it arrives there changes
nothing but the report.
-/
namespace Dhcp.Server

structure Outcome where
  reply : Option Packet
  events : List Event
  pool : Pool

/-- A pool for a configuration that meets every rule. -/
def start (config : Config) : Except ConfigFault Pool := do
  return Pool.create (← config.validate)

def respond (pool : Pool) (bytes : List UInt8) (source : Endpoint) (now : Instant) : Outcome :=
  let (task, pool) := (Task.start bytes source).run pool now
  ⟨task.reply, task.events, pool⟩

def destination (config : Config) : Endpoint := ⟨config.broadcast, Request.clientPort⟩

/-- What comes of sending octets to an endpoint. -/
abbrev Delivery := Endpoint → List UInt8 → Except SendFault Unit

/-- Answers a datagram and sends the reply. -/
def handle (deliver : Delivery) (pool : Pool) (bytes : List UInt8) (source : Endpoint)
    (now : Instant) : Outcome :=
  let outcome := respond pool bytes source now
  match outcome.reply with
  | none => outcome
  | some reply =>
    match deliver (destination pool.config) reply.encode with
    | .ok _ => outcome
    | .error fault =>
      { outcome with events := outcome.events ++ [.sendFailed reply.header.chaddr fault] }

end Dhcp.Server
