import Dhcp.Proofs.Codec
import Dhcp.Proofs.Dropped

/-!
Which addresses a server assigns. Only an address that its pool may lease is ever named to a
client, and each of these is, once enough clients have asked: newcomers are given the free
addresses from the least one up, and there are hardware addresses enough to take them all.
The rules of a configuration keep the server and its routers out of the range. They do not
speak of the broadcast address, which is leased like any other where the range takes it in.
-/
namespace Dhcp

/-- After some calls on a pool of this configuration, some datagram is answered by a reply
that assigns the address. -/
def Server.Assigns (config : Config) (a : Ipv4) : Prop :=
  ∃ (calls : List Call) (arrival : Arrival) (reply : Packet),
    (respond ((Pool.create config).afterCalls calls) arrival.bytes arrival.source
      arrival.now).reply = some reply ∧ reply.header.yiaddr = a

/-- A hardware address of its own for each network address. -/
def HardwareAddress.ofAddress (a : Ipv4) : HardwareAddress :=
  ⟨⟨2 :: 0 :: a.octets.toList, by simp [a.octets.length_toList]⟩⟩

/-- The datagram of a client that looks for an address and says nothing else. -/
def Packet.seeking (client : HardwareAddress) : Packet := ⟨{ op := 1, chaddr := client }, .empty⟩

def Arrival.seeking (client : HardwareAddress) : Arrival :=
  ⟨(Packet.seeking client).encode, ⟨.unspecified, 68⟩, ⟨0⟩⟩

def Call.seeking (client : HardwareAddress) : Call :=
  .respond (Arrival.seeking client).bytes (Arrival.seeking client).source
    (Arrival.seeking client).now

theorem HardwareAddress.ofAddress_inj {a b : Ipv4} (h : ofAddress a = ofAddress b) : a = b := by
  have hlist : a.octets.toList = b.octets.toList :=
    congrArg (fun client => client.octets.toList.drop 2) h
  rw [← Ipv4.ofOctets_octets a, Octets.ext hlist, Ipv4.ofOctets_octets]

theorem Arrival.eligible?_seeking (client : HardwareAddress) :
    (seeking client).eligible? = some (Packet.seeking client) :=
  eligible?_eq_some_iff.mpr ⟨rfl, Packet.parse_encode rfl, .inl rfl⟩

/-- A client without a lease is offered the least free address, and no other client is
concerned. -/
theorem Arrival.respond_of_free {arrival : Arrival} {packet : Packet} {pool : Pool} {a : Ipv4}
    {rest : List Ipv4} (h : arrival.eligible? = some packet)
    (hnone : pool.leaseOf packet.header.chaddr = none) (hfree : pool.free.toList = a :: rest) :
    let outcome := Server.respond pool arrival.bytes arrival.source arrival.now
    outcome.pool.free.toList = rest ∧
      (∀ other, other ≠ packet.header.chaddr → outcome.pool.leaseOf other = pool.leaseOf other) ∧
      outcome.reply = Reply.replyTo? pool.config packet .offer a := by
  rcases respond_newcomer h hnone with ⟨hfull, -⟩ | ⟨grant, hnext, hpool, hreply⟩
  · rw [Pool.freeCount, AddressSet.size, hfree] at hfull
    cases hfull
  · have hgranted := Pool.granted_of_nextLease hnext
    obtain ⟨htake, -⟩ := Pool.nextLease_newcomer hnone hnext
    have hlist := AddressSet.toList_of_takeLeast? htake
    rw [hfree] at hlist
    obtain ⟨haddress, hrest⟩ := List.cons.inj hlist
    rw [hgranted.config_eq, ← haddress] at hreply
    refine ⟨?_, ?_, hreply⟩
    · rw [hpool, hrest]
    · intro other hother
      rw [hpool, hgranted.leaseOf_other hother]

namespace Pool

open HardwareAddress

variable {pool : Pool} {before rest : List Ipv4}

theorem afterCall_seeking (pool : Pool) (client : HardwareAddress) :
    pool.afterCall (.seeking client) = (Server.respond pool (Arrival.seeking client).bytes
      (Arrival.seeking client).source (Arrival.seeking client).now).pool := by
  rw [Call.seeking, afterCall]

/-- As many newcomers as there are free addresses before the rest take these and leave it. -/
theorem free_afterCalls_seeking (hfree : pool.free.toList = before ++ rest)
    (hnone : ∀ a ∈ before ++ rest, pool.leaseOf (ofAddress a) = none) :
    let later := pool.afterCalls (before.map fun a => .seeking (ofAddress a))
    later.free.toList = rest ∧ ∀ a ∈ rest, later.leaseOf (ofAddress a) = none := by
  induction before generalizing pool with
  | nil => exact ⟨hfree, hnone⟩
  | cons b more ih =>
    obtain ⟨hfirst, hothers⟩ := List.forall_mem_cons.mp hnone
    obtain ⟨hafter, hkept, -⟩ :=
      Arrival.respond_of_free (Arrival.eligible?_seeking (ofAddress b)) hfirst hfree
    rw [← afterCall_seeking] at hafter hkept
    have hascending := pool.free.ascending
    rw [hfree, List.cons_append, List.pairwise_cons] at hascending
    rw [List.map_cons, afterCalls, List.foldl_cons]
    refine ih hafter ?_
    intro a ha
    -- Each address stands once, so the client that asks later is another one.
    have hne : b ≠ a := Ipv4.ne_of_lt (hascending.1 a ha)
    have hother : ofAddress a ≠ ofAddress b := fun heq => hne (ofAddress_inj heq).symm
    exact (hkept _ hother).trans (hothers a ha)

end Pool

namespace Server

variable {config : Config} {a : Ipv4}

theorem leasable_of_assigns (h : Assigns config a) : config.Leasable a := by
  obtain ⟨calls, arrival, reply, hreply, rfl⟩ := h
  have hp := Pool.consistent_afterCalls (Pool.consistent_create config) calls
  obtain ⟨-, lease, -, haddress, -, hlease⟩ := Arrival.lease_of_reply hp hreply
  let last : Call := .respond arrival.bytes arrival.source arrival.now
  have hafter := Pool.consistent_afterCalls hp [last]
  have hheld := (hafter.leasable_iff reply.header.yiaddr).mp
    (.inr ⟨reply.header.chaddr, haddress ▸ Pool.addressOf_of_leaseOf hlease⟩)
  rw [Pool.config_afterCalls, Pool.config_afterCalls] at hheld
  exact hheld

/-- One client for each lesser address, and the next one is offered this address. -/
theorem assigns_of_leasable (fit : config.ListsFit) (h : config.Leasable a) :
    Assigns config a := by
  obtain ⟨before, rest, hfree⟩ := List.append_of_mem (Pool.mem_free_create.mpr h)
  obtain ⟨hleast, hnone⟩ := Pool.free_afterCalls_seeking hfree
    fun _ _ => Pool.leaseOf_create config _
  obtain ⟨-, -, hreply⟩ := Arrival.respond_of_free
    (Arrival.eligible?_seeking (.ofAddress a)) (hnone a List.mem_cons_self) hleast
  rw [Pool.config_afterCalls] at hreply
  exact ⟨_, _, _, hreply.trans (Reply.replyTo?_eq_some_iff.mpr ⟨fit, rfl⟩), rfl⟩

/-- Under rules that are met the addresses assigned are those of the range. -/
theorem assigns_iff_inPool (h : config.validate = .ok config) :
    Assigns config a ↔ config.InPool a := by
  obtain ⟨-, hserver, -⟩ := Config.fault?_eq_none_iff.mp (Config.validate_eq_ok_iff.mp h).1
  constructor
  · intro hassigns
    exact (leasable_of_assigns hassigns).1
  · intro hin
    refine assigns_of_leasable (Config.listsFit_of_validate h) ⟨hin, ?_⟩
    rintro rfl
    exact hserver hin

/-- Under rules that are met no reply assigns the address of the server or of a router. The
address to which replies are sent is never assigned either if it lies outside of the range;
within the range it is free to be leased, and some reply assigns it. -/
theorem broadcast_assigned_iff_in_range (config : Config) (h : config.validate = .ok config) :
    ¬ Assigns config config.serverAddress ∧
    (∀ router ∈ config.routers, ¬ Assigns config router) ∧
    (Assigns config (destination config).address ↔
      config.poolStart ≤ config.broadcast ∧ config.broadcast ≤ config.poolEnd) := by
  obtain ⟨-, hserver, hrouters, -⟩ :=
    Config.fault?_eq_none_iff.mp (Config.validate_eq_ok_iff.mp h).1
  refine ⟨?_, ?_, assigns_iff_inPool h⟩
  · rw [assigns_iff_inPool h]
    exact hserver
  · intro router hrouter
    rw [assigns_iff_inPool h]
    exact hrouters router hrouter

/-- A configuration whose range goes up to the top of its subnet. -/
def reachingTop : Config :=
  { Config.standard with
    poolStart := .ofParts 192 168 1 254
    poolEnd := .ofParts 192 168 1 255 }

theorem broadcast_assigned_at_top_not_below :
    Assigns reachingTop (destination reachingTop).address ∧
      ¬ Assigns .standard (destination .standard).address := by
  obtain ⟨-, -, htop⟩ := broadcast_assigned_iff_in_range reachingTop rfl
  obtain ⟨-, -, hbelow⟩ := broadcast_assigned_iff_in_range .standard rfl
  exact ⟨htop.mpr (by decide), mt hbelow.mp (by decide)⟩

/-- The second client of this range is offered the address to which the offer is sent. -/
theorem broadcast_offered_to_second_client :
    reachingTop.validate = .ok reachingTop ∧
    ∃ offer,
      (respond ((Pool.create reachingTop).afterCalls [.seeking (.ofAddress (.ofParts 10 0 0 1))])
        (Arrival.seeking (.ofAddress (.ofParts 10 0 0 2))).bytes ⟨.unspecified, 68⟩
        ⟨0⟩).reply = some offer ∧
      offer.header.op = MessageType.offer.toUInt8 ∧
      offer.header.yiaddr = (destination reachingTop).address := by
  have hsecond : ((respond
      ((Pool.create reachingTop).afterCalls [.seeking (.ofAddress (.ofParts 10 0 0 1))])
      (Arrival.seeking (.ofAddress (.ofParts 10 0 0 2))).bytes ⟨.unspecified, 68⟩
      ⟨0⟩).reply.map fun offer => (offer.header.op, offer.header.yiaddr)) =
        some (MessageType.offer.toUInt8, (destination reachingTop).address) := by
    decide +kernel
  obtain ⟨offer, hoffer, hfields⟩ := Option.map_eq_some_iff.mp hsecond
  obtain ⟨hop, haddress⟩ := Prod.mk.inj hfields
  exact ⟨rfl, offer, hoffer, hop, haddress⟩

end Server

end Dhcp
