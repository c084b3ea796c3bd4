import Dhcp.Proofs.Calls
import Dhcp.Proofs.Codec
import Dhcp.Proofs.Eligible

/-!
What becomes of an offer. The lease behind a reply stays with its client as it was
made, through all calls but the one that replaces a client's own lease. So the server
keeps to the address it has named, whatever the client and the others do meanwhile.
-/
namespace Dhcp

/-- The call does not replace the lease of a client. -/
def Call.Spares (client : HardwareAddress) : Call → Prop
  | .nextLease other _ _ => other ≠ client
  | _ => True

namespace Pool

variable {pool : Pool} {client : HardwareAddress} {lease : Lease}

theorem leaseOf_afterCall (hlease : pool.leaseOf client = some lease) {call : Call}
    (hspares : call.Spares client) : (pool.afterCall call).leaseOf client = some lease := by
  rcases pool.afterCall_cases call with hsame | ⟨other, hostname, now, grant, hnext, hpool, hcall⟩
  · rw [hsame, hlease]
  · have hne : client ≠ other := by
      rintro rfl
      rcases hcall with hnone | rfl
      · rw [hlease] at hnone
        cases hnone
      · exact hspares rfl
    rw [hpool, (granted_of_nextLease hnext).leaseOf_other hne, hlease]

theorem leaseOf_afterCalls (hlease : pool.leaseOf client = some lease) {calls : List Call}
    (hspares : ∀ call ∈ calls, call.Spares client) :
    (pool.afterCalls calls).leaseOf client = some lease := by
  induction calls generalizing pool with
  | nil => exact hlease
  | cons call rest ih =>
    obtain ⟨hcall, hrest⟩ := List.forall_mem_cons.mp hspares
    exact ih (leaseOf_afterCall hlease hcall) hrest

end Pool

/-- A reply of a type names an address to a client; its message type option agrees with
its operation. -/
structure Packet.Names (reply : Packet) (type : MessageType) (client : HardwareAddress)
    (a : Ipv4) : Prop where
  op_eq : reply.header.op = type.toUInt8
  messageType_eq : reply.options.messageType = some type.toUInt8
  client_eq : reply.header.chaddr = client
  address_eq : reply.header.yiaddr = a

theorem Reply.names_of_replyTo? {config : Config} (fit : config.ListsFit) (packet : Packet)
    (type : MessageType) (a : Ipv4) :
    ∃ reply, replyTo? config packet type a = some reply ∧
      reply.Names type packet.header.chaddr a :=
  ⟨_, replyTo?_eq_some_iff.mpr ⟨fit, rfl⟩, rfl, rfl, rfl, rfl⟩

namespace Server

/-- A client that holds a lease is answered about its address and about no other. -/
theorem respond_to_holder {pool : Pool} {lease : Lease} {arrival : Arrival} {packet : Packet}
    (hlease : pool.leaseOf packet.header.chaddr = some lease) (fit : pool.config.ListsFit)
    (hport : arrival.source.port = 68) (hparse : Packet.parse arrival.bytes = .ok packet) :
    let outcome := respond pool arrival.bytes arrival.source arrival.now
    (packet.effectiveType = 3 → packet.effectiveAddress = lease.address → outcome.pool = pool ∧
      ∃ ack, outcome.reply = some ack ∧ ack.Names .ack packet.header.chaddr lease.address) ∧
    (packet.effectiveType = 3 → packet.effectiveAddress ≠ lease.address →
      outcome.pool = pool ∧ outcome.reply = none) ∧
    (packet.effectiveType = 1 → outcome.pool = pool ∧
      ∃ offer, outcome.reply = some offer ∧
        offer.Names .offer packet.header.chaddr lease.address) := by
  intro outcome
  have heligible : packet.effectiveType = 1 ∨ packet.effectiveType = 3 →
      arrival.eligible? = some packet := by
    intro htype
    exact Arrival.eligible?_eq_some_iff.mpr ⟨hport, hparse, htype⟩
  refine ⟨?_, ?_, ?_⟩
  · intro htype haddress
    obtain ⟨hpool, hreply⟩ := Arrival.respond_holder (heligible (.inr htype)) hlease
    rw [if_neg (by rw [htype]; decide), if_pos haddress] at hreply
    obtain ⟨ack, hack, hnames⟩ := Reply.names_of_replyTo? fit packet .ack lease.address
    exact ⟨hpool, ack, hreply.trans hack, hnames⟩
  · intro htype haddress
    obtain ⟨hpool, hreply⟩ := Arrival.respond_holder (heligible (.inr htype)) hlease
    rw [if_neg (by rw [htype]; decide), if_neg haddress] at hreply
    exact ⟨hpool, hreply⟩
  · intro htype
    obtain ⟨hpool, hreply⟩ := Arrival.respond_holder (heligible (.inl htype)) hlease
    rw [if_pos htype] at hreply
    obtain ⟨offer, hoffer, hnames⟩ := Reply.names_of_replyTo? fit packet .offer lease.address
    exact ⟨hpool, offer, hreply.trans hoffer, hnames⟩

/-- Once the server has named an address to a client, by an offer or otherwise, it keeps to
it through all later calls that do not replace the client's own lease: asked for that
address it acknowledges it, asked for another it is silent, and a client that looks for an
address is offered the same one again. The lease is at all times the one that was there or
was made when the address was named, and none of these answers changes the pool. -/
theorem offers_are_honoured (config : Config) (earlier : List Call) (arrival : Arrival)
    (offer : Packet)
    (hoffer : (respond ((Pool.create config).afterCalls earlier) arrival.bytes arrival.source
      arrival.now).reply = some offer) :
    let pool := (Pool.create config).afterCalls earlier
    let client := offer.header.chaddr
    let a := offer.header.yiaddr
    ∃ lease, lease.client = client ∧ lease.address = a ∧
      (pool.leaseOf client = some lease ∨
        pool.leaseOf client = none ∧ ∃ packet, Packet.parse arrival.bytes = .ok packet ∧
          lease = Lease.create a client packet.options.hostname config.leaseSeconds arrival.now) ∧
      ∀ later : List Call, (∀ call ∈ later, call.Spares client) →
        let after := (respond pool arrival.bytes arrival.source arrival.now).pool.afterCalls later
        after.leaseOf client = some lease ∧
        ∀ (next : Arrival) (packet : Packet), next.source.port = 68 →
          Packet.parse next.bytes = .ok packet → packet.header.chaddr = client →
          let outcome := respond after next.bytes next.source next.now
          (packet.effectiveType = 3 → packet.effectiveAddress = a → outcome.pool = after ∧
            ∃ ack, outcome.reply = some ack ∧ ack.Names .ack client a) ∧
          (packet.effectiveType = 3 → packet.effectiveAddress ≠ a →
            outcome.pool = after ∧ outcome.reply = none) ∧
          (packet.effectiveType = 1 → outcome.pool = after ∧
            ∃ again, outcome.reply = some again ∧ again.Names .offer client a) := by
  intro pool client a
  have hconfig : pool.config = config := Pool.config_afterCalls (Pool.create config) earlier
  have hp : pool.Consistent := Pool.consistent_afterCalls (Pool.consistent_create config) earlier
  obtain ⟨fit, lease, hclient, haddress, horigin, hheld⟩ := Arrival.lease_of_reply hp hoffer
  refine ⟨lease, hclient, haddress, hconfig ▸ horigin, ?_⟩
  intro later hspares after
  have hkept : after.leaseOf client = some lease := Pool.leaseOf_afterCalls hheld hspares
  refine ⟨hkept, ?_⟩
  intro next packet hport hparse hsame
  have hafter : after.config = pool.config := Pool.config_afterCalls pool
    (.respond arrival.bytes arrival.source arrival.now :: later)
  have hanswer := respond_to_holder (hsame ▸ hkept) (hafter ▸ fit) hport hparse
  rw [hsame, haddress] at hanswer
  exact hanswer

/-- A datagram of a client that asks for an address. -/
def requestFor (a : Ipv4) : Packet := ⟨{ op := 3, ciaddr := a }, .empty⟩

/-- Another client is given an address twice, and the first one is looked up under a
host name that it did not give before. -/
def interlude : List Call :=
  [.nextLease ⟨⟨[2, 0, 0, 0, 0, 1], rfl⟩⟩ none ⟨5⟩, .nextLease ⟨⟨[2, 0, 0, 0, 0, 1], rfl⟩⟩ none ⟨6⟩,
    .leaseFor .zero (some "late") ⟨7⟩]

theorem interlude_spares_first : ∀ call ∈ interlude, call.Spares .zero := by
  simp only [interlude, List.forall_mem_cons, Call.Spares]
  exact ⟨by decide, by decide, trivial, List.forall_mem_nil _⟩

theorem offer_honoured_after_interlude :
    ∃ offer, (respond (Pool.create .standard) (Packet.discovery 1).encode ⟨.unspecified, 68⟩
        ⟨0⟩).reply = some offer ∧
      let after := (respond (Pool.create .standard) (Packet.discovery 1).encode
        ⟨.unspecified, 68⟩ ⟨0⟩).pool.afterCalls interlude
      ∃ ack, (respond after (requestFor (.ofParts 192 168 1 100)).encode ⟨.unspecified, 68⟩
        ⟨9⟩).reply = some ack ∧ ack.Names .ack .zero (.ofParts 192 168 1 100) := by
  have hfirst : ((respond (Pool.create .standard) (Packet.discovery 1).encode
      ⟨.unspecified, 68⟩ ⟨0⟩).reply.map fun offer => (offer.header.chaddr, offer.header.yiaddr)) =
        some (.zero, .ofParts 192 168 1 100) := by
    decide +kernel
  obtain ⟨offer, hoffer, hnamed⟩ := Option.map_eq_some_iff.mp hfirst
  obtain ⟨hclient, haddress⟩ := Prod.mk.inj hnamed
  obtain ⟨lease, -, -, -, hkept⟩ := offers_are_honoured .standard []
    ⟨(Packet.discovery 1).encode, ⟨.unspecified, 68⟩, ⟨0⟩⟩ offer hoffer
  rw [hclient, haddress] at hkept
  have hread : Packet.parse (requestFor (.ofParts 192 168 1 100)).encode =
      .ok (requestFor (.ofParts 192 168 1 100)) := Packet.parse_encode rfl
  have hanswers := (hkept interlude interlude_spares_first).2
    ⟨(requestFor (.ofParts 192 168 1 100)).encode, ⟨.unspecified, 68⟩, ⟨9⟩⟩ _ rfl hread rfl
  exact ⟨offer, hoffer, (hanswers.1 rfl rfl).2⟩

end Server

end Dhcp
