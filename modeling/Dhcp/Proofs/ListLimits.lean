import Dhcp.Proofs.Dropped

/-!
How long the address lists of a configuration may be. Its rules allow 63 addresses in each,
and an option measures its payload by one octet; the two limits are the same. A client that
the pool serves is answered exactly when both lists keep to them, and otherwise the log has
one error, about the list that is too long.
-/
namespace Dhcp

/-- The pool has a lease for the sender of a datagram, and the reply about it is of a type. -/
inductive Pool.Serves (pool : Pool) (packet : Packet) : MessageType → Prop
  | held {lease : Lease} (type_eq : packet.effectiveType = 1)
      (leaseOf_eq : pool.leaseOf packet.header.chaddr = some lease) : Serves pool packet .offer
  /-- A lease can be made, whether the client looks for an address or asks for one. -/
  | made (type_eq : packet.effectiveType = 1 ∨ packet.effectiveType = 3)
      (leaseOf_eq : pool.leaseOf packet.header.chaddr = none)
      (freeCount_ne : pool.freeCount ≠ 0) : Serves pool packet .offer
  | asked {lease : Lease} (type_eq : packet.effectiveType = 3)
      (leaseOf_eq : pool.leaseOf packet.header.chaddr = some lease)
      (address_eq : packet.effectiveAddress = lease.address) : Serves pool packet .ack

theorem Pool.Serves.effectiveType_eq {pool : Pool} {packet : Packet} {type : MessageType}
    (h : pool.Serves packet type) : packet.effectiveType = 1 ∨ packet.effectiveType = 3 := by
  cases h with
  | held type_eq _ => exact .inl type_eq
  | made type_eq _ _ => exact type_eq
  | asked type_eq _ _ => exact .inr type_eq

namespace Server

/-- The events of the level error. -/
def errors (events : List Event) : List Event := events.filter fun event => event.level = .error

variable {pool : Pool} {arrival : Arrival} {packet : Packet} {type : MessageType}
  {events : List Event}

theorem errors_append (events others : List Event) :
    errors (events ++ others) = errors events ++ errors others :=
  List.filter_append ..

/-- An answer adds an error of its own exactly when a list does not fit. -/
theorem errors_answered (hquiet : errors events = []) (pool : Pool) (request : Request)
    (lease : Lease) (type : MessageType) :
    errors (answered pool request lease type events).events =
      if pool.config.ListsFit then []
      else [.buildFailed type request.client pool.config.overlong] := by
  unfold answered
  by_cases fit : pool.config.ListsFit
  · rw [Reply.build_eq_ok _ _ _ _ fit, if_pos fit]
    simp only [errors_append, hquiet]
    rfl
  · rw [Reply.build_eq_error _ _ _ _ fit, if_neg fit]
    simp only [errors_append, hquiet]
    rfl

/-- A client without a lease is offered one before anything has gone wrong. -/
theorem respond_unleased_quiet (heligible : arrival.eligible? = some packet)
    (hnone : pool.leaseOf packet.header.chaddr = none) :
    ∃ events, errors events = [] ∧ respond pool arrival.bytes arrival.source arrival.now =
      offered pool (Request.ofPacket packet arrival.source) arrival.now events := by
  refine ⟨_, ?_, Arrival.respond_unleased heligible hnone⟩
  split
  · rfl
  · rfl

/-- The answer to a client that the pool serves comes down to building one reply under the
configuration of the pool. -/
theorem respond_eq_answered (heligible : arrival.eligible? = some packet)
    (hserves : pool.Serves packet type) :
    ∃ later lease events, later.config = pool.config ∧ errors events = [] ∧
      respond pool arrival.bytes arrival.source arrival.now =
        answered later (Request.ofPacket packet arrival.source) lease type events := by
  cases hserves with
  | @held lease htype hlease =>
    have hclient : pool.leaseOf (Request.ofPacket packet arrival.source).client = some lease :=
      hlease
    rw [Arrival.respond_discover heligible htype, offered_of_leaseOf hclient]
    exact ⟨pool, lease, _, rfl, rfl, rfl⟩
  | made htype hnone hfree =>
    have hclient : pool.leaseOf (Request.ofPacket packet arrival.source).client = none := hnone
    obtain ⟨events, hquiet, hrespond⟩ := respond_unleased_quiet heligible hnone
    rw [hrespond]
    rcases offered_of_none hclient with ⟨grant, hnext, hoffered⟩ | ⟨hfull, -⟩
    · rw [hoffered]
      refine ⟨grant.pool, grant.lease, _, (Pool.granted_of_nextLease hnext).config_eq, ?_, rfl⟩
      rw [errors_append, hquiet]
      rfl
    · exact absurd hfull hfree
  | @asked lease htype hlease haddress =>
    have hclient : pool.leaseOf (Request.ofPacket packet arrival.source).client = some lease :=
      hlease
    have hother : packet.effectiveType ≠ 1 := by
      rw [htype]
      decide
    rw [Arrival.respond_request heligible hother, acknowledged, hclient]
    simp only [Arrival.clientAddress_ofPacket, if_pos haddress]
    exact ⟨pool, lease, _, rfl, rfl, rfl⟩

/-- A client that the pool serves is answered exactly when both lists fit, and the only error
is that one does not. -/
theorem respond_served (heligible : arrival.eligible? = some packet)
    (hserves : pool.Serves packet type) :
    ((∃ reply, (respond pool arrival.bytes arrival.source arrival.now).reply = some reply) ↔
      pool.config.ListsFit) ∧
    errors (respond pool arrival.bytes arrival.source arrival.now).events =
      if pool.config.ListsFit then []
      else [.buildFailed type packet.header.chaddr pool.config.overlong] := by
  obtain ⟨later, lease, events, hconfig, hquiet, hrespond⟩ := respond_eq_answered heligible hserves
  rw [hrespond, errors_answered hquiet, Arrival.reply_answered, hconfig]
  refine ⟨?_, rfl⟩
  simp only [Reply.replyTo?_eq_some_iff]
  constructor
  · rintro ⟨-, fit, -⟩
    exact fit
  · intro fit
    exact ⟨_, fit, rfl⟩

/-- Where the pool does not serve the client there is nothing to build, and no error. -/
theorem respond_of_not_serves
    (h : ∀ packet type, arrival.eligible? = some packet → ¬ pool.Serves packet type) :
    (respond pool arrival.bytes arrival.source arrival.now).reply = none ∧
      errors (respond pool arrival.bytes arrival.source arrival.now).events = [] := by
  cases heligible : arrival.eligible? with
  | none =>
    obtain ⟨event, hlevel, hrespond⟩ := Arrival.respond_ineligible heligible pool
    rw [hrespond]
    refine ⟨rfl, ?_⟩
    simp [errors, hlevel]
  | some packet =>
    have htypes := (Arrival.parse_of_eligible? heligible).2
    cases hlease : pool.leaseOf packet.header.chaddr with
    | none =>
      have hclient : pool.leaseOf (Request.ofPacket packet arrival.source).client = none := hlease
      obtain ⟨events, hquiet, hrespond⟩ := respond_unleased_quiet heligible hlease
      rw [hrespond]
      rcases offered_of_none hclient with ⟨grant, hnext, -⟩ | ⟨-, hoffered⟩
      · have hfree := Pool.freeCount_ne_zero_of_nextLease hnext
        exact absurd (.made htypes hlease hfree) (h packet .offer heligible)
      · rw [hoffered]
        refine ⟨rfl, ?_⟩
        rw [errors_append, hquiet]
        rfl
    | some lease =>
      have hclient : pool.leaseOf (Request.ofPacket packet arrival.source).client = some lease :=
        hlease
      have htype : packet.effectiveType ≠ 1 := by
        intro htype
        exact h packet .offer heligible (.held htype hlease)
      have haddress : packet.effectiveAddress ≠ lease.address := by
        intro haddress
        exact h packet .ack heligible (.asked (htypes.resolve_left htype) hlease haddress)
      rw [Arrival.respond_request heligible htype, acknowledged, hclient]
      simp only [Arrival.clientAddress_ofPacket, if_neg haddress, true_and]
      rfl

theorem handle_of_no_reply (deliver : Delivery)
    (h : (respond pool arrival.bytes arrival.source arrival.now).reply = none) :
    handle deliver pool arrival.bytes arrival.source arrival.now =
      respond pool arrival.bytes arrival.source arrival.now := by
  unfold handle
  simp only [h]

/-- The limits that the rules set for the lists of a configuration are the ones that building
a reply has. Whatever the configuration, a datagram that comes from the port of clients and
whose sender the pool serves is answered exactly when neither list has more than 63
addresses. Otherwise its one error says that the option of the routers is too long, or that
of the name servers where the routers fit, and nothing is sent; all other datagrams are
dropped without an error. Under a configuration that meets the rules every reply can be
built, and no datagram leads to an error before a reply is sent. -/
theorem list_limits_decide_replies (config : Config) (calls : List Call) (arrival : Arrival) :
    let pool := (Pool.create config).afterCalls calls
    let outcome := respond pool arrival.bytes arrival.source arrival.now
    (∀ packet type, arrival.source.port = 68 → Packet.parse arrival.bytes = .ok packet →
      pool.Serves packet type →
      ((∃ reply, outcome.reply = some reply) ↔
        config.routers.length ≤ 63 ∧ config.dnsServers.length ≤ 63) ∧
      (outcome.reply = none → errors outcome.events = [.buildFailed type packet.header.chaddr
        (if 63 < config.routers.length then .tooLong 3 (4 * config.routers.length)
        else .tooLong 6 (4 * config.dnsServers.length))])) ∧
    (∀ deliver, outcome.reply = none →
      handle deliver pool arrival.bytes arrival.source arrival.now = outcome) ∧
    ((∀ packet type, arrival.source.port = 68 → Packet.parse arrival.bytes = .ok packet →
        ¬ pool.Serves packet type) →
      outcome.reply = none ∧ errors outcome.events = []) ∧
    (config.validate = .ok config →
      (∀ request lease type, ∃ reply, Reply.build config request lease type = .ok reply) ∧
      errors outcome.events = []) := by
  intro pool outcome
  have hconfig : pool.config = config := Pool.config_afterCalls (Pool.create config) calls
  refine ⟨?_, fun deliver => handle_of_no_reply deliver, ?_, ?_⟩
  · intro packet type hport hparse hserves
    have heligible :=
      Arrival.eligible?_eq_some_iff.mpr ⟨hport, hparse, hserves.effectiveType_eq⟩
    obtain ⟨hreply, herrors⟩ := respond_served heligible hserves
    rw [hconfig] at hreply herrors
    refine ⟨hreply, ?_⟩
    intro hnone
    have hfit : ¬ config.ListsFit := by
      intro fit
      obtain ⟨reply, hsome⟩ := hreply.mpr fit
      cases hnone.symm.trans hsome
    rw [if_neg hfit] at herrors
    exact herrors
  · intro hnone
    apply respond_of_not_serves
    intro packet type heligible
    obtain ⟨hport, hparse, -⟩ := Arrival.eligible?_eq_some_iff.mp heligible
    exact hnone packet type hport hparse
  · intro hvalid
    have fit := Config.listsFit_of_validate hvalid
    refine ⟨fun request lease type => ⟨_, Reply.build_eq_ok config request lease type fit⟩, ?_⟩
    by_cases hserves : ∃ packet type, arrival.eligible? = some packet ∧ pool.Serves packet type
    · obtain ⟨packet, type, heligible, hserves⟩ := hserves
      have herrors := (respond_served heligible hserves).2
      rw [hconfig, if_pos fit] at herrors
      exact herrors
    · refine (respond_of_not_serves ?_).2
      intro packet type heligible hserved
      exact hserves ⟨packet, type, heligible, hserved⟩

/-- A discovery is answered under a configuration that meets the rules. Under one with a name
server too many, the one error tells the code and the length of that list. -/
theorem discovery_answered_or_blamed_on_name_servers :
    let outcome (config : Config) :=
      respond (Pool.create config) (discoveryFrom 68).bytes (discoveryFrom 68).source
        (discoveryFrom 68).now
    (∃ reply, (outcome .standard).reply = some reply) ∧ errors (outcome .standard).events = [] ∧
    (outcome crowded).reply = none ∧
    (errors (outcome crowded).events).map Event.line =
      ["ERROR Failed building DHCPOFFER for 00:00:00:00:00:00: " ++
        "Option 6 payload of 256 bytes exceeds 255"] := by
  intro outcome
  have hparse : Packet.parse (discoveryFrom 68).bytes = .ok (Packet.discovery 1) :=
    Packet.parse_encode (by decide)
  obtain ⟨hstandard, -, -, hvalid⟩ := list_limits_decide_replies .standard [] (discoveryFrom 68)
  obtain ⟨hcrowded, -⟩ := list_limits_decide_replies crowded [] (discoveryFrom 68)
  have hreply : (outcome crowded).reply = none := by decide +kernel
  obtain ⟨-, herrors⟩ := hcrowded (Packet.discovery 1) .offer rfl hparse
    (.made (.inl rfl) rfl (by decide +kernel))
  refine ⟨?_, (hvalid rfl).2, hreply, ?_⟩
  · obtain ⟨hiff, -⟩ := hstandard (Packet.discovery 1) .offer rfl hparse
      (.made (.inl rfl) rfl (by decide +kernel))
    exact hiff.mpr (by decide)
  · refine (congrArg (List.map Event.line) (herrors hreply)).trans ?_
    decide +kernel

end Server

end Dhcp
