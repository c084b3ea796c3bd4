import Dhcp.Proofs.Dispatch

/-!
The datagrams on which the server acts, read from what they hold. All others are
dropped without a trace. A client with a lease is offered it again, or has it
acknowledged if it asks for that very address; a client without one is offered
the least free address whatever it asks for.
-/
namespace Dhcp

/-- A datagram that comes in: its octets, where it comes from, and when. -/
structure Arrival where
  bytes : List UInt8
  source : Endpoint
  now : Instant

def Packet.payload? (packet : Packet) (code : UInt8) : Option (List UInt8) :=
  (packet.options.fields.find? fun field => field.code == code).map OptionField.data

/-- The first option 53, if it has one octet, or else the operation. -/
def Packet.effectiveType (packet : Packet) : UInt8 :=
  match packet.payload? 53 with
  | some [type] => type
  | _ => packet.header.op

/-- The first option 50, if it has four octets, or else the client address. -/
def Packet.effectiveAddress (packet : Packet) : Ipv4 :=
  match packet.payload? 50 with
  | some [a, b, c, d] => .ofParts a b c d
  | _ => packet.header.ciaddr

/-- The datagram of an arrival, when it comes from port 68, can be read, and is of
type 1 or 3. -/
def Arrival.eligible? (arrival : Arrival) : Option Packet :=
  if arrival.source.port = 68 then
    match Packet.parse arrival.bytes with
    | .ok packet => if packet.effectiveType = 1 ∨ packet.effectiveType = 3 then some packet else none
    | .error _ => none
  else none

/-- The reply of a type that names an address to the sender of a datagram; there is
none if the address lists of the configuration do not fit. -/
def Reply.replyTo? (config : Config) (packet : Packet) (type : MessageType) (a : Ipv4) :
    Option Packet :=
  if fit : config.ListsFit then
    some (Reply.packet config type packet.header.xid a packet.header.chaddr fit)
  else none

theorem Reply.replyTo?_eq_some_iff {config : Config} {packet reply : Packet} {type : MessageType}
    {a : Ipv4} :
    replyTo? config packet type a = some reply ↔ ∃ fit : config.ListsFit,
      reply = Reply.packet config type packet.header.xid a packet.header.chaddr fit := by
  unfold replyTo?
  by_cases fit : config.ListsFit
  · simp [fit, eq_comm]
  · simp [fit]

theorem Reply.replyTo?_eq_none_iff {config : Config} {packet : Packet} {type : MessageType}
    {a : Ipv4} : replyTo? config packet type a = none ↔ ¬ config.ListsFit := by
  unfold replyTo?
  by_cases fit : config.ListsFit
  · simp [fit]
  · simp [fit]

namespace Arrival

theorem type_ofPacket (packet : Packet) (source : Endpoint) :
    (Request.ofPacket packet source).type = packet.effectiveType := by
  simp only [Request.ofPacket, OptionArea.messageType, OptionArea.get?, OptionCode.toUInt8,
    Packet.effectiveType, Packet.payload?]
  generalize (packet.options.fields.find? fun field => field.code == 53).map OptionField.data =
    payload
  rcases payload with _ | ⟨_ | ⟨type, _ | ⟨_, _⟩⟩⟩
  · rfl
  · rfl
  · rfl
  · rfl

theorem clientAddress_ofPacket (packet : Packet) (source : Endpoint) :
    (Request.ofPacket packet source).clientAddress = packet.effectiveAddress := by
  simp only [Request.ofPacket, OptionArea.requestedAddress, OptionArea.get?, OptionCode.toUInt8,
    Packet.effectiveAddress, Packet.payload?]
  cases packet.options.fields.find? fun field => field.code == 50 with
  | none => rfl
  | some field =>
    simp only [Option.bind_some, Option.map_some, OptionField.address?]
    rcases field.data with _ | ⟨a, _ | ⟨b, _ | ⟨c, _ | ⟨d, _ | ⟨_, _⟩⟩⟩⟩⟩
    · rfl
    · rfl
    · rfl
    · rfl
    · rfl
    · simp [Octets.ofList?]

theorem kind?_ofPacket {packet : Packet} {source : Endpoint} {type : MessageType} :
    (Request.ofPacket packet source).kind? = some type ↔ packet.effectiveType = type.toUInt8 := by
  rw [Request.kind?, type_ofPacket, MessageType.ofUInt8?_eq_some_iff]

theorem parse_of_eligible? {arrival : Arrival} {packet : Packet}
    (h : arrival.eligible? = some packet) :
    Request.parse arrival.bytes arrival.source =
        .ok (Request.ofPacket packet arrival.source) ∧
      (packet.effectiveType = 1 ∨ packet.effectiveType = 3) := by
  unfold eligible? at h
  split at h
  · next hport =>
    cases hparse : Packet.parse arrival.bytes with
    | error fault => simp [hparse] at h
    | ok other =>
      simp only [hparse, Option.ite_none_right_eq_some, Option.some.injEq] at h
      obtain ⟨htype, rfl⟩ := h
      exact ⟨Request.parse_eq_ok_iff.mpr ⟨hport, other, hparse, rfl⟩, htype⟩
  · cases h

theorem eligible?_eq_some_iff {arrival : Arrival} {packet : Packet} :
    arrival.eligible? = some packet ↔ arrival.source.port = 68 ∧
      Packet.parse arrival.bytes = .ok packet ∧
      (packet.effectiveType = 1 ∨ packet.effectiveType = 3) := by
  constructor
  · intro h
    obtain ⟨hparse, htype⟩ := parse_of_eligible? h
    obtain ⟨hport, other, hother, heq⟩ := Request.parse_eq_ok_iff.mp hparse
    have hpacket : packet = other := congrArg Request.packet heq
    exact ⟨hport, hpacket ▸ hother, htype⟩
  · rintro ⟨hport, hparse, htype⟩
    simp only [eligible?, if_pos hport, hparse, if_pos htype]

/-- A datagram on which the server does not act is dropped with one warning. -/
theorem respond_ineligible {arrival : Arrival} (h : arrival.eligible? = none) (pool : Pool) :
    ∃ event : Event, event.level = .warn ∧
      Server.respond pool arrival.bytes arrival.source arrival.now = ⟨none, [event], pool⟩ := by
  rw [Server.respond_eq]
  cases hrequest : Request.parse arrival.bytes arrival.source with
  | error fault => exact ⟨_, rfl, rfl⟩
  | ok request =>
    obtain ⟨hport, packet, hparse, rfl⟩ := Request.parse_eq_ok_iff.mp hrequest
    have hother : ¬ (packet.effectiveType = 1 ∨ packet.effectiveType = 3) := by
      intro htype
      have hport' : arrival.source.port = 68 := hport
      simp [eligible?, hport', hparse, htype] at h
    simp only
    split
    · next hkind => exact absurd (.inl (kind?_ofPacket.mp hkind)) hother
    · next hkind => exact absurd (.inr (kind?_ofPacket.mp hkind)) hother
    · exact ⟨_, rfl, rfl⟩
    · exact ⟨_, rfl, rfl⟩

theorem respond_discover {arrival : Arrival} {packet : Packet}
    (h : arrival.eligible? = some packet) (htype : packet.effectiveType = 1) (pool : Pool) :
    Server.respond pool arrival.bytes arrival.source arrival.now =
      Server.offered pool (Request.ofPacket packet arrival.source) arrival.now
        [.discover packet.header.chaddr] := by
  have hkind : (Request.ofPacket packet arrival.source).kind? = some .discover :=
    kind?_ofPacket.mpr htype
  simp only [Server.respond_eq, (parse_of_eligible? h).1, hkind]
  rfl

theorem respond_request {arrival : Arrival} {packet : Packet}
    (h : arrival.eligible? = some packet) (htype : packet.effectiveType ≠ 1) (pool : Pool) :
    Server.respond pool arrival.bytes arrival.source arrival.now =
      Server.acknowledged pool (Request.ofPacket packet arrival.source) arrival.now
        [.request packet.header.chaddr] := by
  obtain ⟨hparse, htypes⟩ := parse_of_eligible? h
  have hkind : (Request.ofPacket packet arrival.source).kind? = some .request :=
    kind?_ofPacket.mpr (htypes.resolve_left htype)
  simp only [Server.respond_eq, hparse, hkind]
  rfl

theorem reply_answered (pool : Pool) (packet : Packet) (source : Endpoint) (lease : Lease)
    (type : MessageType) (events : List Event) :
    (Server.answered pool (Request.ofPacket packet source) lease type events).reply =
      Reply.replyTo? pool.config packet type lease.address := by
  unfold Server.answered Reply.replyTo?
  by_cases fit : pool.config.ListsFit
  · rw [Reply.build_eq_ok _ _ _ _ fit, dif_pos fit]
    rfl
  · rw [Reply.build_eq_error _ _ _ _ fit, dif_neg fit]

/-- The answer to a client that holds a lease: the pool stays as it is. -/
theorem respond_holder {arrival : Arrival} {packet : Packet} {pool : Pool} {lease : Lease}
    (h : arrival.eligible? = some packet)
    (hlease : pool.leaseOf packet.header.chaddr = some lease) :
    (Server.respond pool arrival.bytes arrival.source arrival.now).pool = pool ∧
      (Server.respond pool arrival.bytes arrival.source arrival.now).reply =
        if packet.effectiveType = 1 then
          Reply.replyTo? pool.config packet .offer lease.address
        else if packet.effectiveAddress = lease.address then
          Reply.replyTo? pool.config packet .ack lease.address
        else none := by
  have hclient : pool.leaseOf (Request.ofPacket packet arrival.source).client = some lease :=
    hlease
  by_cases htype : packet.effectiveType = 1
  · rw [respond_discover h htype pool, if_pos htype, Server.offered_of_leaseOf hclient]
    exact ⟨Server.pool_answered _ _, reply_answered _ _ _ _ _ _⟩
  · rw [respond_request h htype pool, if_neg htype, Server.acknowledged, hclient]
    simp only [clientAddress_ofPacket]
    split
    · exact ⟨Server.pool_answered _ _, reply_answered _ _ _ _ _ _⟩
    · exact ⟨rfl, rfl⟩

/-- A client without a lease is offered one, whether it looks for an address or asks for
a certain one. -/
theorem respond_unleased {arrival : Arrival} {packet : Packet} {pool : Pool}
    (h : arrival.eligible? = some packet)
    (hnone : pool.leaseOf packet.header.chaddr = none) :
    Server.respond pool arrival.bytes arrival.source arrival.now =
      Server.offered pool (Request.ofPacket packet arrival.source) arrival.now
        (if packet.effectiveType = 1 then [.discover packet.header.chaddr]
        else [.request packet.header.chaddr, .unrecognized packet.header.chaddr,
          .discover packet.header.chaddr]) := by
  have hclient : pool.leaseOf (Request.ofPacket packet arrival.source).client = none := hnone
  by_cases htype : packet.effectiveType = 1
  · rw [respond_discover h htype pool, if_pos htype]
  · rw [respond_request h htype pool, if_neg htype, Server.acknowledged, hclient]
    rfl

/-- The answer to a client without a lease: a lease is made, or none is left. -/
theorem respond_newcomer {arrival : Arrival} {packet : Packet} {pool : Pool}
    (h : arrival.eligible? = some packet)
    (hnone : pool.leaseOf packet.header.chaddr = none) :
    (pool.freeCount = 0 ∧
      (Server.respond pool arrival.bytes arrival.source arrival.now).pool = pool ∧
      (Server.respond pool arrival.bytes arrival.source arrival.now).reply = none) ∨
    ∃ grant, pool.nextLease packet.header.chaddr packet.options.hostname arrival.now =
        .ok grant ∧
      (Server.respond pool arrival.bytes arrival.source arrival.now).pool = grant.pool ∧
      (Server.respond pool arrival.bytes arrival.source arrival.now).reply =
        Reply.replyTo? grant.pool.config packet .offer grant.lease.address := by
  have hclient : pool.leaseOf (Request.ofPacket packet arrival.source).client = none := hnone
  rw [respond_unleased h hnone]
  rcases Server.offered_of_none hclient with ⟨grant, hnext, hoffered⟩ | ⟨hfull, hoffered⟩
  · rw [hoffered]
    exact .inr ⟨grant, hnext, Server.pool_answered _ _, reply_answered _ _ _ _ _ _⟩
  · rw [hoffered]
    exact .inl ⟨hfull, rfl, rfl⟩

/-- All that can come of an arrival. -/
theorem respond_cases (arrival : Arrival) (pool : Pool) :
    let outcome := Server.respond pool arrival.bytes arrival.source arrival.now
    (arrival.eligible? = none ∧ outcome.reply = none ∧ outcome.pool = pool) ∨
    ∃ packet, arrival.eligible? = some packet ∧
      ((∃ lease, pool.leaseOf packet.header.chaddr = some lease ∧ outcome.pool = pool ∧
          outcome.reply =
            if packet.effectiveType = 1 then
              Reply.replyTo? pool.config packet .offer lease.address
            else if packet.effectiveAddress = lease.address then
              Reply.replyTo? pool.config packet .ack lease.address
            else none) ∨
        (pool.leaseOf packet.header.chaddr = none ∧ pool.freeCount = 0 ∧
          outcome.pool = pool ∧ outcome.reply = none) ∨
        ∃ grant, pool.leaseOf packet.header.chaddr = none ∧
          pool.nextLease packet.header.chaddr packet.options.hostname arrival.now = .ok grant ∧
          outcome.pool = grant.pool ∧
          outcome.reply = Reply.replyTo? pool.config packet .offer grant.lease.address) := by
  intro outcome
  cases heligible : arrival.eligible? with
  | none =>
    obtain ⟨event, -, hrespond⟩ := respond_ineligible heligible pool
    exact .inl ⟨rfl, congrArg Server.Outcome.reply hrespond, congrArg Server.Outcome.pool hrespond⟩
  | some packet =>
    refine .inr ⟨packet, rfl, ?_⟩
    cases hlease : pool.leaseOf packet.header.chaddr with
    | some lease => exact .inl ⟨lease, rfl, respond_holder heligible hlease⟩
    | none =>
      rcases respond_newcomer heligible hlease with ⟨hfull, hsame⟩ | ⟨grant, hnext, hpool, hreply⟩
      · exact .inr (.inl ⟨rfl, hfull, hsame⟩)
      · rw [(Pool.granted_of_nextLease hnext).config_eq] at hreply
        exact .inr (.inr ⟨grant, rfl, hnext, hpool, hreply⟩)

/-- A reply is an offer or an acknowledgement of the lease that its client holds from
then on. The lease was there before or has just been made. -/
theorem packet_of_reply {arrival : Arrival} {pool : Pool} {reply : Packet}
    (h : (Server.respond pool arrival.bytes arrival.source arrival.now).reply = some reply) :
    ∃ packet type lease, ∃ fit : pool.config.ListsFit,
      arrival.eligible? = some packet ∧ (type = .offer ∨ type = .ack) ∧
      reply = Reply.packet pool.config type packet.header.xid lease.address
        packet.header.chaddr fit ∧
      ((pool.leaseOf packet.header.chaddr = some lease ∧
          (Server.respond pool arrival.bytes arrival.source arrival.now).pool = pool) ∨
        ∃ grant, pool.leaseOf packet.header.chaddr = none ∧
          pool.nextLease packet.header.chaddr packet.options.hostname arrival.now = .ok grant ∧
          grant.lease = lease ∧
          (Server.respond pool arrival.bytes arrival.source arrival.now).pool = grant.pool) := by
  rcases arrival.respond_cases pool with
    ⟨-, hreply, -⟩ | ⟨packet, heligible, ⟨lease, hlease, hpool, hreply⟩ |
      ⟨-, -, -, hreply⟩ | ⟨grant, hnone, hnext, hpool, hreply⟩⟩
  · rw [hreply] at h
    cases h
  · rw [hreply] at h
    split at h
    · obtain ⟨fit, heq⟩ := Reply.replyTo?_eq_some_iff.mp h
      exact ⟨packet, .offer, lease, fit, heligible, .inl rfl, heq, .inl ⟨hlease, hpool⟩⟩
    · split at h
      · obtain ⟨fit, heq⟩ := Reply.replyTo?_eq_some_iff.mp h
        exact ⟨packet, .ack, lease, fit, heligible, .inr rfl, heq, .inl ⟨hlease, hpool⟩⟩
      · cases h
  · rw [hreply] at h
    cases h
  · rw [hreply] at h
    obtain ⟨fit, heq⟩ := Reply.replyTo?_eq_some_iff.mp h
    exact ⟨packet, .offer, grant.lease, fit, heligible, .inl rfl, heq,
      .inr ⟨grant, hnone, hnext, rfl, hpool⟩⟩

/-- Behind a reply stands a lease of the client and the address that it names: the one the
client held, or one just made with the host name of the datagram. -/
theorem lease_of_reply {pool : Pool} (hp : pool.Consistent) {arrival : Arrival} {reply : Packet}
    (h : (Server.respond pool arrival.bytes arrival.source arrival.now).reply = some reply) :
    pool.config.ListsFit ∧ ∃ lease,
      lease.client = reply.header.chaddr ∧ lease.address = reply.header.yiaddr ∧
      (pool.leaseOf reply.header.chaddr = some lease ∨
        pool.leaseOf reply.header.chaddr = none ∧
        ∃ packet, Packet.parse arrival.bytes = .ok packet ∧
          lease = Lease.create reply.header.yiaddr reply.header.chaddr packet.options.hostname
            pool.config.leaseSeconds arrival.now) ∧
      (Server.respond pool arrival.bytes arrival.source arrival.now).pool.leaseOf
        reply.header.chaddr = some lease := by
  obtain ⟨packet, type, lease, fit, heligible, -, rfl,
    ⟨hlease, hpool⟩ | ⟨grant, hnone, hnext, rfl, hpool⟩⟩ := packet_of_reply h
  · refine ⟨fit, lease, hp.client_eq _ _ hlease, rfl, .inl hlease, ?_⟩
    rw [hpool]
    exact hlease
  · have hgranted := Pool.granted_of_nextLease hnext
    have hparse := (eligible?_eq_some_iff.mp heligible).2.1
    refine ⟨fit, grant.lease, ?_, rfl, .inr ⟨hnone, packet, hparse, hgranted.lease_eq⟩, ?_⟩
    · rw [hgranted.lease_eq]
      rfl
    · rw [hpool]
      exact hgranted.leaseOf_self

end Arrival

end Dhcp
