import Dhcp.Proofs.Calls
import Dhcp.Proofs.Eligible
import Dhcp.Proofs.Codec

/-!
What a datagram leaves behind. A reply is built only after its lease was made, so a
datagram can be dropped and still have changed the pool; that needs an address list
too long for one option, which no configuration that meets every rule has. Apart from
it a dropped datagram leaves no trace, and an answered one at most a lease.
-/
namespace Dhcp

namespace Pool

/-- The later pool has one lease more, on what was the least free address, and is the
same in all else. -/
structure Adds (pool : Pool) (lease : Lease) (later : Pool) : Prop where
  config_eq : later.config = pool.config
  had_none : pool.leaseOf lease.client = none
  was_free : lease.address ∈ pool.free
  least : ∀ a ∈ pool.free, lease.address ≤ a
  leaseOf_eq : ∀ client, later.leaseOf client =
    if client = lease.client then some lease else pool.leaseOf client
  holder_eq : ∀ a, later.holders.get? a =
    if a = lease.address then some lease.client else pool.holders.get? a
  free_iff : ∀ a, a ∈ later.free ↔ a ∈ pool.free ∧ a ≠ lease.address

variable {pool later : Pool} {client : HardwareAddress} {hostname : Option String}
  {now : Instant} {grant : Grant} {lease : Lease}

theorem Granted.client_eq (h : Granted pool client hostname now grant) :
    grant.lease.client = client := by
  rw [h.lease_eq]
  rfl

/-- A client that had no lease gives no address back for the one it is given. -/
theorem adds_of_nextLease (hnone : pool.leaseOf client = none)
    (hnext : pool.nextLease client hostname now = .ok grant) :
    pool.Adds grant.lease grant.pool := by
  have h := granted_of_nextLease hnext
  have hclient := h.client_eq
  have haddress := addressOf_eq_none_iff.mpr hnone
  refine ⟨h.config_eq, by rw [hclient, hnone], h.free_before, fun a ha => h.address_le ha, ?_, ?_,
    ?_⟩
  · intro other
    rw [hclient, h.leaseOf_eq]
  · intro a
    rw [hclient, h.holder_eq, haddress, if_neg (by simp : ¬ none = some a)]
  · intro a
    rw [h.mem_free_iff, haddress]
    simp

theorem Adds.ne (h : pool.Adds lease later) : later ≠ pool := by
  intro heq
  have hlease := h.leaseOf_eq lease.client
  rw [heq, h.had_none, if_pos rfl] at hlease
  cases hlease

end Pool

/-- The rules of a configuration keep both lists within one option each. -/
theorem Config.listsFit_of_validate {config : Config} (h : config.validate = .ok config) :
    config.ListsFit := by
  obtain ⟨-, -, -, hrouters, hservers, -⟩ := fault?_eq_none_iff.mp (validate_eq_ok_iff.mp h).1
  exact ⟨hrouters, hservers⟩

theorem Config.not_listsFit_iff {config : Config} :
    ¬ config.ListsFit ↔ 63 < config.routers.length ∨ 63 < config.dnsServers.length := by
  unfold ListsFit maximumAddresses
  omega

namespace Server

variable {arrival : Arrival} {pool : Pool}

/-- A dropped datagram that changes the pool is one for which a lease was made and the
reply about it could not be built. -/
theorem dropped_cases
    (hreply : (respond pool arrival.bytes arrival.source arrival.now).reply = none) :
    (respond pool arrival.bytes arrival.source arrival.now).pool = pool ∨
      ∃ packet lease, arrival.eligible? = some packet ∧ lease.client = packet.header.chaddr ∧
        pool.freeCount ≠ 0 ∧ ¬ pool.config.ListsFit ∧
        pool.Adds lease (respond pool arrival.bytes arrival.source arrival.now).pool := by
  rcases arrival.respond_cases pool with
    ⟨-, -, hpool⟩ | ⟨packet, heligible, ⟨-, -, hpool, -⟩ | ⟨-, -, hpool, -⟩ |
      ⟨grant, hnone, hnext, hpool, hoffer⟩⟩
  · exact .inl hpool
  · exact .inl hpool
  · exact .inl hpool
  · rw [hreply] at hoffer
    refine .inr ⟨packet, grant.lease, heligible, (Pool.granted_of_nextLease hnext).client_eq,
      Pool.freeCount_ne_zero_of_nextLease hnext, Reply.replyTo?_eq_none_iff.mp hoffer.symm, ?_⟩
    rw [hpool]
    exact Pool.adds_of_nextLease hnone hnext

/-- A lease is made for a client before it is known whether the reply can be built. -/
theorem dropped_of_not_listsFit {packet : Packet} (heligible : arrival.eligible? = some packet)
    (hnone : pool.leaseOf packet.header.chaddr = none) (hfree : pool.freeCount ≠ 0)
    (hfit : ¬ pool.config.ListsFit) :
    (respond pool arrival.bytes arrival.source arrival.now).reply = none ∧
      (respond pool arrival.bytes arrival.source arrival.now).pool ≠ pool := by
  rcases Arrival.respond_newcomer heligible hnone with
    ⟨hfull, -, -⟩ | ⟨grant, hnext, hpool, hreply⟩
  · exact absurd hfull hfree
  · rw [(Pool.granted_of_nextLease hnext).config_eq, Reply.replyTo?_eq_none_iff.mpr hfit] at hreply
    rw [hpool]
    exact ⟨hreply, (Pool.adds_of_nextLease hnone hnext).ne⟩

/-- Under rules that are met a datagram without a reply leaves the pool as it is. A reply
comes with at most one new lease: that of the client it names, on the address it names.
Sending the reply changes nothing, whether it arrives or not. Whatever the configuration, a
datagram is dropped with a change to the pool exactly when it is eligible, its client has no
lease while an address is free, and a list is too long; the change is then the one lease. -/
theorem dropped_datagrams_leave_no_trace (config : Config) (calls : List Call)
    (arrival : Arrival) (deliver : Delivery) :
    let pool := (Pool.create config).afterCalls calls
    let outcome := respond pool arrival.bytes arrival.source arrival.now
    (config.validate = .ok config → outcome.reply = none → outcome.pool = pool) ∧
    (∀ reply, outcome.reply = some reply → outcome.pool = pool ∨
      ∃ lease, lease.client = reply.header.chaddr ∧ lease.address = reply.header.yiaddr ∧
        pool.Adds lease outcome.pool) ∧
    (handle deliver pool arrival.bytes arrival.source arrival.now).pool = outcome.pool ∧
    (outcome.reply = none ∧ outcome.pool ≠ pool ↔
      ∃ packet, arrival.source.port = 68 ∧ Packet.parse arrival.bytes = .ok packet ∧
        (packet.effectiveType = 1 ∨ packet.effectiveType = 3) ∧
        pool.leaseOf packet.header.chaddr = none ∧ pool.freeCount ≠ 0 ∧
        (63 < config.routers.length ∨ 63 < config.dnsServers.length)) ∧
    (outcome.reply = none → outcome.pool ≠ pool →
      ∃ packet lease, Packet.parse arrival.bytes = .ok packet ∧
        lease.client = packet.header.chaddr ∧ pool.Adds lease outcome.pool) := by
  intro pool outcome
  have hconfig : pool.config = config := Pool.config_afterCalls (Pool.create config) calls
  refine ⟨?_, ?_, pool_handle deliver pool _ _ _, ⟨?_, ?_⟩, ?_⟩
  · intro hvalid hreply
    rcases dropped_cases hreply with hsame | ⟨-, -, -, -, -, hfit, -⟩
    · exact hsame
    · rw [hconfig] at hfit
      exact absurd (Config.listsFit_of_validate hvalid) hfit
  · intro reply hreply
    obtain ⟨packet, type, lease, fit, -, -, rfl, ⟨-, hsame⟩ | ⟨grant, hnone, hnext, rfl, hpool⟩⟩ :=
      Arrival.packet_of_reply hreply
    · exact .inl hsame
    · refine .inr ⟨grant.lease, (Pool.granted_of_nextLease hnext).client_eq, rfl, ?_⟩
      rw [hpool]
      exact Pool.adds_of_nextLease hnone hnext
  · rintro ⟨hreply, hchanged⟩
    rcases dropped_cases hreply with hsame | ⟨packet, lease, heligible, hclient, hfree, hfit, hadds⟩
    · exact absurd hsame hchanged
    · obtain ⟨hport, hparse, htype⟩ := Arrival.eligible?_eq_some_iff.mp heligible
      rw [hconfig, Config.not_listsFit_iff] at hfit
      exact ⟨packet, hport, hparse, htype, hclient ▸ hadds.had_none, hfree, hfit⟩
  · rintro ⟨packet, hport, hparse, htype, hnone, hfree, hlong⟩
    refine dropped_of_not_listsFit (Arrival.eligible?_eq_some_iff.mpr ⟨hport, hparse, htype⟩)
      hnone hfree ?_
    rw [hconfig, Config.not_listsFit_iff]
    exact hlong
  · intro hreply hchanged
    rcases dropped_cases hreply with hsame | ⟨packet, lease, heligible, hclient, -, -, hadds⟩
    · exact absurd hsame hchanged
    · exact ⟨packet, lease, (Arrival.eligible?_eq_some_iff.mp heligible).2.1, hclient, hadds⟩

/-- A discovery from a port, at the zero of time. -/
def discoveryFrom (port : UInt16) : Arrival :=
  ⟨(Packet.discovery 1).encode, ⟨.unspecified, port⟩, ⟨0⟩⟩

/-- A configuration with one name server more than an option holds. -/
def crowded : Config := { Config.standard with dnsServers := List.replicate 64 (.ofParts 8 8 8 8) }

/-- A discovery is dropped without a trace when it comes from the port of servers, is
answered under a configuration that meets the rules, and costs an address under one that
has too many name servers. -/
theorem discovery_dropped_answered_lost :
    let outcome (config : Config) (port : UInt16) :=
      respond (Pool.create config) (discoveryFrom port).bytes (discoveryFrom port).source
        (discoveryFrom port).now
    ((outcome .standard 67).reply = none ∧ (outcome .standard 67).pool = Pool.create .standard) ∧
    (∃ reply lease, (outcome .standard 68).reply = some reply ∧
      lease.address = reply.header.yiaddr ∧
      (Pool.create .standard).Adds lease (outcome .standard 68).pool) ∧
    (outcome crowded 68).reply = none ∧
      ∃ lease, (Pool.create crowded).Adds lease (outcome crowded 68).pool := by
  intro outcome
  have hdropped : (outcome .standard 67).reply = none := by decide +kernel
  have hsame := (dropped_datagrams_leave_no_trace .standard [] (discoveryFrom 67)
    fun _ _ => .ok ()).1 rfl hdropped
  have hanswered : ((outcome .standard 68).reply.isSome ∧
      ((outcome .standard 68).pool.leaseOf .zero).isSome) := by decide +kernel
  obtain ⟨reply, hreply⟩ := Option.isSome_iff_exists.mp hanswered.1
  have hlost : (outcome crowded 68).reply = none ∧
      ((outcome crowded 68).pool.leaseOf .zero).isSome := by decide +kernel
  -- A pool without leases has none for the client, so the pool has changed.
  have hchanged : ∀ {config : Config} {pool : Pool},
      (pool.leaseOf .zero).isSome → pool ≠ Pool.create config := by
    rintro config pool hsome rfl
    cases hsome
  refine ⟨⟨hdropped, hsame⟩, ?_, hlost.1, ?_⟩
  · rcases (dropped_datagrams_leave_no_trace .standard [] (discoveryFrom 68)
      fun _ _ => .ok ()).2.1 reply hreply with hunchanged | ⟨lease, -, haddress, hadds⟩
    · exact absurd hunchanged (hchanged hanswered.2)
    · exact ⟨reply, lease, hreply, haddress, hadds⟩
  · obtain ⟨-, lease, -, -, hadds⟩ := (dropped_datagrams_leave_no_trace crowded []
      (discoveryFrom 68) fun _ _ => .ok ()).2.2.2.2 hlost.1 (hchanged hlost.2)
    exact ⟨lease, hadds⟩

end Server

end Dhcp
