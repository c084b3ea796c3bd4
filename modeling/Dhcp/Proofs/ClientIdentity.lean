import Dhcp.Proofs.Dropped
import Dhcp.Proofs.FirstContact

/-!
What a client is known by. Of an accepted datagram the hardware address, the transaction
number, the type and, where the type asks for it, the address count; no other octet of it and
no other client has an influence on the answer. What a lease records beside the address, the
host name and the times, never shows in an answer either, so two servers that differ in such
records only cannot be told apart.
-/
namespace Dhcp

/-- The requests agree in what a client is known by and in what it asks for. The address
counts where the client asks for the one it holds. -/
structure Request.Alike (request other : Request) : Prop where
  client_eq : request.client = other.client
  xid_eq : request.xid = other.xid
  type_eq : request.type = other.type
  address_eq : request.type = 3 → request.clientAddress = other.clientAddress

/-- Both datagrams are accepted, and the requests in them are alike. -/
def Arrival.Alike (arrival other : Arrival) : Prop :=
  ∃ request again, Request.parse arrival.bytes arrival.source = .ok request ∧
    Request.parse other.bytes other.source = .ok again ∧ request.Alike again

/-- The pools differ at most in what their leases record beside the address. -/
structure Pool.Alike (pool other : Pool) : Prop where
  config_eq : pool.config = other.config
  free_eq : pool.free = other.free
  addressOf_eq : ∀ client, pool.addressOf client = other.addressOf client

/-- Each of the later pools has one lease more than the earlier one, of a client that had
none. The two differ at most in the host name and the times of that lease. -/
structure Pool.GrowsAlike (pool : Pool) (client : HardwareAddress) (later other : Pool) :
    Prop where
  had_none : pool.leaseOf client = none
  config_eq : later.config = other.config
  holders_eq : later.holders = other.holders
  free_eq : later.free = other.free
  leases_eq : ∃ lease again : Lease, lease.client = client ∧ again.client = client ∧
    lease.address = again.address ∧ later.leases = pool.leases.insert client lease ∧
    other.leases = pool.leases.insert client again

namespace Pool

variable {pool other later : Pool} {client : HardwareAddress} {hostname name : Option String}
  {now time : Instant} {grant again : Grant}

theorem Alike.refl (pool : Pool) : pool.Alike pool where
  config_eq := rfl
  free_eq := rfl
  addressOf_eq _ := rfl

theorem Alike.freeCount_eq (h : pool.Alike other) : pool.freeCount = other.freeCount := by
  rw [freeCount, h.free_eq, freeCount]

theorem Alike.leaseOf_eq_none (h : pool.Alike other) (hnone : pool.leaseOf client = none) :
    other.leaseOf client = none := by
  rw [← addressOf_eq_none_iff, ← h.addressOf_eq, addressOf_eq_none_iff, hnone]

/-- Newcomers are given the same address in pools that are alike. -/
theorem Alike.of_granted (h : pool.Alike other) (hnone : pool.leaseOf client = none)
    (hnext : pool.nextLease client hostname now = .ok grant)
    (hagain : other.nextLease client name time = .ok again) :
    grant.lease.address = again.lease.address ∧ grant.pool.Alike again.pool := by
  have hgranted := granted_of_nextLease hnext
  have hgranted' := granted_of_nextLease hagain
  obtain ⟨htake, -⟩ := nextLease_newcomer hnone hnext
  obtain ⟨htake', -⟩ := nextLease_newcomer (h.leaseOf_eq_none hnone) hagain
  rw [h.free_eq, htake'] at htake
  obtain ⟨haddress, hfree⟩ := Prod.mk.inj (Option.some.inj htake)
  refine ⟨haddress.symm, ?_, hfree.symm, ?_⟩
  · rw [hgranted.config_eq, hgranted'.config_eq, h.config_eq]
  · intro holder
    rw [hgranted.addressOf_eq, hgranted'.addressOf_eq, h.addressOf_eq, haddress]

theorem growsAlike_of_nextLease (hnone : pool.leaseOf client = none)
    (hnext : pool.nextLease client hostname now = .ok grant)
    (hagain : pool.nextLease client name time = .ok again) :
    pool.GrowsAlike client grant.pool again.pool := by
  obtain ⟨haddress, halike⟩ := (Alike.refl pool).of_granted hnone hnext hagain
  obtain ⟨-, hleases, hholders, -⟩ := nextLease_newcomer hnone hnext
  obtain ⟨-, hleases', hholders', -⟩ := nextLease_newcomer hnone hagain
  refine ⟨hnone, halike.config_eq, ?_, halike.free_eq, grant.lease, again.lease,
    (granted_of_nextLease hnext).client_eq, (granted_of_nextLease hagain).client_eq, haddress,
    hleases, hleases'⟩
  rw [hholders, hholders', haddress]

end Pool

/-- A reply takes nothing from the datagram but the transaction number and the client. -/
theorem Reply.replyTo?_congr {packet other : Packet}
    (hxid : packet.header.xid = other.header.xid)
    (hclient : packet.header.chaddr = other.header.chaddr) (config : Config) (type : MessageType)
    (a : Ipv4) : replyTo? config packet type a = replyTo? config other type a := by
  simp only [replyTo?, hxid, hclient]

/-- The datagrams are alike as far as the server looks at them. -/
structure Packet.Alike (packet other : Packet) : Prop where
  client_eq : packet.header.chaddr = other.header.chaddr
  xid_eq : packet.header.xid = other.header.xid
  type_eq : packet.effectiveType = other.effectiveType
  address_eq : packet.effectiveType = 3 → packet.effectiveAddress = other.effectiveAddress

namespace Arrival

variable {arrival other : Arrival} {packet second : Packet} {pool later : Pool}

theorem eligible?_eq_none (hparse : Packet.parse arrival.bytes = .ok packet)
    (htype : ¬ (packet.effectiveType = 1 ∨ packet.effectiveType = 3)) :
    arrival.eligible? = none := by
  apply Option.eq_none_iff_forall_ne_some.mpr
  intro found hfound
  obtain ⟨-, hread, hfoundType⟩ := eligible?_eq_some_iff.mp hfound
  rw [hparse] at hread
  exact htype (Except.ok.inj hread ▸ hfoundType)

/-- On datagrams that are alike the server acts, or it acts on neither. -/
theorem Alike.eligible_cases (h : arrival.Alike other) :
    arrival.eligible? = none ∧ other.eligible? = none ∨
      ∃ packet second, arrival.eligible? = some packet ∧ other.eligible? = some second ∧
        packet.Alike second := by
  obtain ⟨request, again, hrequest, hagain, halike⟩ := h
  obtain ⟨hport, packet, hparse, rfl⟩ := Request.parse_eq_ok_iff.mp hrequest
  obtain ⟨hport', second, hparse', rfl⟩ := Request.parse_eq_ok_iff.mp hagain
  have htype := halike.type_eq
  have haddress := halike.address_eq
  rw [type_ofPacket, type_ofPacket] at htype
  rw [type_ofPacket, clientAddress_ofPacket, clientAddress_ofPacket] at haddress
  by_cases hacts : packet.effectiveType = 1 ∨ packet.effectiveType = 3
  · exact .inr ⟨packet, second, eligible?_eq_some_iff.mpr ⟨hport, hparse, hacts⟩,
      eligible?_eq_some_iff.mpr ⟨hport', hparse', htype ▸ hacts⟩,
      halike.client_eq, halike.xid_eq, htype, haddress⟩
  · exact .inl ⟨eligible?_eq_none hparse hacts, eligible?_eq_none hparse' (htype ▸ hacts)⟩

theorem respond_of_ineligible (h : arrival.eligible? = none) (pool : Pool) :
    (Server.respond pool arrival.bytes arrival.source arrival.now).reply = none ∧
      (Server.respond pool arrival.bytes arrival.source arrival.now).pool = pool := by
  obtain ⟨event, -, hrespond⟩ := respond_ineligible h pool
  rw [hrespond]
  exact ⟨rfl, rfl⟩

/-- A client is answered by the address it holds and by nothing else that a pool records. -/
theorem respond_holder_alike (hfirst : arrival.eligible? = some packet)
    (hsecond : other.eligible? = some second) (halike : packet.Alike second)
    (hconfig : pool.config = later.config) {a : Ipv4}
    (ha : pool.addressOf packet.header.chaddr = some a)
    (ha' : later.addressOf packet.header.chaddr = some a) :
    (Server.respond pool arrival.bytes arrival.source arrival.now).reply =
        (Server.respond later other.bytes other.source other.now).reply ∧
      (Server.respond pool arrival.bytes arrival.source arrival.now).pool = pool ∧
      (Server.respond later other.bytes other.source other.now).pool = later := by
  obtain ⟨lease, hlease, rfl⟩ := Pool.addressOf_eq_some_iff.mp ha
  obtain ⟨again, hagain, haddress⟩ := Pool.addressOf_eq_some_iff.mp ha'
  rw [halike.client_eq] at hagain
  obtain ⟨hpool, hreply⟩ := respond_holder hfirst hlease
  obtain ⟨hpool', hreply'⟩ := respond_holder hsecond hagain
  refine ⟨?_, hpool, hpool'⟩
  have hcongr := Reply.replyTo?_congr halike.xid_eq halike.client_eq
  rw [hreply, hreply', haddress, ← halike.type_eq, hconfig]
  by_cases hdiscover : packet.effectiveType = 1
  · rw [if_pos hdiscover, if_pos hdiscover, hcongr]
  · have htypes := (parse_of_eligible? hfirst).2
    rw [if_neg hdiscover, if_neg hdiscover, hcongr,
      halike.address_eq (htypes.resolve_left hdiscover)]

/-- A client without a lease is answered by the least free address, if there is one. -/
theorem respond_newcomers_alike (hfirst : arrival.eligible? = some packet)
    (hsecond : other.eligible? = some second) (halike : packet.Alike second)
    (hpools : pool.Alike later) (hnone : pool.leaseOf packet.header.chaddr = none) :
    (Server.respond pool arrival.bytes arrival.source arrival.now).reply =
        (Server.respond later other.bytes other.source other.now).reply ∧
      ((Server.respond pool arrival.bytes arrival.source arrival.now).pool = pool ∧
          (Server.respond later other.bytes other.source other.now).pool = later ∨
        ∃ hostname name grant again,
          pool.nextLease packet.header.chaddr hostname arrival.now = .ok grant ∧
          later.nextLease packet.header.chaddr name other.now = .ok again ∧
          (Server.respond pool arrival.bytes arrival.source arrival.now).pool = grant.pool ∧
          (Server.respond later other.bytes other.source other.now).pool = again.pool) := by
  have hnone' := hpools.leaseOf_eq_none hnone
  have hcount := hpools.freeCount_eq
  have hcongr := Reply.replyTo?_congr halike.xid_eq halike.client_eq
  rw [halike.client_eq] at hnone'
  rcases respond_newcomer hfirst hnone with
    ⟨hfull, hpool, hreply⟩ | ⟨grant, hnext, hpool, hreply⟩
  · rcases respond_newcomer hsecond hnone' with
      ⟨-, hpool', hreply'⟩ | ⟨again, hagain, -, -⟩
    · exact ⟨hreply.trans hreply'.symm, .inl ⟨hpool, hpool'⟩⟩
    · exact absurd (hcount ▸ hfull) (Pool.freeCount_ne_zero_of_nextLease hagain)
  · rcases respond_newcomer hsecond hnone' with
      ⟨hfull', -, -⟩ | ⟨again, hagain, hpool', hreply'⟩
    · exact absurd (hcount ▸ hfull') (Pool.freeCount_ne_zero_of_nextLease hnext)
    · rw [← halike.client_eq] at hagain
      obtain ⟨haddress, hgrown⟩ := hpools.of_granted hnone hnext hagain
      refine ⟨?_, .inr ⟨_, _, grant, again, hnext, hagain, hpool, hpool'⟩⟩
      rw [hreply, hreply', hgrown.config_eq, haddress, hcongr]

/-- Datagrams that are alike are answered alike by pools that are alike, and leave such pools
behind. -/
theorem respond_alike (halike : arrival.Alike other) (hpools : pool.Alike later) :
    (Server.respond pool arrival.bytes arrival.source arrival.now).reply =
        (Server.respond later other.bytes other.source other.now).reply ∧
      (Server.respond pool arrival.bytes arrival.source arrival.now).pool.Alike
        (Server.respond later other.bytes other.source other.now).pool := by
  rcases halike.eligible_cases with ⟨hfirst, hsecond⟩ | ⟨packet, second, hfirst, hsecond, halike⟩
  · obtain ⟨hreply, hpool⟩ := respond_of_ineligible hfirst pool
    obtain ⟨hreply', hpool'⟩ := respond_of_ineligible hsecond later
    rw [hreply, hreply', hpool, hpool']
    exact ⟨rfl, hpools⟩
  · cases ha : pool.addressOf packet.header.chaddr with
    | some a =>
      obtain ⟨hreply, hpool, hpool'⟩ := respond_holder_alike hfirst hsecond halike
        hpools.config_eq ha (hpools.addressOf_eq _ ▸ ha)
      rw [hpool, hpool']
      exact ⟨hreply, hpools⟩
    | none =>
      have hnone := Pool.addressOf_eq_none_iff.mp ha
      obtain ⟨hreply, ⟨hpool, hpool'⟩ | ⟨_, _, grant, again, hnext, hagain, hpool, hpool'⟩⟩ :=
        respond_newcomers_alike hfirst hsecond halike hpools hnone
      · rw [hpool, hpool']
        exact ⟨hreply, hpools⟩
      · rw [hpool, hpool']
        exact ⟨hreply, (hpools.of_granted hnone hnext hagain).2⟩

theorem client_of_eligible? (h : arrival.eligible? = some packet) {request : Request}
    (hrequest : Request.parse arrival.bytes arrival.source = .ok request) :
    request.client = packet.header.chaddr := by
  rw [(parse_of_eligible? h).1] at hrequest
  rw [← Except.ok.inj hrequest]
  rfl

/-- From one pool, datagrams that are alike lead to the same pool but for what a lease that
was just made records beside its address. -/
theorem pool_respond_alike (halike : arrival.Alike other) {request : Request}
    (hrequest : Request.parse arrival.bytes arrival.source = .ok request) (pool : Pool) :
    (Server.respond pool arrival.bytes arrival.source arrival.now).pool = pool ∧
        (Server.respond pool other.bytes other.source other.now).pool = pool ∨
      pool.GrowsAlike request.client
        (Server.respond pool arrival.bytes arrival.source arrival.now).pool
        (Server.respond pool other.bytes other.source other.now).pool := by
  rcases halike.eligible_cases with ⟨hfirst, hsecond⟩ | ⟨packet, second, hfirst, hsecond, halike⟩
  · exact .inl ⟨(respond_of_ineligible hfirst pool).2, (respond_of_ineligible hsecond pool).2⟩
  · rw [client_of_eligible? hfirst hrequest]
    cases ha : pool.addressOf packet.header.chaddr with
    | some a => exact .inl (respond_holder_alike hfirst hsecond halike rfl ha ha).2
    | none =>
      have hnone := Pool.addressOf_eq_none_iff.mp ha
      obtain ⟨-, hsame | ⟨_, _, grant, again, hnext, hagain, hpool, hpool'⟩⟩ :=
        respond_newcomers_alike hfirst hsecond halike (Pool.Alike.refl pool) hnone
      · exact .inl hsame
      · rw [hpool, hpool']
        exact .inr (Pool.growsAlike_of_nextLease hnone hnext hagain)

/-- Where a client holds the same address, it is answered alike, whatever the pools are
otherwise. -/
theorem respond_held_alike (halike : arrival.Alike other) {request : Request}
    (hrequest : Request.parse arrival.bytes arrival.source = .ok request)
    (hconfig : pool.config = later.config) {a : Ipv4}
    (ha : pool.addressOf request.client = some a)
    (ha' : later.addressOf request.client = some a) :
    (Server.respond pool arrival.bytes arrival.source arrival.now).reply =
        (Server.respond later other.bytes other.source other.now).reply ∧
      (Server.respond pool arrival.bytes arrival.source arrival.now).pool = pool ∧
      (Server.respond later other.bytes other.source other.now).pool = later := by
  rcases halike.eligible_cases with ⟨hfirst, hsecond⟩ | ⟨packet, second, hfirst, hsecond, halike⟩
  · obtain ⟨hreply, hpool⟩ := respond_of_ineligible hfirst pool
    obtain ⟨hreply', hpool'⟩ := respond_of_ineligible hsecond later
    exact ⟨hreply.trans hreply'.symm, hpool, hpool'⟩
  · rw [client_of_eligible? hfirst hrequest] at ha ha'
    exact respond_holder_alike hfirst hsecond halike hconfig ha ha'

/-- Runs of datagrams that are alike one by one get the same answers. -/
theorem answers_alike {pairs : List (Arrival × Arrival)} (h : ∀ pair ∈ pairs, pair.1.Alike pair.2)
    (hpools : pool.Alike later) :
    Server.answers pool (pairs.map Prod.fst) = Server.answers later (pairs.map Prod.snd) := by
  induction pairs generalizing pool later with
  | nil => rfl
  | cons pair rest ih =>
    obtain ⟨hpair, hrest⟩ := List.forall_mem_cons.mp h
    obtain ⟨hreply, hafter⟩ := respond_alike hpair hpools
    rw [List.map_cons, List.map_cons, Server.answers, Server.answers, hreply, ih hrest hafter]

end Arrival

namespace Server

/-- Two accepted datagrams that agree in the hardware address, the transaction number, the type
and, if it is a request for an address, in that address, are answered by the same reply or
both by none. They leave the pool as it is or add to it a lease of the client on the same
address, with a host name and times of its own, and no run of further datagrams brings out
which of the two it was. Where the client holds an address, the answer is the same in all
pools in which it holds that one, and none of them changes. -/
theorem identity_decides_answers (config : Config) (calls : List Call) (arrival other : Arrival)
    (request again : Request)
    (hrequest : Request.parse arrival.bytes arrival.source = .ok request)
    (hagain : Request.parse other.bytes other.source = .ok again)
    (halike : request.Alike again) :
    let pool := (Pool.create config).afterCalls calls
    let first := respond pool arrival.bytes arrival.source arrival.now
    let second := respond pool other.bytes other.source other.now
    first.reply = second.reply ∧
    (first.pool = pool ∧ second.pool = pool ∨
      pool.GrowsAlike request.client first.pool second.pool) ∧
    (∀ pairs : List (Arrival × Arrival), (∀ pair ∈ pairs, pair.1.Alike pair.2) →
      answers first.pool (pairs.map Prod.fst) = answers second.pool (pairs.map Prod.snd)) ∧
    ∀ (others : List Call) (a : Ipv4),
      let elsewhere := (Pool.create config).afterCalls others
      let third := respond elsewhere other.bytes other.source other.now
      pool.addressOf request.client = some a → elsewhere.addressOf request.client = some a →
        first.reply = third.reply ∧ first.pool = pool ∧ third.pool = elsewhere := by
  intro pool first second
  have hboth : arrival.Alike other := ⟨request, again, hrequest, hagain, halike⟩
  obtain ⟨hreply, hafter⟩ := Arrival.respond_alike hboth (Pool.Alike.refl pool)
  refine ⟨hreply, Arrival.pool_respond_alike hboth hrequest pool, ?_, ?_⟩
  · intro pairs hpairs
    exact Arrival.answers_alike hpairs hafter
  · intro others a elsewhere third ha ha'
    have hconfig : pool.config = elsewhere.config := by
      rw [Pool.config_afterCalls, Pool.config_afterCalls]
    exact Arrival.respond_held_alike hboth hrequest hconfig ha ha'

/-- A datagram of a client that looks for an address. -/
def plainDiscovery : Packet := ⟨{ op := 1, xid := 7 }, .empty⟩

/-- The same with almost everything else in it, and with the type in an option only. -/
def wordyDiscovery : Packet where
  header := {
    op := 2
    hops := 4
    xid := 7
    secs := 9
    flags := 32768
    ciaddr := .ofParts 192 168 1 150
    giaddr := .ofParts 10 0 0 1 }
  options := ⟨(OptionField.create 12 [112, 99]).toOption.toList ++
    (Packet.discovery 1).options.fields⟩

theorem wordy_discovery_answered_like_plain :
    let pool := Pool.create .standard
    let plain := respond pool plainDiscovery.encode ⟨.unspecified, 68⟩ ⟨0⟩
    let wordy := respond pool wordyDiscovery.encode ⟨.ofParts 10 0 0 1, 68⟩ ⟨5⟩
    plain.reply.isSome ∧ plain.reply = wordy.reply ∧
      pool.GrowsAlike .zero plain.pool wordy.pool ∧
      (plain.pool.leaseOf .zero).map Lease.hostname ≠
        (wordy.pool.leaseOf .zero).map Lease.hostname := by
  intro pool plain wordy
  have hplain : Request.parse plainDiscovery.encode ⟨.unspecified, 68⟩ =
      .ok (.ofPacket plainDiscovery ⟨.unspecified, 68⟩) :=
    Request.parse_eq_ok_iff.mpr ⟨rfl, _, Packet.parse_encode rfl, rfl⟩
  have hwordy : Request.parse wordyDiscovery.encode ⟨.ofParts 10 0 0 1, 68⟩ =
      .ok (.ofPacket wordyDiscovery ⟨.ofParts 10 0 0 1, 68⟩) :=
    Request.parse_eq_ok_iff.mpr ⟨rfl, _, Packet.parse_encode rfl, rfl⟩
  obtain ⟨hreply, hpools, -⟩ := identity_decides_answers .standard []
    ⟨plainDiscovery.encode, ⟨.unspecified, 68⟩, ⟨0⟩⟩
    ⟨wordyDiscovery.encode, ⟨.ofParts 10 0 0 1, 68⟩, ⟨5⟩⟩ _ _ hplain hwordy
    ⟨rfl, rfl, rfl, by decide⟩
  have hseen : plain.reply.isSome ∧ (plain.pool.leaseOf .zero).isSome ∧
      (plain.pool.leaseOf .zero).map Lease.hostname ≠
        (wordy.pool.leaseOf .zero).map Lease.hostname := by
    decide +kernel
  refine ⟨hseen.1, hreply, ?_, hseen.2.2⟩
  rcases hpools with ⟨hsame, -⟩ | hgrown
  · have hsome := hseen.2.1
    rw [show plain.pool = pool from hsame] at hsome
    cases hsome
  · exact hgrown

end Server

end Dhcp
