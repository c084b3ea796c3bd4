import Dhcp.Proofs.Eligible

/-!
Answers by first contact. What the server answers to a datagram follows from the
datagrams that came before it, without any pool: the addresses of the range go to
clients in the order in which they are first heard of, for good, and clients that
come after the last address are never answered. The pool after any history is the
one this order describes.
-/
namespace Dhcp

namespace FirstContact

/-- The addresses that a configuration has to lease, in ascending order. -/
def addresses (config : Config) : List Ipv4 :=
  ((List.range' config.poolStart.toNat (config.poolEnd.toNat + 1 - config.poolStart.toNat)).map
    Ipv4.ofNat).filter fun a => a ≠ config.serverAddress

/-- The clients heard of, in the order of their first eligible datagrams. -/
def contacts (history : List Arrival) : List HardwareAddress :=
  ((history.filterMap Arrival.eligible?).map fun packet => packet.header.chaddr).eraseDups

/-- The address that goes to a client heard of: the first client is given the first
address, the second client the second, as far as there are addresses. -/
def owned? (config : Config) (history : List Arrival) (client : HardwareAddress) : Option Ipv4 :=
  (addresses config)[(contacts history).idxOf client]?

def answer (config : Config) (before : List Arrival) (arrival : Arrival) : Option Packet :=
  match arrival.eligible? with
  | none => none
  | some packet =>
    match owned? config (before ++ [arrival]) packet.header.chaddr with
    | none => none
    | some a =>
      if packet.effectiveType = 1 ∨ packet.header.chaddr ∉ contacts before then
        Reply.replyTo? config packet .offer a
      else if packet.effectiveAddress = a then Reply.replyTo? config packet .ack a
      else none

theorem ascending_addresses (config : Config) : (addresses config).Pairwise (· < ·) :=
  (Pool.create config).free.ascending

theorem mem_addresses {config : Config} {a : Ipv4} :
    a ∈ addresses config ↔ config.InPool a ∧ a ≠ config.serverAddress :=
  Pool.mem_free_create

theorem contacts_append_dropped {before : List Arrival} {arrival : Arrival}
    (h : arrival.eligible? = none) : contacts (before ++ [arrival]) = contacts before := by
  simp [contacts, h]

theorem contacts_append_known {before : List Arrival} {arrival : Arrival} {packet : Packet}
    (h : arrival.eligible? = some packet) (hknown : packet.header.chaddr ∈ contacts before) :
    contacts (before ++ [arrival]) = contacts before := by
  rw [contacts, List.mem_eraseDups] at hknown
  simp only [contacts, List.filterMap_append, List.map_append, List.eraseDups_append,
    List.filterMap_cons, h, List.filterMap_nil, List.map_cons, List.map_nil]
  simp [List.removeAll, hknown]

theorem contacts_append_new {before : List Arrival} {arrival : Arrival} {packet : Packet}
    (h : arrival.eligible? = some packet) (hnew : packet.header.chaddr ∉ contacts before) :
    contacts (before ++ [arrival]) = contacts before ++ [packet.header.chaddr] := by
  rw [contacts, List.mem_eraseDups] at hnew
  simp only [contacts, List.filterMap_append, List.map_append, List.eraseDups_append,
    List.filterMap_cons, h, List.filterMap_nil, List.map_cons, List.map_nil]
  simp [List.removeAll, hnew, List.eraseDups_cons]

/-- The pool is the one that the order of first contact describes. -/
structure Follows (config : Config) (history : List Arrival) (pool : Pool) : Prop where
  config_eq : pool.config = config
  free_eq : pool.free.toList = (addresses config).drop (contacts history).length
  addressOf_eq : ∀ client, pool.addressOf client =
    if client ∈ contacts history then owned? config history client else none

variable {config : Config} {before : List Arrival} {arrival : Arrival} {packet : Packet}
  {pool : Pool}

theorem follows_create (config : Config) : Follows config [] (Pool.create config) where
  config_eq := rfl
  free_eq := rfl
  addressOf_eq client := by simp [contacts, Pool.addressOf_create]

/-- A history that names no new client describes the same pool. -/
theorem Follows.of_contacts_eq (h : Follows config before pool) {after : List Arrival}
    (heq : contacts after = contacts before) : Follows config after pool where
  config_eq := h.config_eq
  free_eq := by rw [heq, h.free_eq]
  addressOf_eq client := by
    rw [h.addressOf_eq]
    simp only [owned?, heq]

theorem Follows.owned?_holder (h : Follows config before pool) {client : HardwareAddress}
    {lease : Lease} (hlease : pool.leaseOf client = some lease) :
    owned? config before client = some lease.address := by
  have haddress := h.addressOf_eq client
  rw [Pool.addressOf_of_leaseOf hlease] at haddress
  split at haddress
  · exact haddress.symm
  · cases haddress

/-- A client that is known but holds no lease came too late, and no address is left. -/
theorem Follows.late (h : Follows config before pool) {client : HardwareAddress}
    (hknown : client ∈ contacts before) (hnone : pool.leaseOf client = none) :
    owned? config before client = none ∧ pool.freeCount = 0 := by
  have haddress := h.addressOf_eq client
  rw [if_pos hknown, Pool.addressOf_eq_none_iff.mpr hnone] at haddress
  refine ⟨haddress.symm, ?_⟩
  have hlong : (addresses config).length ≤ (contacts before).idxOf client :=
    List.getElem?_eq_none_iff.mp haddress.symm
  have hlt := List.idxOf_lt_length_of_mem hknown
  rw [Pool.freeCount, AddressSet.size, h.free_eq, List.length_drop]
  omega

theorem owned?_new (h : arrival.eligible? = some packet)
    (hnew : packet.header.chaddr ∉ contacts before) :
    owned? config (before ++ [arrival]) packet.header.chaddr =
      (addresses config)[(contacts before).length]? := by
  rw [owned?, contacts_append_new h hnew, List.idxOf_append, if_neg hnew]
  simp

/-- A new client takes the next address, if there is one; the others keep theirs. -/
theorem Follows.extend (h : Follows config before pool) (heligible : arrival.eligible? = some packet)
    (hnew : packet.header.chaddr ∉ contacts before) {later : Pool} (hconfig : later.config = config)
    (hfree : later.free.toList = (addresses config).drop ((contacts before).length + 1))
    (haddress : ∀ client, later.addressOf client =
      if client = packet.header.chaddr then (addresses config)[(contacts before).length]?
      else pool.addressOf client) :
    Follows config (before ++ [arrival]) later := by
  have hcontacts := contacts_append_new heligible hnew
  refine ⟨hconfig, by rw [hfree, hcontacts, List.length_append, List.length_singleton], ?_⟩
  intro client
  rw [haddress]
  by_cases hself : client = packet.header.chaddr
  · rw [if_pos hself, hself, owned?_new heligible hnew, if_pos]
    rw [hcontacts]
    exact List.mem_append_right _ (List.mem_singleton.mpr rfl)
  · have hmem : client ∈ contacts (before ++ [arrival]) ↔ client ∈ contacts before := by
      rw [hcontacts, List.mem_append, List.mem_singleton, or_iff_left hself]
    rw [if_neg hself, h.addressOf_eq]
    by_cases hknown : client ∈ contacts before
    · rw [if_pos hknown, if_pos (hmem.mpr hknown), owned?, owned?, hcontacts,
        List.idxOf_append, if_pos hknown]
    · rw [if_neg hknown, if_neg (mt hmem.mp hknown)]

theorem Follows.step_new (h : Follows config before pool)
    (heligible : arrival.eligible? = some packet)
    (hnew : packet.header.chaddr ∉ contacts before) :
    (Server.respond pool arrival.bytes arrival.source arrival.now).reply =
        answer config before arrival ∧
      Follows config (before ++ [arrival])
        (Server.respond pool arrival.bytes arrival.source arrival.now).pool := by
  have haddress : pool.addressOf packet.header.chaddr = none := by
    rw [h.addressOf_eq, if_neg hnew]
  have hnone := Pool.addressOf_eq_none_iff.mp haddress
  have howned : owned? config (before ++ [arrival]) packet.header.chaddr =
      (addresses config)[(contacts before).length]? := owned?_new heligible hnew
  rcases Arrival.respond_newcomer heligible hnone with
    ⟨hfree, hpool, hreply⟩ | ⟨grant, hnext, hpool, hreply⟩
  · have hlong : (addresses config).length ≤ (contacts before).length := by
      rw [Pool.freeCount, AddressSet.size, h.free_eq, List.length_drop] at hfree
      omega
    have hnothing : (addresses config)[(contacts before).length]? = none :=
      List.getElem?_eq_none_iff.mpr hlong
    rw [hpool, hreply, answer, heligible]
    refine ⟨by simp only [howned, hnothing], ?_⟩
    refine h.extend heligible hnew h.config_eq ?_ ?_
    · rw [h.free_eq, List.drop_eq_nil_of_le hlong, List.drop_eq_nil_of_le (by omega)]
    · intro client
      split
      · next hself => rw [hself, haddress, hnothing]
      · rfl
  · obtain ⟨htake, -⟩ := Pool.nextLease_newcomer hnone hnext
    have hgranted := Pool.granted_of_nextLease hnext
    have hlist := AddressSet.toList_of_takeLeast? htake
    rw [h.free_eq] at hlist
    have hfirst : (addresses config)[(contacts before).length]? = some grant.lease.address := by
      rw [← List.head?_drop, hlist, List.head?_cons]
    have hfree : grant.pool.free.toList = (addresses config).drop ((contacts before).length + 1) := by
      rw [← List.tail_drop, hlist, List.tail_cons]
    rw [hpool, hreply, answer, heligible, hgranted.config_eq, h.config_eq]
    refine ⟨by simp [howned, hfirst, hnew], ?_⟩
    refine h.extend heligible hnew (hgranted.config_eq.trans h.config_eq) hfree ?_
    intro client
    rw [hgranted.addressOf_eq, hfirst]

/-- One arrival: the answer is the one that first contact describes, and so is the
pool after it. -/
theorem Follows.step (h : Follows config before pool) (arrival : Arrival) :
    (Server.respond pool arrival.bytes arrival.source arrival.now).reply =
        answer config before arrival ∧
      Follows config (before ++ [arrival])
        (Server.respond pool arrival.bytes arrival.source arrival.now).pool := by
  cases heligible : arrival.eligible? with
  | none =>
    obtain ⟨event, -, hrespond⟩ := Arrival.respond_ineligible heligible pool
    rw [hrespond, answer, heligible]
    exact ⟨rfl, h.of_contacts_eq (contacts_append_dropped heligible)⟩
  | some packet =>
    by_cases hknown : packet.header.chaddr ∈ contacts before
    · have hcontacts := contacts_append_known heligible hknown
      have howned : owned? config (before ++ [arrival]) packet.header.chaddr =
          owned? config before packet.header.chaddr := by
        rw [owned?, owned?, hcontacts]
      cases hlease : pool.leaseOf packet.header.chaddr with
      | some lease =>
        obtain ⟨hpool, hreply⟩ := Arrival.respond_holder heligible hlease
        rw [hpool, hreply, answer, heligible, h.config_eq]
        refine ⟨?_, h.of_contacts_eq hcontacts⟩
        simp only [howned, h.owned?_holder hlease, hknown, not_true_eq_false, or_false]
      | none =>
        obtain ⟨hlate, hfull⟩ := h.late hknown hlease
        rcases Arrival.respond_newcomer heligible hlease with
          ⟨-, hpool, hreply⟩ | ⟨grant, hnext, -⟩
        · rw [hpool, hreply, answer, heligible]
          exact ⟨by simp only [howned, hlate], h.of_contacts_eq hcontacts⟩
        · exact absurd hfull (Pool.freeCount_ne_zero_of_nextLease hnext)
    · exact h.step_new heligible hknown

end FirstContact

namespace Server

def answers (pool : Pool) : List Arrival → List (Option Packet)
  | [] => []
  | arrival :: rest =>
    let outcome := respond pool arrival.bytes arrival.source arrival.now
    outcome.reply :: answers outcome.pool rest

end Server

namespace FirstContact

theorem Follows.answers_eq {config : Config} {before : List Arrival} {pool : Pool}
    (h : Follows config before pool) (arrivals : List Arrival) :
    Server.answers pool arrivals =
      arrivals.mapIdx fun i arrival => answer config (before ++ arrivals.take i) arrival := by
  induction arrivals generalizing before pool with
  | nil => rfl
  | cons arrival rest ih =>
    obtain ⟨hreply, hfollows⟩ := h.step arrival
    rw [Server.answers, hreply, ih hfollows, List.mapIdx_cons]
    simp only [List.take_zero, List.append_nil, List.take_succ_cons, List.append_assoc,
      List.cons_append, List.nil_append]

/-- From a pool without leases the server answers every arrival of every history as
first contact describes: the addresses to lease, in ascending order and each once, go
to the clients in the order in which they are first heard of. -/
theorem answers_create_eq (config : Config) (history : List Arrival) :
    (addresses config).Pairwise (· < ·) ∧
      (∀ a, a ∈ addresses config ↔ config.InPool a ∧ a ≠ config.serverAddress) ∧
      Server.answers (Pool.create config) history =
        history.mapIdx fun i arrival => answer config (history.take i) arrival :=
  ⟨ascending_addresses config, fun _ => mem_addresses, (follows_create config).answers_eq history⟩

end FirstContact

end Dhcp
