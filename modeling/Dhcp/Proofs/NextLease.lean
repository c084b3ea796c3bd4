import Dhcp.Proofs.Calls

/-!
A call for the next lease, seen from outside. It fails exactly when every address
that may be leased is leased, even for a client that holds one of them, and then
nothing changes. Otherwise the client has a lease on the least address that nobody
held; the address it held before, if any, is free again, and no other client is
affected.
-/
namespace Dhcp.Pool

variable {pool later : Pool} {client : HardwareAddress} {hostname : Option String}
  {now : Instant} {grant : Grant} {lease : Lease} {a : Ipv4}

/-- An address that may be leased and on which no client has a lease. -/
def Unleased (pool : Pool) (a : Ipv4) : Prop :=
  pool.config.Leasable a ∧ ∀ client lease, pool.leaseOf client = some lease → lease.address ≠ a

theorem Consistent.mem_free_iff (hp : pool.Consistent) : a ∈ pool.free ↔ pool.Unleased a := by
  constructor
  · intro hfree
    refine ⟨(hp.leasable_iff a).mp (.inl hfree), ?_⟩
    intro client lease hlease heq
    exact hp.not_free _ client (addressOf_of_leaseOf hlease) (heq ▸ hfree)
  · rintro ⟨hleasable, hnobody⟩
    apply ((hp.leasable_iff a).mpr hleasable).resolve_right
    rintro ⟨client, hheld⟩
    obtain ⟨lease, hlease, haddress⟩ := addressOf_eq_some_iff.mp hheld
    exact hnobody client lease hlease haddress

theorem Consistent.freeCount_eq_zero_iff (hp : pool.Consistent) :
    pool.freeCount = 0 ↔ ∀ a, ¬ pool.Unleased a := by
  have hempty : pool.freeCount = 0 ↔ pool.free.toList = [] := List.length_eq_zero_iff
  rw [hempty, List.eq_nil_iff_forall_not_mem]
  apply forall_congr'
  intro a
  rw [AddressSet.mem_toList, hp.mem_free_iff]

/-- On an address without a holder there is no lease. -/
theorem Consistent.leaseOn_eq_none (hp : pool.Consistent)
    (h : ∀ client, pool.addressOf client ≠ some a) : pool.leaseOn a = none := by
  have hholder : pool.holders.get? a = none := by
    apply Option.eq_none_iff_forall_ne_some.mpr
    intro client hget
    exact h client ((hp.holder_iff a client).mp hget)
  rw [leaseOn, hholder, Option.bind_none]

theorem leaseCount_of_nextLease (h : pool.nextLease client hostname now = .ok grant) :
    grant.pool.leaseCount =
      if (pool.leaseOf client).isSome then pool.leaseCount else pool.leaseCount + 1 := by
  obtain ⟨-, -, -, -, hleases, -⟩ := nextLease_cases h
  rw [leaseCount, hleases]
  cases hold : pool.leaseOf client with
  | none => exact Index.size_insert_of_get?_eq_none hold _
  | some previous => exact Index.size_insert_of_get?_eq_some hold _

/-- What a client, the others and the free addresses have after a lease was made: the
later pool against the one before. -/
structure Rebinds (pool : Pool) (client : HardwareAddress) (hostname : Option String)
    (now : Instant) (lease : Lease) (later : Pool) : Prop where
  unleased_before : pool.Unleased lease.address
  least : ∀ a, pool.Unleased a → lease.address ≤ a
  client_eq : lease.client = client
  hostname_eq : lease.hostname = hostname
  createdAt_eq : lease.createdAt = now
  duration_eq : lease.duration = pool.config.leaseSeconds.toNat
  leaseOf_self : later.leaseOf client = some lease
  leaseOf_other : ∀ other, other ≠ client → later.leaseOf other = pool.leaseOf other
  freeCount_newcomer : pool.leaseOf client = none → later.freeCount + 1 = pool.freeCount
  given_back : ∀ previous, pool.leaseOf client = some previous →
    previous.address ≠ lease.address ∧ previous.address ∈ later.free ∧
      later.leaseOn previous.address = none ∧ later.freeCount = pool.freeCount

theorem rebinds_of_nextLease (hp : pool.Consistent)
    (h : pool.nextLease client hostname now = .ok grant) :
    pool.Rebinds client hostname now grant.lease grant.pool := by
  have hgranted := granted_of_nextLease h
  have hlater : grant.pool.Consistent := consistent_of_granted hp hgranted
  have hbefore : pool.Unleased grant.lease.address := hp.mem_free_iff.mp hgranted.free_before
  have hcount := count_of_nextLease hp h
  have hleases := leaseCount_of_nextLease h
  refine ⟨hbefore, ?_, ?_, ?_, ?_, ?_, hgranted.leaseOf_self, ?_, ?_, ?_⟩
  · intro a ha
    exact hgranted.address_le (hp.mem_free_iff.mpr ha)
  · rw [hgranted.lease_eq]
    rfl
  · rw [hgranted.lease_eq]
    rfl
  · rw [hgranted.lease_eq]
    rfl
  · rw [hgranted.lease_eq]
    exact Lease.duration_create _ _ _ _ _
  · intro other hother
    exact hgranted.leaseOf_other hother
  · intro hnone
    rw [hnone, if_neg (by decide)] at hleases
    omega
  · intro previous hprevious
    rw [hprevious, Option.isSome_some, if_pos rfl] at hleases
    have hfree : previous.address ∈ grant.pool.free :=
      (hgranted.mem_free_iff _).mpr (.inl (addressOf_of_leaseOf hprevious))
    have hnobody : ∀ holder, grant.pool.addressOf holder ≠ some previous.address := by
      intro holder hheld
      exact hlater.not_free _ holder hheld hfree
    exact ⟨hbefore.2 client previous hprevious, hfree, hlater.leaseOn_eq_none hnobody, by omega⟩

/-- In every pool that calls lead to, a call for the next lease fails exactly when no
address is left unleased, and then leaves the pool as it is, whoever makes it. When an
address is left it succeeds, and the pool after it is the earlier one with a lease of
the client on the least such address in the place of the lease it had. -/
theorem nextLease_rebinds_or_fails (config : Config) (calls : List Call)
    (client : HardwareAddress) (hostname : Option String) (now : Instant) :
    let pool := (create config).afterCalls calls
    let later := pool.afterCall (.nextLease client hostname now)
    pool.config = config ∧
    (pool.nextLease client hostname now = .error .exhausted ↔ ∀ a, ¬ pool.Unleased a) ∧
    ((∀ a, ¬ pool.Unleased a) → later = pool) ∧
    ((∃ a, pool.Unleased a) → ∃ lease,
      (pool.nextLease client hostname now).map Grant.lease = .ok lease ∧
      pool.Rebinds client hostname now lease later) := by
  intro pool later
  have hp : pool.Consistent := consistent_afterCalls (consistent_create config) calls
  have hfails : pool.nextLease client hostname now = .error .exhausted ↔
      ∀ a, ¬ pool.Unleased a := by
    rw [nextLease_eq_error_iff, hp.freeCount_eq_zero_iff]
  refine ⟨config_afterCalls (create config) calls, hfails, ?_, ?_⟩
  · intro hnone
    simp only [later, afterCall, hfails.mpr hnone]
  · rintro ⟨a, ha⟩
    cases hnext : pool.nextLease client hostname now with
    | error fault =>
      cases fault
      exact absurd ha (hfails.mp hnext a)
    | ok grant =>
      have hafter : later = grant.pool := by simp only [later, afterCall, hnext]
      exact ⟨grant.lease, rfl, hafter ▸ rebinds_of_nextLease hp hnext⟩

/-- A configuration with a range of some addresses from 192.168.1.100 on. -/
def narrow (last : UInt8) : Config := { Config.standard with poolEnd := .ofParts 192 168 1 last }

/-- A client that asks twice is moved from the first of two addresses to the second and
gives the first one back; where there is one address only, it asks in vain and keeps it. -/
theorem second_call_moves_or_fails :
    let once : List Call := [.nextLease .zero none ⟨0⟩]
    (∃ lease, (((create (narrow 101)).afterCalls once).nextLease .zero none ⟨1⟩).map Grant.lease =
        .ok lease ∧
      lease.createdAt = ⟨1⟩ ∧
      .ofParts 192 168 1 100 ∈
        (((create (narrow 101)).afterCalls once).afterCall (.nextLease .zero none ⟨1⟩)).free) ∧
    ((create (narrow 100)).afterCalls once).afterCall (.nextLease .zero none ⟨1⟩) =
      (create (narrow 100)).afterCalls once := by
  intro once
  obtain ⟨-, hfails, -, hmoves⟩ := nextLease_rebinds_or_fails (narrow 101) once .zero none ⟨1⟩
  obtain ⟨-, hfull, hkept, -⟩ := nextLease_rebinds_or_fails (narrow 100) once .zero none ⟨1⟩
  have hroom : ¬ ∀ a, ¬ ((create (narrow 101)).afterCalls once).Unleased a := by
    rw [← hfails]
    intro hexhausted
    have hsome : (((create (narrow 101)).afterCalls once).nextLease .zero none ⟨1⟩).isOk := by
      decide +kernel
    rw [hexhausted] at hsome
    cases hsome
  obtain ⟨lease, hlease, hrebinds⟩ := hmoves (Classical.not_forall_not.mp hroom)
  refine ⟨⟨lease, hlease, hrebinds.createdAt_eq, ?_⟩, hkept (hfull.mp ?_)⟩
  · have hheld : (((create (narrow 101)).afterCalls once).leaseOf .zero).map Lease.address =
        some (.ofParts 192 168 1 100) := by decide +kernel
    obtain ⟨previous, hprevious, haddress⟩ := Option.map_eq_some_iff.mp hheld
    rw [← haddress]
    exact (hrebinds.given_back previous hprevious).2.1
  · have hnone :
        (((create (narrow 100)).afterCalls once).nextLease .zero none ⟨1⟩).isOk = false := by
      decide +kernel
    cases hnext : ((create (narrow 100)).afterCalls once).nextLease .zero none ⟨1⟩ with
    | ok grant =>
      rw [hnext] at hnone
      cases hnone
    | error fault => rfl

end Dhcp.Pool
