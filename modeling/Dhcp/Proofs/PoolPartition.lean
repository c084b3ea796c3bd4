import Dhcp.Lease.Pool

/-!
The leased and the free addresses share out the range. A call for the next lease
is described by what it does to the three indexes of a pool, seen through their
look-ups; the agreement of the indexes with each other is then kept by every
call that succeeds, whether the client is new or has its lease replaced.
-/
namespace Dhcp

/-- An address that a pool may lease: it lies in the range and is not the server's. -/
def Config.Leasable (config : Config) (a : Ipv4) : Prop :=
  config.InPool a ∧ a ≠ config.serverAddress

namespace Pool

variable {pool : Pool} {client : HardwareAddress} {hostname : Option String} {now : Instant}
  {grant : Grant}

def addressOf (pool : Pool) (client : HardwareAddress) : Option Ipv4 :=
  (pool.leaseOf client).map Lease.address

theorem addressOf_eq_some_iff {a : Ipv4} :
    pool.addressOf client = some a ↔
      ∃ lease, pool.leaseOf client = some lease ∧ lease.address = a :=
  Option.map_eq_some_iff

theorem addressOf_eq_none_iff : pool.addressOf client = none ↔ pool.leaseOf client = none :=
  Option.map_eq_none_iff

theorem addressOf_of_leaseOf {lease : Lease} (h : pool.leaseOf client = some lease) :
    pool.addressOf client = some lease.address := by
  rw [addressOf, h, Option.map_some]

/-- The three indexes agree, and the range is shared out between clients and free addresses. -/
structure Consistent (pool : Pool) : Prop where
  client_eq : ∀ client lease, pool.leaseOf client = some lease → lease.client = client
  holder_iff : ∀ a client, pool.holders.get? a = some client ↔ pool.addressOf client = some a
  not_free : ∀ a client, pool.addressOf client = some a → a ∉ pool.free
  leasable_iff : ∀ a,
    (a ∈ pool.free ∨ ∃ client, pool.addressOf client = some a) ↔ pool.config.Leasable a

theorem leaseOf_create (config : Config) (client : HardwareAddress) :
    (create config).leaseOf client = none := rfl

theorem addressOf_create (config : Config) (client : HardwareAddress) :
    (create config).addressOf client = none := rfl

theorem mem_free_create {config : Config} {a : Ipv4} :
    a ∈ (create config).free ↔ config.Leasable a := by
  simp only [create, AddressSet.mem_erase, AddressSet.mem_range, Config.Leasable, Config.InPool]

theorem consistent_create (config : Config) : (create config).Consistent where
  client_eq := by
    intro client lease h
    rw [leaseOf_create] at h
    cases h
  holder_iff := by
    intro a client
    rw [addressOf_create]
    simp [create]
  not_free := by
    intro a client h
    rw [addressOf_create] at h
    cases h
  leasable_iff := by
    intro a
    simp only [addressOf_create, reduceCtorEq, exists_false, or_false]
    exact mem_free_create

/-- No lease is made exactly when no address is free, whoever asks. -/
theorem nextLease_eq_error_iff {fault : PoolFault} :
    pool.nextLease client hostname now = .error fault ↔ pool.freeCount = 0 := by
  have hnone : pool.free.takeLeast? = none ↔ pool.freeCount = 0 :=
    AddressSet.takeLeast?_eq_none_iff
  rw [← hnone]
  unfold nextLease
  cases fault
  cases pool.free.takeLeast? with
  | none => simp
  | some taken => cases pool.leaseOf client <;> simp

theorem freeCount_ne_zero_of_nextLease (h : pool.nextLease client hostname now = .ok grant) :
    pool.freeCount ≠ 0 := by
  intro hfull
  have hfail : pool.nextLease client hostname now = .error .exhausted :=
    nextLease_eq_error_iff.mpr hfull
  rw [hfail] at h
  cases h

/-- What a call for the next lease does to the lists that it changes. -/
theorem nextLease_cases (h : pool.nextLease client hostname now = .ok grant) :
    ∃ rest, pool.free.takeLeast? = some (grant.lease.address, rest) ∧
      grant.lease = Lease.create grant.lease.address client hostname pool.config.leaseSeconds now ∧
      grant.pool.config = pool.config ∧
      grant.pool.leases = pool.leases.insert client grant.lease ∧
      ((pool.leaseOf client = none ∧
          grant.pool.holders = pool.holders.insert grant.lease.address client ∧
          grant.pool.free = rest ∧ grant.events = []) ∨
        ∃ previous, pool.leaseOf client = some previous ∧
          grant.pool.holders =
            (pool.holders.erase previous.address).insert grant.lease.address client ∧
          grant.pool.free = rest.insert previous.address ∧
          grant.events = [.replaced client previous.address grant.lease.address]) := by
  unfold nextLease at h
  cases htake : pool.free.takeLeast? with
  | none => simp [htake] at h
  | some taken =>
    obtain ⟨a, rest⟩ := taken
    cases hold : pool.leaseOf client with
    | none =>
      simp only [htake, hold, Except.ok.injEq] at h
      subst h
      exact ⟨rest, rfl, rfl, rfl, rfl, .inl ⟨rfl, rfl, rfl, rfl⟩⟩
    | some previous =>
      simp only [htake, hold, Except.ok.injEq] at h
      subst h
      exact ⟨rest, rfl, rfl, rfl, rfl, .inr ⟨previous, rfl, rfl, rfl, rfl⟩⟩

/-- A lease for a client that had none: nothing is given back and nothing is reported. -/
theorem nextLease_newcomer (hnone : pool.leaseOf client = none)
    (h : pool.nextLease client hostname now = .ok grant) :
    pool.free.takeLeast? = some (grant.lease.address, grant.pool.free) ∧
      grant.pool.leases = pool.leases.insert client grant.lease ∧
      grant.pool.holders = pool.holders.insert grant.lease.address client ∧ grant.events = [] := by
  obtain ⟨rest, htake, -, -, hleases, ⟨-, hholders, hfree, hevents⟩ | ⟨previous, hprevious, -⟩⟩ :=
    nextLease_cases h
  · rw [hfree]
    exact ⟨htake, hleases, hholders, hevents⟩
  · rw [hnone] at hprevious
    cases hprevious

theorem leaseFor_of_leaseOf {lease : Lease} (h : pool.leaseOf client = some lease)
    (hostname : Option String) (now : Instant) :
    pool.leaseFor client hostname now = .ok (.existing lease) := by
  simp only [leaseFor, h]

/-- A client keeps the lease it has; only a client without one is given a lease. -/
theorem leaseFor_cases (pool : Pool) (client : HardwareAddress) (hostname : Option String)
    (now : Instant) :
    (∃ lease, pool.leaseOf client = some lease ∧
      pool.leaseFor client hostname now = .ok (.existing lease)) ∨
    (∃ grant, pool.leaseOf client = none ∧ pool.nextLease client hostname now = .ok grant ∧
      pool.leaseFor client hostname now = .ok (.new grant)) ∨
    (pool.leaseOf client = none ∧ pool.freeCount = 0 ∧
      pool.leaseFor client hostname now = .error .exhausted) := by
  cases hold : pool.leaseOf client with
  | some lease => exact .inl ⟨lease, rfl, leaseFor_of_leaseOf hold hostname now⟩
  | none =>
    cases hnext : pool.nextLease client hostname now with
    | ok grant => exact .inr (.inl ⟨grant, rfl, rfl, by simp only [leaseFor, hold, hnext]⟩)
    | error fault =>
      cases fault
      exact .inr (.inr ⟨rfl, nextLease_eq_error_iff.mp hnext,
        by simp only [leaseFor, hold, hnext]⟩)

/-- A lease just made, as the look-ups in the pool after it show it. -/
structure Granted (pool : Pool) (client : HardwareAddress) (hostname : Option String)
    (now : Instant) (grant : Grant) : Prop where
  lease_eq : grant.lease =
    Lease.create grant.lease.address client hostname pool.config.leaseSeconds now
  config_eq : grant.pool.config = pool.config
  free_before : grant.lease.address ∈ pool.free
  least : ∀ a ∈ pool.free, a ≠ grant.lease.address → grant.lease.address < a
  leaseOf_eq : ∀ other, grant.pool.leaseOf other =
    if other = client then some grant.lease else pool.leaseOf other
  holder_eq : ∀ a, grant.pool.holders.get? a =
    if a = grant.lease.address then some client
    else if pool.addressOf client = some a then none
    else pool.holders.get? a
  mem_free_iff : ∀ a, a ∈ grant.pool.free ↔
    pool.addressOf client = some a ∨ a ∈ pool.free ∧ a ≠ grant.lease.address

theorem granted_of_nextLease (h : pool.nextLease client hostname now = .ok grant) :
    Granted pool client hostname now grant := by
  obtain ⟨rest, htake, hlease, hconfig, hleases, hcases⟩ := nextLease_cases h
  obtain ⟨hmem, hleast, -⟩ := AddressSet.takeLeast?_eq_some htake
  have hne : ∀ a ∈ rest, a ≠ grant.lease.address := by
    intro a ha
    exact (Ipv4.ne_of_lt (hleast a ha)).symm
  have hrest : ∀ a, a ∈ rest ↔ a ∈ pool.free ∧ a ≠ grant.lease.address := by
    intro a
    constructor
    · intro ha
      exact ⟨(hmem a).mpr (.inr ha), hne a ha⟩
    · rintro ⟨ha, hna⟩
      exact ((hmem a).mp ha).resolve_left hna
  refine ⟨hlease, hconfig, (hmem _).mpr (.inl rfl), ?_, ?_, ?_, ?_⟩
  · intro a ha hna
    exact hleast a ((hrest a).mpr ⟨ha, hna⟩)
  · intro other
    rw [leaseOf, hleases, Index.get?_insert]
    rfl
  · intro a
    rcases hcases with ⟨hold, hholders, -, -⟩ | ⟨previous, hold, hholders, -, -⟩
    · simp [hholders, addressOf, hold]
    · simp [hholders, addressOf, hold, eq_comm]
  · intro a
    rcases hcases with ⟨hold, -, hfree, -⟩ | ⟨previous, hold, -, hfree, -⟩
    · simp [hfree, addressOf, hold, hrest]
    · simp [hfree, addressOf, hold, hrest, eq_comm]

namespace Granted

theorem addressOf_eq (h : Granted pool client hostname now grant) (other : HardwareAddress) :
    grant.pool.addressOf other =
      if other = client then some grant.lease.address else pool.addressOf other := by
  rw [addressOf, h.leaseOf_eq]
  split
  · rfl
  · rfl

theorem address_le (h : Granted pool client hostname now grant) {a : Ipv4} (ha : a ∈ pool.free) :
    grant.lease.address ≤ a := by
  apply Ipv4.le_iff_toNat_le.mpr
  by_cases heq : a = grant.lease.address
  · exact Nat.le_of_eq (congrArg Ipv4.toNat heq.symm)
  · exact Nat.le_of_lt (Ipv4.lt_iff_toNat_lt.mp (h.least a ha heq))

theorem leaseOf_self (h : Granted pool client hostname now grant) :
    grant.pool.leaseOf client = some grant.lease := by
  rw [h.leaseOf_eq, if_pos rfl]

theorem leaseOf_other (h : Granted pool client hostname now grant) {other : HardwareAddress}
    (hne : other ≠ client) : grant.pool.leaseOf other = pool.leaseOf other := by
  rw [h.leaseOf_eq, if_neg hne]

end Granted

theorem Consistent.client_unique (hp : pool.Consistent) {a : Ipv4} {c d : HardwareAddress}
    (hc : pool.addressOf c = some a) (hd : pool.addressOf d = some a) : c = d := by
  have hholder := (hp.holder_iff a c).mpr hc
  rw [(hp.holder_iff a d).mpr hd] at hholder
  exact (Option.some.inj hholder).symm

theorem consistent_of_granted (hp : pool.Consistent)
    (h : Granted pool client hostname now grant) : grant.pool.Consistent := by
  have hfresh : ∀ other, pool.addressOf other ≠ some grant.lease.address := by
    intro other heq
    exact hp.not_free _ other heq h.free_before
  refine ⟨?_, ?_, ?_, ?_⟩
  · intro other lease hlease
    rw [h.leaseOf_eq] at hlease
    split at hlease
    · next heq =>
      cases hlease
      rw [h.lease_eq, heq]
      rfl
    · exact hp.client_eq other lease hlease
  · intro a other
    rw [h.holder_eq, h.addressOf_eq]
    by_cases ha : a = grant.lease.address
    · subst ha
      by_cases hother : other = client
      · simp [hother]
      · simp [hother, Ne.symm hother, hfresh other]
    · by_cases hold : pool.addressOf client = some a
      · -- The address given back has no holder, since nobody else held it.
        have hnobody : other ≠ client → pool.addressOf other ≠ some a := by
          intro hother heq
          exact hother (hp.client_unique heq hold)
        by_cases hother : other = client
        · simp [ha, hold, hother, Ne.symm ha]
        · simp [ha, hold, hother, hnobody hother]
      · by_cases hother : other = client
        · simp [ha, hold, hother, Ne.symm ha, hp.holder_iff]
        · simp [ha, hold, hother, hp.holder_iff]
  · intro a other hheld
    rw [h.addressOf_eq] at hheld
    rw [h.mem_free_iff]
    rintro (hold | ⟨hfree, hne⟩)
    · split at hheld
      · cases hheld
        exact hfresh client hold
      · next hother => exact hother (hp.client_unique hheld hold)
    · split at hheld
      · exact hne (Option.some.inj hheld).symm
      · exact hp.not_free a other hheld hfree
  · intro a
    rw [h.config_eq, ← hp.leasable_iff a, h.mem_free_iff]
    constructor
    · rintro ((hold | ⟨hfree, -⟩) | ⟨other, hheld⟩)
      · exact .inr ⟨client, hold⟩
      · exact .inl hfree
      · rw [h.addressOf_eq] at hheld
        split at hheld
        · cases hheld
          exact .inl h.free_before
        · exact .inr ⟨other, hheld⟩
    · rintro (hfree | ⟨other, hheld⟩)
      · by_cases ha : a = grant.lease.address
        · refine .inr ⟨client, ?_⟩
          rw [h.addressOf_eq, if_pos rfl, ha]
        · exact .inl (.inr ⟨hfree, ha⟩)
      · by_cases hother : other = client
        · exact .inl (.inl (hother ▸ hheld))
        · refine .inr ⟨other, ?_⟩
          rw [h.addressOf_eq, if_neg hother, hheld]

/-- A replaced lease gives an address back for the one that is taken. -/
theorem count_of_nextLease (hp : pool.Consistent)
    (h : pool.nextLease client hostname now = .ok grant) :
    grant.pool.freeCount + grant.pool.leaseCount = pool.freeCount + pool.leaseCount := by
  obtain ⟨rest, htake, -, -, hleases, hcases⟩ := nextLease_cases h
  obtain ⟨hmem, -, hsize⟩ := AddressSet.takeLeast?_eq_some htake
  simp only [freeCount, leaseCount, hleases, hsize]
  rcases hcases with ⟨hold, -, hfree, -⟩ | ⟨previous, hold, -, hfree, -⟩
  · rw [hfree, Index.size_insert_of_get?_eq_none hold]
    omega
  · have hnot : previous.address ∉ rest := by
      intro hin
      exact hp.not_free _ client (addressOf_of_leaseOf hold) ((hmem _).mpr (.inr hin))
    rw [hfree, Index.size_insert_of_get?_eq_some hold, AddressSet.size_insert hnot]

end Pool

end Dhcp
