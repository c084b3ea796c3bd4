import Dhcp.Proofs.Calls

/-!
The list of leases against the look-ups. A lease stands in the list of a pool once and
under its client. Where the indexes agree no two leases have one address, so the list
ascends strictly, and going from an address to its holder and on to the lease of that
holder ends at the one lease of the list that has the address.
-/
namespace Dhcp.Pool

variable {pool : Pool} {client : HardwareAddress} {lease : Lease} {a : Ipv4}

/-- An element looked up in a list where a look-up finds exactly what the list has. -/
theorem eq_find?_of_forall_iff {α : Type} {found : Option α} {l : List α} {p : α → Bool}
    (h : ∀ x, found = some x ↔ x ∈ l ∧ p x = true) : found = l.find? p := by
  cases hfind : l.find? p with
  | none =>
    apply Option.eq_none_iff_forall_ne_some.mpr
    intro x hx
    obtain ⟨hmem, hp⟩ := (h x).mp hx
    exact List.find?_eq_none.mp hfind x hmem hp
  | some x => exact (h x).mpr ⟨List.mem_of_find?_eq_some hfind, List.find?_some hfind⟩

theorem mem_list_iff_mem_values : lease ∈ pool.list ↔ lease ∈ pool.leases.values :=
  List.mem_mergeSort

/-- The leases of a pool are those that its clients have. -/
theorem mem_list_iff : lease ∈ pool.list ↔ ∃ client, pool.leaseOf client = some lease := by
  rw [mem_list_iff_mem_values, Index.values, List.mem_map]
  constructor
  · rintro ⟨⟨client, _⟩, hentry, rfl⟩
    exact ⟨client, Index.get?_eq_some_iff.mpr hentry⟩
  · rintro ⟨client, hlease⟩
    exact ⟨(client, lease), Index.get?_eq_some_iff.mp hlease, rfl⟩

namespace Consistent

theorem leaseOf_eq_some_iff (hp : pool.Consistent) :
    pool.leaseOf client = some lease ↔ lease ∈ pool.list ∧ lease.client = client := by
  rw [mem_list_iff]
  constructor
  · intro hlease
    exact ⟨⟨client, hlease⟩, hp.client_eq client lease hlease⟩
  · rintro ⟨⟨other, hlease⟩, rfl⟩
    rwa [hp.client_eq other lease hlease]

/-- The holder of an address is the client whose lease has it. -/
theorem leaseOn_eq_some_iff_leaseOf (hp : pool.Consistent) :
    pool.leaseOn a = some lease ↔
      ∃ client, pool.leaseOf client = some lease ∧ lease.address = a := by
  rw [leaseOn, Option.bind_eq_some_iff]
  constructor
  · rintro ⟨client, hholder, hlease⟩
    obtain ⟨held, hheld, haddress⟩ := addressOf_eq_some_iff.mp ((hp.holder_iff a client).mp hholder)
    rw [hlease] at hheld
    cases hheld
    exact ⟨client, hlease, haddress⟩
  · rintro ⟨client, hlease, haddress⟩
    have hheld : pool.addressOf client = some a := haddress ▸ addressOf_of_leaseOf hlease
    exact ⟨client, (hp.holder_iff a client).mpr hheld, hlease⟩

theorem leaseOn_eq_some_iff (hp : pool.Consistent) :
    pool.leaseOn a = some lease ↔ lease ∈ pool.list ∧ lease.address = a := by
  rw [hp.leaseOn_eq_some_iff_leaseOf, mem_list_iff, exists_and_right]

/-- Each client stands once in the index of leases and no address has two clients. -/
theorem nodup_addresses (hp : pool.Consistent) :
    pool.leases.values.Pairwise fun x y => x.address ≠ y.address := by
  have hkeys : pool.leases.entries.Pairwise fun x y => x.1 ≠ y.1 :=
    List.pairwise_map.mp pool.leases.nodup
  rw [Index.values, List.pairwise_map]
  refine hkeys.imp_of_mem ?_
  rintro ⟨client, lease⟩ ⟨other, further⟩ hlease hfurther hne haddress
  have hheld := addressOf_of_leaseOf (Index.get?_eq_some_iff.mpr hlease : pool.leaseOf client = _)
  have hother := addressOf_of_leaseOf
    (Index.get?_eq_some_iff.mpr hfurther : pool.leaseOf other = _)
  exact hne (hp.client_unique hheld (haddress ▸ hother))

theorem list_ascending (hp : pool.Consistent) :
    pool.list.Pairwise fun x y => x.address < y.address := by
  have hsorted : pool.list.Pairwise fun x y => x.address ≤ y.address := by
    have htrans : ∀ x y z : Lease, decide (x.address ≤ y.address) = true →
        decide (y.address ≤ z.address) = true → decide (x.address ≤ z.address) = true := by
      intro x y z hxy hyz
      simp only [decide_eq_true_eq, Ipv4.le_iff_toNat_le] at hxy hyz ⊢
      exact Nat.le_trans hxy hyz
    have htotal : ∀ x y : Lease,
        (decide (x.address ≤ y.address) || decide (y.address ≤ x.address)) = true := by
      intro x y
      simp only [Bool.or_eq_true, decide_eq_true_eq, Ipv4.le_iff_toNat_le]
      exact Nat.le_total _ _
    have h := List.pairwise_mergeSort htrans htotal pool.leases.values
    simpa only [list, decide_eq_true_eq] using h
  have hdistinct : pool.list.Pairwise fun x y => x.address ≠ y.address :=
    (List.mergeSort_perm pool.leases.values _).symm.pairwise hp.nodup_addresses Ne.symm
  refine hsorted.imp₂ (fun x y hle hne => ?_) hdistinct
  rw [Ipv4.lt_iff_toNat_lt]
  exact Nat.lt_of_le_of_ne (Ipv4.le_iff_toNat_le.mp hle) fun heq => hne (Ipv4.ext_toNat heq)

end Consistent

/-- In every pool that calls lead to, also where addresses were given back and leased again,
the list of leases ascends strictly by address, the lease found on an address is the one of
the list that has that address, and the lease found for a client is the one of the list that
is the client's. So each look-up finds what a search through the list would find. -/
theorem lookUps_agree_with_list (config : Config) (calls : List Call) :
    let pool := (create config).afterCalls calls
    (pool.list.Pairwise fun x y => x.address < y.address) ∧
    (∀ a lease, pool.leaseOn a = some lease ↔ lease ∈ pool.list ∧ lease.address = a) ∧
    (∀ client lease, pool.leaseOf client = some lease ↔
      lease ∈ pool.list ∧ lease.client = client) ∧
    (∀ a, pool.leaseOn a = pool.list.find? fun lease => lease.address = a) ∧
    ∀ client, pool.leaseOf client = pool.list.find? fun lease => lease.client = client := by
  intro pool
  have hp : pool.Consistent := consistent_afterCalls (consistent_create config) calls
  refine ⟨hp.list_ascending, fun a lease => hp.leaseOn_eq_some_iff,
    fun client lease => hp.leaseOf_eq_some_iff, ?_, ?_⟩
  · intro a
    apply eq_find?_of_forall_iff
    intro lease
    rw [hp.leaseOn_eq_some_iff, decide_eq_true_eq]
  · intro client
    apply eq_find?_of_forall_iff
    intro lease
    rw [hp.leaseOf_eq_some_iff, decide_eq_true_eq]

end Dhcp.Pool
