import Dhcp.Proofs.Dispatch

/-!
Runs of calls on one pool, in any order and with any outcome. Each call leaves
the pool as it is or makes one lease, so what making a lease preserves holds in
every pool that calls lead to. In all of them the indexes agree and the range is
shared out between the leases and the free addresses.
-/
namespace Dhcp

inductive Call
  | nextLease (client : HardwareAddress) (hostname : Option String) (now : Instant)
  | leaseFor (client : HardwareAddress) (hostname : Option String) (now : Instant)
  | respond (bytes : List UInt8) (source : Endpoint) (now : Instant)
  | handle (deliver : Server.Delivery) (bytes : List UInt8) (source : Endpoint) (now : Instant)

namespace Pool

/-- The pool that a call leaves behind; a call that fails changes nothing. -/
def afterCall (pool : Pool) : Call → Pool
  | .nextLease client hostname now =>
    match pool.nextLease client hostname now with
    | .ok grant => grant.pool
    | .error _ => pool
  | .leaseFor client hostname now =>
    match pool.leaseFor client hostname now with
    | .ok (.new grant) => grant.pool
    | .ok (.existing _) => pool
    | .error _ => pool
  | .respond bytes source now => (Server.respond pool bytes source now).pool
  | .handle deliver bytes source now => (Server.handle deliver pool bytes source now).pool

/-- The pool after some calls, the first one made first. -/
def afterCalls (pool : Pool) (calls : List Call) : Pool := calls.foldl afterCall pool

/-- A call makes one lease or leaves the pool as it is. Only a call for the next lease
makes one for a client that holds a lease already. -/
theorem afterCall_cases (pool : Pool) (call : Call) :
    pool.afterCall call = pool ∨
      ∃ client hostname now grant, pool.nextLease client hostname now = .ok grant ∧
        pool.afterCall call = grant.pool ∧
        (pool.leaseOf client = none ∨ call = .nextLease client hostname now) := by
  have hrespond : ∀ bytes source now, (Server.respond pool bytes source now).pool = pool ∨
      ∃ client hostname now' grant, pool.nextLease client hostname now' = .ok grant ∧
        (Server.respond pool bytes source now).pool = grant.pool ∧
        (pool.leaseOf client = none ∨ call = .nextLease client hostname now') := by
    intro bytes source now
    rcases Server.pool_respond_cases pool bytes source now with
      hsame | ⟨client, hostname, grant, hnone, hnext, hpool⟩
    · exact .inl hsame
    · exact .inr ⟨client, hostname, now, grant, hnext, hpool, .inl hnone⟩
  cases call with
  | nextLease client hostname now =>
    cases hnext : pool.nextLease client hostname now with
    | ok grant =>
      exact .inr ⟨client, hostname, now, grant, hnext, by simp only [afterCall, hnext], .inr rfl⟩
    | error fault => exact .inl (by simp only [afterCall, hnext])
  | leaseFor client hostname now =>
    rcases pool.leaseFor_cases client hostname now with
      ⟨lease, -, hfor⟩ | ⟨grant, hnone, hnext, hfor⟩ | ⟨-, -, hfor⟩
    · exact .inl (by simp only [afterCall, hfor])
    · exact .inr ⟨client, hostname, now, grant, hnext, by simp only [afterCall, hfor], .inl hnone⟩
    · exact .inl (by simp only [afterCall, hfor])
  | respond bytes source now => exact hrespond bytes source now
  | handle deliver bytes source now =>
    simp only [afterCall, Server.pool_handle]
    exact hrespond bytes source now

/-- What making a lease preserves is preserved by every run of calls. -/
theorem afterCalls_induction {P : Pool → Prop} {pool : Pool} (start : P pool)
    (step : ∀ pool client hostname now grant, P pool →
      pool.nextLease client hostname now = .ok grant → P grant.pool)
    (calls : List Call) : P (pool.afterCalls calls) := by
  induction calls generalizing pool with
  | nil => exact start
  | cons call rest ih =>
    refine ih ?_
    rcases pool.afterCall_cases call with hsame | ⟨client, hostname, now, grant, hnext, hpool, -⟩
    · rw [hsame]
      exact start
    · rw [hpool]
      exact step pool client hostname now grant start hnext

theorem config_afterCalls (pool : Pool) (calls : List Call) :
    (pool.afterCalls calls).config = pool.config := by
  refine afterCalls_induction (P := fun p => p.config = pool.config) rfl ?_ calls
  intro p client hostname now grant hp hnext
  rw [(granted_of_nextLease hnext).config_eq, hp]

theorem consistent_afterCalls {pool : Pool} (hp : pool.Consistent) (calls : List Call) :
    (pool.afterCalls calls).Consistent := by
  refine afterCalls_induction hp ?_ calls
  intro p client hostname now grant hp hnext
  exact consistent_of_granted hp (granted_of_nextLease hnext)

theorem count_afterCalls {pool : Pool} (hp : pool.Consistent) (calls : List Call) :
    (pool.afterCalls calls).freeCount + (pool.afterCalls calls).leaseCount =
      pool.freeCount + pool.leaseCount := by
  let Kept (p : Pool) := p.Consistent ∧ p.freeCount + p.leaseCount = pool.freeCount + pool.leaseCount
  have hkept : Kept (pool.afterCalls calls) := by
    refine afterCalls_induction ⟨hp, rfl⟩ ?_ calls
    rintro p client hostname now grant ⟨hp, hcount⟩ hnext
    exact ⟨consistent_of_granted hp (granted_of_nextLease hnext),
      (count_of_nextLease hp hnext).trans hcount⟩
  exact hkept.2

/-- In every pool that calls lead to, each lease stands under its own client, an
address has a holder exactly when a client has a lease on it, no two clients have
a lease on one address, and each address that may be leased is either leased or
free. So leases and free addresses always make up the same number. -/
theorem leases_and_free_partition (config : Config) (calls : List Call) :
    let pool := (create config).afterCalls calls
    (∀ client lease, pool.leaseOf client = some lease → lease.client = client) ∧
      (∀ a client, pool.holders.get? a = some client ↔
        ∃ lease, pool.leaseOf client = some lease ∧ lease.address = a) ∧
      (∀ c d lease other, pool.leaseOf c = some lease → pool.leaseOf d = some other →
        lease.address = other.address → c = d) ∧
      (∀ client lease, pool.leaseOf client = some lease → lease.address ∉ pool.free) ∧
      (∀ a, (a ∈ pool.free ∨ ∃ client lease, pool.leaseOf client = some lease ∧ lease.address = a) ↔
        config.InPool a ∧ a ≠ config.serverAddress) ∧
      pool.freeCount + pool.leaseCount = (create config).freeCount := by
  intro pool
  have hp : pool.Consistent := consistent_afterCalls (consistent_create config) calls
  have hconfig : pool.config = config := config_afterCalls (create config) calls
  refine ⟨hp.client_eq, ?_, ?_, ?_, ?_, ?_⟩
  · intro a client
    rw [hp.holder_iff, addressOf_eq_some_iff]
  · intro c d lease other hc hd heq
    have hc' := addressOf_of_leaseOf hc
    rw [heq] at hc'
    exact hp.client_unique hc' (addressOf_of_leaseOf hd)
  · intro client lease hlease
    exact hp.not_free _ client (addressOf_of_leaseOf hlease)
  · intro a
    have hiff := hp.leasable_iff a
    simp only [addressOf_eq_some_iff, hconfig] at hiff
    exact hiff
  · exact count_afterCalls (consistent_create config) calls

theorem replaced_lease_not_free :
    ∃ lease, ((create .standard).afterCalls
        [.nextLease .zero none ⟨0⟩, .nextLease .zero none ⟨0⟩]).leaseOf .zero = some lease ∧
      lease.address ∉ ((create .standard).afterCalls
        [.nextLease .zero none ⟨0⟩, .nextLease .zero none ⟨0⟩]).free := by
  obtain ⟨-, -, -, hfree, -⟩ := leases_and_free_partition .standard
    [.nextLease .zero none ⟨0⟩, .nextLease .zero none ⟨0⟩]
  have hsome : (((create .standard).afterCalls
      [.nextLease .zero none ⟨0⟩, .nextLease .zero none ⟨0⟩]).leaseOf .zero).isSome = true := by
    decide +kernel
  obtain ⟨lease, hlease⟩ := Option.isSome_iff_exists.mp hsome
  exact ⟨lease, hlease, hfree .zero lease hlease⟩

end Pool

end Dhcp
