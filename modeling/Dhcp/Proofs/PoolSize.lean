import Dhcp.Command
import Dhcp.Proofs.Calls

/-!
The size of a range of addresses. It is computed from the two ends of the range in 32
bits and has no value there for a range that is reversed or that holds every address.
Where it has a value, it counts what the pool can lease, the server's own address apart.
A configuration that meets the rules always has a size: a range of every address would
hold the server, and that is against the rules.
-/
namespace Dhcp

namespace Config

/-- The range ends before it starts, or it holds every address, or it has a size. -/
theorem poolSize_cases (config : Config) :
    (config.poolEnd < config.poolStart ∧ config.poolSize = .error .below) ∨
    (config.poolStart.toNat = 0 ∧ config.poolEnd.toNat = 4294967295 ∧
      config.poolSize = .error .above) ∨
    (config.poolStart.toNat ≤ config.poolEnd.toNat ∧
      config.poolEnd.toNat - config.poolStart.toNat < 4294967295 ∧
      config.poolSize = .ok (config.poolEnd.toNat + 1 - config.poolStart.toNat)) := by
  have hend := config.poolEnd.toNat_lt
  unfold poolSize
  by_cases hreversed : config.poolEnd < config.poolStart
  · exact .inl ⟨hreversed, if_pos hreversed⟩
  · rw [if_neg hreversed]
    rw [Ipv4.lt_iff_toNat_lt] at hreversed
    simp only [UInt32.size]
    by_cases hfits : config.poolEnd.toNat - config.poolStart.toNat + 1 < 4294967296
    · refine .inr (.inr ⟨by omega, by omega, ?_⟩)
      rw [if_pos hfits]
      congr 1
      omega
    · exact .inr (.inl ⟨by omega, by omega, if_neg hfits⟩)

/-- The range holds every address there is. -/
def PoolFull (config : Config) : Prop :=
  config.poolStart = .ofParts 0 0 0 0 ∧ config.poolEnd = .ofParts 255 255 255 255

variable {config : Config}

theorem poolFull_iff :
    config.PoolFull ↔ config.poolStart.toNat = 0 ∧ config.poolEnd.toNat = 4294967295 := by
  unfold PoolFull
  rw [Ipv4.eq_iff_toNat_eq, Ipv4.eq_iff_toNat_eq]
  rfl

theorem poolSize_eq_below_iff :
    config.poolSize = .error .below ↔ config.poolEnd < config.poolStart := by
  rw [Ipv4.lt_iff_toNat_lt]
  rcases config.poolSize_cases with ⟨hlt, hsize⟩ | ⟨hstart, hend, hsize⟩ | ⟨hle, -, hsize⟩
  · rw [Ipv4.lt_iff_toNat_lt] at hlt
    simp [hsize, hlt]
  · simp only [hsize, Except.error.injEq, reduceCtorEq, false_iff]
    omega
  · simp only [hsize, reduceCtorEq, false_iff]
    omega

theorem poolSize_eq_above_iff : config.poolSize = .error .above ↔ config.PoolFull := by
  rw [poolFull_iff]
  rcases config.poolSize_cases with ⟨hlt, hsize⟩ | ⟨hstart, hend, hsize⟩ | ⟨-, hlt, hsize⟩
  · rw [Ipv4.lt_iff_toNat_lt] at hlt
    simp only [hsize, Except.error.injEq, reduceCtorEq, false_iff]
    omega
  · simp [hsize, hstart, hend]
  · simp only [hsize, reduceCtorEq, false_iff]
    omega

theorem poolSize_eq_ok (hle : config.poolStart ≤ config.poolEnd) (hfull : ¬ config.PoolFull) :
    config.poolSize = .ok (AddressSet.range config.poolStart config.poolEnd).size := by
  rw [poolFull_iff] at hfull
  rw [Ipv4.le_iff_toNat_le] at hle
  rw [AddressSet.size_range]
  rcases config.poolSize_cases with ⟨hlt, -⟩ | ⟨hstart, hend, -⟩ | ⟨-, -, hsize⟩
  · rw [Ipv4.lt_iff_toNat_lt] at hlt
    omega
  · exact absurd ⟨hstart, hend⟩ hfull
  · exact hsize

theorem inPool_of_poolFull (h : config.PoolFull) (a : Ipv4) : config.InPool a := by
  rw [poolFull_iff] at h
  have ha := a.toNat_lt
  simp only [InPool, Ipv4.le_iff_toNat_le]
  omega

end Config

namespace Pool

/-- The size of the range counts the server's address, which is not free. -/
theorem size_range_eq (config : Config) :
    (AddressSet.range config.poolStart config.poolEnd).size =
      (create config).freeCount + if config.InPool config.serverAddress then 1 else 0 := by
  have hsize := AddressSet.size_erase
    (AddressSet.range config.poolStart config.poolEnd) config.serverAddress
  simp only [AddressSet.mem_range] at hsize
  exact hsize.symm

/-- Under rules that are met the range has a size, since the server is outside of it. -/
theorem poolSize_of_validate {config : Config} (h : config.validate = .ok config) :
    config.poolSize = .ok (create config).freeCount ∧ 1 ≤ (create config).freeCount := by
  obtain ⟨hreversed, hserver, -⟩ :=
    Config.fault?_eq_none_iff.mp (Config.validate_eq_ok_iff.mp h).1
  rw [Ipv4.lt_iff_toNat_lt, Nat.not_lt] at hreversed
  have hfull : ¬ config.PoolFull := fun hfull =>
    hserver (Config.inPool_of_poolFull hfull config.serverAddress)
  have hsize := size_range_eq config
  rw [if_neg hserver, Nat.add_zero] at hsize
  rw [← hsize]
  refine ⟨Config.poolSize_eq_ok (Ipv4.le_iff_toNat_le.mpr hreversed) hfull, ?_⟩
  rw [AddressSet.size_range]
  omega

end Pool

/-- What is loaded from a file meets the rules. -/
theorem ConfigFile.validate_of_load {file : ConfigFile} {config : Config}
    (h : file.load = .ok config) : config.validate = .ok config := by
  cases file with
  | absent =>
    cases h
    rfl
  | unwritable => cases h
  | unreadable => cases h
  | content bytes =>
    simp only [load] at h
    cases hdecode : Utf8.decode? bytes with
    | none => simp [hdecode] at h
    | some text =>
      cases hparse : Config.parse text with
      | error fault => simp [hdecode, hparse] at h
      | ok read =>
        cases hvalid : read.validate with
        | error fault =>
          simp only [hdecode, hparse, hvalid] at h
          cases h
        | ok valid =>
          simp only [hdecode, hparse, hvalid] at h
          obtain ⟨-, rfl⟩ := Config.validate_eq_ok_iff.mp hvalid
          cases h
          exact hvalid

/-- The command that shows a configuration comes to its end wherever one is loaded. -/
theorem Command.exitCode_of_load {file : ConfigFile} {config : Config}
    (h : file.load = .ok config) : (showConfig file).exitCode = 0 := by
  obtain ⟨hsize, -⟩ := Pool.poolSize_of_validate (ConfigFile.validate_of_load h)
  simp only [showConfig, h, hsize]

theorem Command.exitCode_of_load_error {file : ConfigFile} {fault : LoadFault}
    (h : file.load = .error fault) : (showConfig file).exitCode = 1 := by
  simp only [showConfig, h]

/-- The size of a range fails to be computed in 32 bits exactly when the range is reversed
or holds every address there is. Otherwise it is the number of free addresses in a new
pool, and one more if the server's own address lies in the range. Under rules that are met
it is at least one, and in every pool that calls lead to it is shared out between free
addresses and leases; none of these addresses is the server's or a router's. Every
configuration that is loaded from a file meets the rules, so the command that shows it
fails only where nothing is loaded, and never at the size. -/
theorem Pool.size_counts_leased_and_free (config : Config) (calls : List Call)
    (file : ConfigFile) :
    let pool := (create config).afterCalls calls
    (config.poolSize = .error .below ↔ config.poolEnd < config.poolStart) ∧
    (config.poolSize = .error .above ↔
      config.poolStart = .ofParts 0 0 0 0 ∧ config.poolEnd = .ofParts 255 255 255 255) ∧
    (config.poolStart ≤ config.poolEnd →
      ¬ (config.poolStart = .ofParts 0 0 0 0 ∧ config.poolEnd = .ofParts 255 255 255 255) →
      config.poolSize = .ok ((create config).freeCount +
        if config.InPool config.serverAddress then 1 else 0)) ∧
    (config.validate = .ok config →
      config.poolSize = .ok (pool.freeCount + pool.leaseCount) ∧
      1 ≤ pool.freeCount + pool.leaseCount ∧
      ∀ a, (a ∈ pool.free ∨ ∃ client lease, pool.leaseOf client = some lease ∧ lease.address = a) →
        a ≠ config.serverAddress ∧ a ∉ config.routers) ∧
    (∀ loaded, file.load = .ok loaded →
      loaded.validate = .ok loaded ∧ (Command.showConfig file).exitCode = 0) ∧
    (∀ fault, file.load = .error fault → (Command.showConfig file).exitCode = 1) := by
  intro pool
  refine ⟨Config.poolSize_eq_below_iff, Config.poolSize_eq_above_iff, ?_, ?_, ?_, ?_⟩
  · intro hle hfull
    rw [← size_range_eq]
    exact Config.poolSize_eq_ok hle hfull
  · intro hvalid
    have hp : pool.Consistent := consistent_afterCalls (consistent_create config) calls
    have hconfig : pool.config = config := config_afterCalls (create config) calls
    have hcount : pool.freeCount + pool.leaseCount = (create config).freeCount :=
      count_afterCalls (consistent_create config) calls
    obtain ⟨hsize, hpos⟩ := poolSize_of_validate hvalid
    rw [hcount]
    refine ⟨hsize, hpos, ?_⟩
    intro a ha
    have hleasable : pool.config.Leasable a := by
      apply (hp.leasable_iff a).mp
      simpa only [addressOf_eq_some_iff] using ha
    rw [hconfig] at hleasable
    obtain ⟨-, -, hrouters, -⟩ :=
      Config.fault?_eq_none_iff.mp (Config.validate_eq_ok_iff.mp hvalid).1
    exact ⟨hleasable.2, fun hrouter => hrouters a hrouter hleasable.1⟩
  · intro loaded hload
    exact ⟨ConfigFile.validate_of_load hload, Command.exitCode_of_load hload⟩
  · intro fault hload
    exact Command.exitCode_of_load_error hload

/-- The standard configuration with the server's address inside the range. -/
def Config.surrounding : Config :=
  { Config.standard with serverAddress := .ofParts 192 168 1 150 }

/-- After one lease the standard pool still holds what its size says. A range around the
server has one address more than its pool. A file that is missing is shown as it is made,
and one that cannot be read is not shown. -/
theorem Pool.size_with_server_outside_and_inside :
    let pool := (create .standard).afterCalls [.nextLease .zero none ⟨0⟩]
    (Config.standard.poolSize = .ok (pool.freeCount + pool.leaseCount) ∧ pool.leaseCount = 1) ∧
    Config.surrounding.poolSize = .ok ((create .surrounding).freeCount + 1) ∧
    (Command.showConfig .absent).exitCode = 0 ∧ (Command.showConfig .unreadable).exitCode = 1 := by
  intro pool
  obtain ⟨-, -, -, hvalid, hshown, -⟩ :=
    size_counts_leased_and_free .standard [.nextLease .zero none ⟨0⟩] .absent
  obtain ⟨-, -, hinside, -, -, hfailed⟩ :=
    size_counts_leased_and_free .surrounding [] .unreadable
  have hleased : pool.leaseCount = 1 := by decide +kernel
  exact ⟨⟨(hvalid rfl).1, hleased⟩, hinside (by decide) (by decide), (hshown .standard rfl).2,
    hfailed .io rfl⟩

end Dhcp
