import Dhcp.Config.Basic

/-!
The rules that a configuration has to meet before a server is started with it.
The first rule broken is the one reported.
-/
namespace Dhcp

inductive ConfigFault
  | poolReversed
  | serverInPool
  | routerInPool (router : Ipv4)
  | tooManyRouters
  | tooManyDnsServers
  | noLeaseTime
  deriving DecidableEq

namespace ConfigFault

def reason : ConfigFault → String
  | poolReversed => "pool_start must be less than or equal to pool_end"
  | serverInPool => "server_ip must not be within the pool range"
  | routerInPool router => "router " ++ toString router ++ " must not be within the pool range"
  | tooManyRouters => "at most 63 routers are supported"
  | tooManyDnsServers => "at most 63 dns_servers are supported"
  | noLeaseTime => "lease_duration_seconds must be greater than 0"

def message (fault : ConfigFault) : String := "Invalid configuration: " ++ fault.reason

end ConfigFault

namespace Config

/-- As many addresses as the payload of one option holds. -/
def maximumAddresses : Nat := 63

/-- The first rule that a configuration breaks. -/
def fault? (config : Config) : Option ConfigFault :=
  if config.poolEnd < config.poolStart then some .poolReversed
  else if config.InPool config.serverAddress then some .serverInPool
  else match config.routers.find? fun router => config.InPool router with
    | some router => some (.routerInPool router)
    | none =>
      if maximumAddresses < config.routers.length then some .tooManyRouters
      else if maximumAddresses < config.dnsServers.length then some .tooManyDnsServers
      else if config.leaseSeconds = 0 then some .noLeaseTime
      else none

/-- A rule and the ones after it report nothing when none of them is broken. -/
theorem rule_eq_none_iff {broken : Prop} [Decidable broken] {fault : ConfigFault}
    {others : Option ConfigFault} :
    (if broken then some fault else others) = none ↔ ¬ broken ∧ others = none := by
  split
  · next h => simp [h]
  · next h => simp [h]

theorem fault?_eq_none_iff {config : Config} : config.fault? = none ↔
    ¬ config.poolEnd < config.poolStart ∧ ¬ config.InPool config.serverAddress ∧
      (∀ router ∈ config.routers, ¬ config.InPool router) ∧
      config.routers.length ≤ maximumAddresses ∧ config.dnsServers.length ≤ maximumAddresses ∧
      config.leaseSeconds ≠ 0 := by
  have hrouters : (∀ router ∈ config.routers, ¬ config.InPool router) ↔
      (config.routers.find? fun router => config.InPool router) = none := by
    simp
  rw [fault?, rule_eq_none_iff, rule_eq_none_iff, hrouters]
  cases config.routers.find? fun router => config.InPool router with
  | some router => simp
  | none => simp only [rule_eq_none_iff, Nat.not_lt, true_and, and_true, ne_eq]

/-- The configuration, when it meets every rule. -/
def validate (config : Config) : Except ConfigFault Config :=
  match config.fault? with
  | none => .ok config
  | some fault => .error fault

theorem validate_eq_ok_iff {config valid : Config} :
    config.validate = .ok valid ↔ config.fault? = none ∧ valid = config := by
  unfold validate
  cases config.fault? with
  | none => simp [eq_comm]
  | some fault => simp

end Config

end Dhcp
