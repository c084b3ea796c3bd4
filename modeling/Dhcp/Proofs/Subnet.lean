import Dhcp.Server.Basic

/-!
The broadcast address that is left to the subnet mask. It is the server's own address with
every bit outside the mask set. An address of the server's subnet agrees with it within the
mask and cannot have more bits outside, so it is no greater as a number. Nothing in this asks
for the bits of a mask to stand together.
-/
namespace Dhcp

namespace Ipv4

/-- The address with every bit outside a mask cleared, in which the addresses of a subnet
agree. -/
def network (a mask : Ipv4) : Ipv4 := ⟨a.bits &&& mask.bits⟩

/-- The address with every bit outside a mask set. -/
def top (a mask : Ipv4) : Ipv4 := ⟨a.bits ||| ~~~mask.bits⟩

variable {a b mask : Ipv4}

theorem ext_bit (h : ∀ i < 32, a.bits.toBitVec.getLsbD i = b.bits.toBitVec.getLsbD i) : a = b := by
  cases a
  cases b
  exact congrArg Ipv4.mk (UInt32.toBitVec_inj.mp (BitVec.eq_of_getLsbD_eq h))

theorem bit_network (a mask : Ipv4) (i : Nat) :
    (a.network mask).bits.toBitVec.getLsbD i =
      (a.bits.toBitVec.getLsbD i && mask.bits.toBitVec.getLsbD i) := by
  rw [network, UInt32.toBitVec_and, BitVec.getLsbD_and]

theorem bit_top (a mask : Ipv4) {i : Nat} (hi : i < 32) :
    (a.top mask).bits.toBitVec.getLsbD i =
      (a.bits.toBitVec.getLsbD i || !mask.bits.toBitVec.getLsbD i) := by
  rw [top, UInt32.toBitVec_or, UInt32.toBitVec_not, BitVec.getLsbD_or, BitVec.getLsbD_not,
    decide_eq_true hi, Bool.true_and]

theorem network_top (a mask : Ipv4) : (a.top mask).network mask = a.network mask := by
  apply ext_bit
  intro i hi
  rw [bit_network, bit_top a mask hi, bit_network]
  cases mask.bits.toBitVec.getLsbD i with
  | false => rw [Bool.and_false, Bool.and_false]
  | true => rw [Bool.not_true, Bool.or_false]

/-- An address of a subnet has no bit that the top of the subnet lacks. -/
theorem network_top_of_network_eq (h : a.network mask = b.network mask) :
    a.network (b.top mask) = a := by
  apply ext_bit
  intro i hi
  have hwithin := congrArg (fun address : Ipv4 => address.bits.toBitVec.getLsbD i) h
  simp only [bit_network] at hwithin
  rw [bit_network, bit_top b mask hi]
  cases hmask : mask.bits.toBitVec.getLsbD i with
  | false => rw [Bool.not_false, Bool.or_true, Bool.and_true]
  | true =>
    rw [hmask, Bool.and_true, Bool.and_true] at hwithin
    rw [hwithin, Bool.not_true, Bool.or_false, Bool.and_self]

theorem toNat_le_top (h : a.network mask = b.network mask) : a.toNat ≤ (b.top mask).toNat := by
  calc
    a.toNat = (a.network (b.top mask)).toNat := by rw [network_top_of_network_eq h]
    _ = a.toNat &&& (b.top mask).toNat := UInt32.toNat_and ..
    _ ≤ (b.top mask).toNat := Nat.and_le_right

/-- Addresses have one top exactly if they are in one subnet, as each top is in the subnet of
its address and none is above the other. -/
theorem top_eq_top_iff : a.top mask = b.top mask ↔ a.network mask = b.network mask := by
  constructor
  · intro h
    rw [← network_top a mask, h, network_top]
  · intro h
    apply ext_toNat
    apply Nat.le_antisymm
    · exact toNat_le_top ((network_top a mask).trans h)
    · exact toNat_le_top ((network_top b mask).trans h.symm)

end Ipv4

theorem Config.broadcast_eq_top {config : Config} (h : config.broadcastAddress = none) :
    config.broadcast = config.serverAddress.top config.subnetMask := by
  simp only [broadcast, h]
  rfl

namespace Server

/-- Where the broadcast address is left to the mask, it is in the server's own subnet, and no
address of that subnet is above it, whatever bits the mask has. So servers with one mask send
their replies to one address exactly if they are in one subnet. -/
theorem replies_go_to_top_of_subnet (config : Config) (h : config.broadcastAddress = none) :
    let mask := config.subnetMask
    let subnet := config.serverAddress.network mask
    config.broadcast.network mask = subnet ∧
    (∀ a : Ipv4, a.network mask = subnet → a.toNat ≤ config.broadcast.toNat) ∧
    ∀ other : Config, other.broadcastAddress = none → other.subnetMask = mask →
      (destination other = destination config ↔ other.serverAddress.network mask = subnet) := by
  intro mask subnet
  have htop : config.broadcast = config.serverAddress.top mask := Config.broadcast_eq_top h
  refine ⟨?_, ?_, ?_⟩
  · rw [htop, Ipv4.network_top]
  · intro a ha
    rw [htop]
    exact Ipv4.toNat_le_top ha
  · intro other hother hmask
    have hsame : destination other = destination config ↔ other.broadcast = config.broadcast := by
      simp only [destination, Endpoint.mk.injEq, and_true]
    rw [hsame, htop, Config.broadcast_eq_top hother, hmask, Ipv4.top_eq_top_iff]

/-- A server whose mask leaves a gap. -/
def gapped (server : Ipv4) : Config :=
  { Config.standard with serverAddress := server, subnetMask := .ofParts 255 0 255 0 }

/-- The second and the fourth octet are outside the mask, so two servers that differ in both
reply to the address with 255 in these places, and no address between them is above it. -/
theorem gapped_servers_reply_to_one_address :
    (gapped (.ofParts 10 1 2 3)).broadcast = .ofParts 10 255 2 255 ∧
    (Ipv4.ofParts 10 255 2 254).toNat ≤ (gapped (.ofParts 10 1 2 3)).broadcast.toNat ∧
    destination (gapped (.ofParts 10 9 2 200)) = destination (gapped (.ofParts 10 1 2 3)) ∧
    destination (gapped (.ofParts 10 1 3 3)) ≠ destination (gapped (.ofParts 10 1 2 3)) := by
  obtain ⟨-, hle, hsame⟩ := replies_go_to_top_of_subnet (gapped (.ofParts 10 1 2 3)) rfl
  refine ⟨by decide, hle _ (by decide), ?_, ?_⟩
  · exact (hsame (gapped (.ofParts 10 9 2 200)) rfl rfl).mpr (by decide)
  · exact mt (hsame (gapped (.ofParts 10 1 3 3)) rfl rfl).mp (by decide)

end Server

end Dhcp
