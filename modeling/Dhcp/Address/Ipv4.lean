import Dhcp.Wire.Octets

/-!
Network addresses of 32 bits, ordered as numbers. On the wire the highest octet
comes first. The dotted text has four decimal groups; reading takes each octet
in its shortest spelling only, so an address has exactly one accepted text.
-/
namespace Dhcp

/-- A network address as the number of its 32 bits. -/
structure Ipv4 where
  bits : UInt32
  deriving DecidableEq, Hashable, Inhabited

namespace Ipv4

instance : LT Ipv4 := ⟨fun a b => a.bits < b.bits⟩

instance : LE Ipv4 := ⟨fun a b => a.bits ≤ b.bits⟩

instance (a b : Ipv4) : Decidable (a < b) := inferInstanceAs (Decidable (a.bits < b.bits))

instance (a b : Ipv4) : Decidable (a ≤ b) := inferInstanceAs (Decidable (a.bits ≤ b.bits))

/-- The address as a natural number below `2 ^ 32`. -/
def toNat (a : Ipv4) : Nat := a.bits.toNat

/-- The address of a number, taken modulo `2 ^ 32`. -/
def ofNat (n : Nat) : Ipv4 := ⟨UInt32.ofNat n⟩

/-- The four octets in order of transmission, the highest first. -/
def octets (a : Ipv4) : Octets 4 := Octets.bigEndian 4 a.toNat

def ofOctets (o : Octets 4) : Ipv4 := ofNat o.toNatBig

def ofParts (a b c d : UInt8) : Ipv4 := ofOctets ⟨[a, b, c, d], rfl⟩

/-- The address 0.0.0.0, which stands for no address. -/
def unspecified : Ipv4 := ofNat 0

theorem ext_toNat {a b : Ipv4} (h : a.toNat = b.toNat) : a = b := by
  cases a
  cases b
  exact congrArg Ipv4.mk (UInt32.toNat_inj.mp h)

theorem eq_iff_toNat_eq {a b : Ipv4} : a = b ↔ a.toNat = b.toNat :=
  ⟨congrArg toNat, ext_toNat⟩

theorem toNat_lt (a : Ipv4) : a.toNat < 4294967296 := a.bits.toNat_lt

@[simp]
theorem toNat_ofNat (n : Nat) : (ofNat n).toNat = n % 4294967296 := UInt32.toNat_ofNat'

@[simp]
theorem ofNat_toNat (a : Ipv4) : ofNat a.toNat = a := by
  apply ext_toNat
  rw [toNat_ofNat, Nat.mod_eq_of_lt a.toNat_lt]

theorem lt_iff_toNat_lt {a b : Ipv4} : a < b ↔ a.toNat < b.toNat := UInt32.lt_iff_toNat_lt

theorem le_iff_toNat_le {a b : Ipv4} : a ≤ b ↔ a.toNat ≤ b.toNat := UInt32.le_iff_toNat_le

theorem ne_of_lt {a b : Ipv4} (h : a < b) : a ≠ b := by
  rw [lt_iff_toNat_lt] at h
  exact mt eq_iff_toNat_eq.mp (Nat.ne_of_lt h)

@[simp]
theorem ofOctets_octets (a : Ipv4) : ofOctets a.octets = a := by
  apply ext_toNat
  have h := a.toNat_lt
  rw [ofOctets, octets, Octets.toNatBig_bigEndian, toNat_ofNat]
  change a.toNat % 4294967296 % 4294967296 = a.toNat
  omega

@[simp]
theorem octets_ofOctets (o : Octets 4) : (ofOctets o).octets = o := by
  have h : o.toNatBig < 4294967296 := o.toNatBig_lt
  rw [octets, ofOctets, toNat_ofNat, Nat.mod_eq_of_lt h, Octets.bigEndian_toNatBig]

/-- The four octets in decimal with points between them. -/
def text (a : Ipv4) : List Char :=
  List.intercalate ['.'] (a.octets.toList.map fun o => Nat.toDigits 10 o.toNat)

instance : ToString Ipv4 := ⟨fun a => String.ofList a.text⟩

/-- The stretches of a text between its points. -/
def groups : List Char → List (List Char)
  | [] => [[]]
  | c :: rest =>
    if c = '.' then [] :: groups rest
    else match groups rest with
      | first :: more => (c :: first) :: more
      | [] => [[c]]

/-- The octet written by one to three digits without a needless leading zero. -/
def octet? (digits : List Char) : Option UInt8 :=
  if digits ≠ [] ∧ digits.length ≤ 3 ∧ digits.all Char.isDigit ∧
      (digits.head? = some '0' → digits.length = 1) ∧ Nat.ofDigitChars 10 digits 0 ≤ 255 then
    some (UInt8.ofNat (Nat.ofDigitChars 10 digits 0))
  else none

/-- The address of a dotted text of four octets. -/
def ofText? (s : List Char) : Option Ipv4 :=
  match groups s with
  | [a, b, c, d] => do
    return ofParts (← octet? a) (← octet? b) (← octet? c) (← octet? d)
  | _ => none

end Ipv4

/-- Where a datagram comes from or goes to. The socket of the server is one of version
4, so no address of version 6 occurs. -/
structure Endpoint where
  address : Ipv4
  port : UInt16
  deriving DecidableEq, Inhabited

instance : ToString Endpoint := ⟨fun e => toString e.address ++ ":" ++ toString e.port.toNat⟩

end Dhcp
