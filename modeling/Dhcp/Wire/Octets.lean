/-!
Blocks of octets of a fixed width and the numbers written in them. A number is
laid out either with its lowest octet first or with its highest octet first.
Reading a laid out number gives its residue modulo the range of the block, and
laying out a number that was read gives the block back.
-/
namespace Dhcp

/-- Exactly `n` octets in the order of transmission. -/
structure Octets (n : Nat) where
  toList : List UInt8
  length_toList : toList.length = n
  deriving DecidableEq

namespace Octets

@[ext]
theorem ext {n : Nat} {a b : Octets n} (h : a.toList = b.toList) : a = b := by
  cases a
  cases b
  cases h
  rfl

def zero (n : Nat) : Octets n := ⟨List.replicate n 0, List.length_replicate⟩

/-- The `n` octets that start at `offset`. -/
def slice (bytes : List UInt8) (offset n : Nat) (h : offset + n ≤ bytes.length) : Octets n :=
  ⟨(bytes.drop offset).take n, by simp; omega⟩

def reverse {n : Nat} (a : Octets n) : Octets n :=
  ⟨a.toList.reverse, by rw [List.length_reverse, a.length_toList]⟩

/-- The block of the octets in `bytes`, when there are exactly `n` of them. -/
def ofList? (n : Nat) (bytes : List UInt8) : Option (Octets n) :=
  if h : bytes.length = n then some ⟨bytes, h⟩ else none

/-- The number of different blocks of `n` octets. -/
def count : Nat → Nat
  | 0 => 1
  | n + 1 => 256 * count n

/-- The `n` lowest octets of a number, the lowest first. -/
def lowFirst : Nat → Nat → List UInt8
  | 0, _ => []
  | n + 1, value => UInt8.ofNat value :: lowFirst n (value / 256)

/-- The number whose lowest octet comes first. -/
def ofLowFirst : List UInt8 → Nat
  | [] => 0
  | b :: rest => b.toNat + 256 * ofLowFirst rest

theorem length_lowFirst (n value : Nat) : (lowFirst n value).length = n := by
  induction n generalizing value with
  | zero => rfl
  | succ n ih => simp [lowFirst, ih]

theorem ofLowFirst_lowFirst (n value : Nat) :
    ofLowFirst (lowFirst n value) = value % count n := by
  induction n generalizing value with
  | zero => simp [lowFirst, ofLowFirst, count, Nat.mod_one]
  | succ n ih =>
    have low : (UInt8.ofNat value).toNat = value % 256 := UInt8.toNat_ofNat'
    rw [lowFirst, ofLowFirst, ih, low, count, Nat.mod_mul]

theorem lowFirst_ofLowFirst (bytes : List UInt8) :
    lowFirst bytes.length (ofLowFirst bytes) = bytes := by
  induction bytes with
  | nil => rfl
  | cons b rest ih =>
    have hb := b.toNat_lt
    simp only [List.length_cons, ofLowFirst, lowFirst]
    rw [show (b.toNat + 256 * ofLowFirst rest) / 256 = ofLowFirst rest by omega, ih]
    congr 1
    apply UInt8.toNat_inj.mp
    rw [UInt8.toNat_ofNat']
    omega

theorem ofLowFirst_lt (bytes : List UInt8) : ofLowFirst bytes < count bytes.length := by
  induction bytes with
  | nil => exact Nat.one_pos
  | cons b rest ih =>
    have hb := b.toNat_lt
    simp only [ofLowFirst, List.length_cons, count]
    omega

/-- A number laid out in `n` octets, the lowest first. -/
def littleEndian (n value : Nat) : Octets n := ⟨lowFirst n value, length_lowFirst n value⟩

/-- A number laid out in `n` octets, the highest first. -/
def bigEndian (n value : Nat) : Octets n := (littleEndian n value).reverse

/-- The number in a block whose lowest octet comes first. -/
def toNatLittle {n : Nat} (a : Octets n) : Nat := ofLowFirst a.toList

/-- The number in a block whose highest octet comes first. -/
def toNatBig {n : Nat} (a : Octets n) : Nat := a.reverse.toNatLittle

@[simp]
theorem reverse_reverse {n : Nat} (a : Octets n) : a.reverse.reverse = a := by
  ext1
  simp [reverse]

theorem toNatLittle_littleEndian (n value : Nat) :
    (littleEndian n value).toNatLittle = value % count n :=
  ofLowFirst_lowFirst n value

theorem toNatBig_bigEndian (n value : Nat) :
    (bigEndian n value).toNatBig = value % count n := by
  rw [toNatBig, bigEndian, reverse_reverse, toNatLittle_littleEndian]

theorem littleEndian_toNatLittle {n : Nat} (a : Octets n) :
    littleEndian n a.toNatLittle = a := by
  obtain ⟨bytes, rfl⟩ := a
  ext1
  exact lowFirst_ofLowFirst bytes

theorem bigEndian_toNatBig {n : Nat} (a : Octets n) : bigEndian n a.toNatBig = a := by
  rw [bigEndian, toNatBig, littleEndian_toNatLittle, reverse_reverse]

theorem toNatLittle_lt {n : Nat} (a : Octets n) : a.toNatLittle < count n := by
  obtain ⟨bytes, rfl⟩ := a
  exact ofLowFirst_lt bytes

theorem toNatBig_lt {n : Nat} (a : Octets n) : a.toNatBig < count n :=
  toNatLittle_lt a.reverse

@[simp]
theorem length_slice (bytes : List UInt8) (offset n : Nat) (h : offset + n ≤ bytes.length) :
    (slice bytes offset n h).toList.length = n :=
  (slice bytes offset n h).length_toList

theorem slice_toList_append {n : Nat} (a : Octets n) (rest : List UInt8)
    (h : 0 + n ≤ (a.toList ++ rest).length) : slice (a.toList ++ rest) 0 n h = a := by
  obtain ⟨bytes, rfl⟩ := a
  ext1
  simp [slice]

theorem slice_append_of_le {k n offset : Nat} (a : Octets k) (rest : List UInt8) (hk : k ≤ offset)
    (h : offset + n ≤ (a.toList ++ rest).length) :
    slice (a.toList ++ rest) offset n h = slice rest (offset - k) n (by
      rw [List.length_append, a.length_toList] at h
      omega) := by
  obtain ⟨bytes, rfl⟩ := a
  ext1
  simp only [slice, List.drop_append, List.drop_eq_nil_of_le hk, List.nil_append]

theorem slice_cons_succ {n offset : Nat} (first : UInt8) (rest : List UInt8)
    (h : offset + 1 + n ≤ (first :: rest).length) :
    slice (first :: rest) (offset + 1) n h = slice rest offset n (by
      rw [List.length_cons] at h
      omega) := rfl

end Octets

end Dhcp
