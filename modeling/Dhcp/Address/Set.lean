import Dhcp.Address.Ipv4

/-!
Finite sets of network addresses, kept in ascending order so that the least
member is at hand.
-/
namespace Dhcp

/-- A set of addresses in ascending order. -/
structure AddressSet where
  toList : List Ipv4
  ascending : toList.Pairwise (· < ·)
  deriving DecidableEq

namespace AddressSet

instance : Membership Ipv4 AddressSet := ⟨fun set a => a ∈ set.toList⟩

instance (a : Ipv4) (set : AddressSet) : Decidable (a ∈ set) :=
  inferInstanceAs (Decidable (a ∈ set.toList))

theorem mem_toList {set : AddressSet} {a : Ipv4} : a ∈ set.toList ↔ a ∈ set := Iff.rfl

def size (set : AddressSet) : Nat := set.toList.length

/-- The addresses from `first` to `last`, both included. -/
def range (first last : Ipv4) : AddressSet where
  toList := (List.range' first.toNat (last.toNat + 1 - first.toNat)).map Ipv4.ofNat
  ascending := by
    have := last.toNat_lt
    refine List.pairwise_map.mpr (List.Pairwise.imp_of_mem ?_ List.pairwise_lt_range')
    intro i j hi hj hij
    rw [List.mem_range'_1] at hi hj
    rw [Ipv4.lt_iff_toNat_lt, Ipv4.toNat_ofNat, Ipv4.toNat_ofNat]
    omega

def erase (set : AddressSet) (a : Ipv4) : AddressSet :=
  ⟨set.toList.filter fun b => b ≠ a, set.ascending.filter _⟩

/-- Puts an address in its place unless it is there already. -/
def insertInto (a : Ipv4) : List Ipv4 → List Ipv4
  | [] => [a]
  | b :: rest =>
    if a < b then a :: b :: rest
    else if a = b then b :: rest
    else b :: insertInto a rest

theorem mem_insertInto {a b : Ipv4} {addresses : List Ipv4} :
    b ∈ insertInto a addresses ↔ b = a ∨ b ∈ addresses := by
  induction addresses with
  | nil => simp [insertInto]
  | cons c rest ih =>
    simp only [insertInto]
    split
    · simp
    · split
      · next h =>
        subst h
        simp
      · simp only [List.mem_cons, ih]
        exact or_left_comm

theorem ascending_insertInto (a : Ipv4) {addresses : List Ipv4}
    (h : addresses.Pairwise (· < ·)) : (insertInto a addresses).Pairwise (· < ·) := by
  induction addresses with
  | nil => simp [insertInto]
  | cons c rest ih =>
    obtain ⟨hc, hrest⟩ := List.pairwise_cons.mp h
    simp only [insertInto]
    split
    · next hac =>
      refine List.pairwise_cons.mpr ⟨?_, h⟩
      intro b hb
      rcases List.mem_cons.mp hb with rfl | hb
      · exact hac
      · have := hc b hb
        rw [Ipv4.lt_iff_toNat_lt] at hac this ⊢
        omega
    · split
      · exact h
      · next hac hne =>
        refine List.pairwise_cons.mpr ⟨?_, ih hrest⟩
        intro b hb
        rcases mem_insertInto.mp hb with rfl | hb
        · have := mt Ipv4.ext_toNat hne
          rw [Ipv4.lt_iff_toNat_lt] at hac ⊢
          omega
        · exact hc b hb

def insert (set : AddressSet) (a : Ipv4) : AddressSet :=
  ⟨insertInto a set.toList, ascending_insertInto a set.ascending⟩

/-- The least member, and the set without it. -/
def takeLeast? (set : AddressSet) : Option (Ipv4 × AddressSet) :=
  match set with
  | ⟨[], _⟩ => none
  | ⟨a :: rest, h⟩ => some (a, ⟨rest, (List.pairwise_cons.mp h).2⟩)

@[simp]
theorem mem_erase {set : AddressSet} {a b : Ipv4} : b ∈ set.erase a ↔ b ∈ set ∧ b ≠ a := by
  simp [← mem_toList, erase]

@[simp]
theorem mem_insert {set : AddressSet} {a b : Ipv4} : b ∈ set.insert a ↔ b = a ∨ b ∈ set :=
  mem_insertInto

theorem length_insertInto {a : Ipv4} {addresses : List Ipv4} (h : a ∉ addresses) :
    (insertInto a addresses).length = addresses.length + 1 := by
  induction addresses with
  | nil => rfl
  | cons b rest ih =>
    simp only [List.mem_cons, not_or] at h
    simp only [insertInto, if_neg h.1]
    split
    · rfl
    · simp only [List.length_cons, ih h.2]

theorem size_insert {set : AddressSet} {a : Ipv4} (h : a ∉ set) :
    (set.insert a).size = set.size + 1 :=
  length_insertInto h

theorem mem_range {first last a : Ipv4} : a ∈ range first last ↔ first ≤ a ∧ a ≤ last := by
  have hl := last.toNat_lt
  have ha := a.toNat_lt
  simp only [← mem_toList, range, Ipv4.le_iff_toNat_le]
  constructor
  · intro h
    obtain ⟨i, hi, rfl⟩ := List.mem_map.mp h
    rw [List.mem_range'_1] at hi
    rw [Ipv4.toNat_ofNat]
    omega
  · intro h
    refine List.mem_map.mpr ⟨a.toNat, ?_, Ipv4.ofNat_toNat a⟩
    rw [List.mem_range'_1]
    omega

theorem size_range (first last : Ipv4) :
    (range first last).size = last.toNat + 1 - first.toNat := by
  simp [size, range]

/-- An address stands once, so taking a member out leaves one less. -/
theorem size_erase (set : AddressSet) (a : Ipv4) :
    (set.erase a).size + (if a ∈ set then 1 else 0) = set.size := by
  have hnodup : set.toList.Nodup := set.ascending.imp Ipv4.ne_of_lt
  have herase : (set.erase a).toList = set.toList.erase a := by
    rw [hnodup.erase_eq_filter]
    simp only [erase, ne_eq, decide_not]
    rfl
  rw [size, size, herase, List.length_erase]
  by_cases h : a ∈ set
  · have hpos : 0 < set.toList.length := List.length_pos_of_mem h
    rw [if_pos h, if_pos (mem_toList.mpr h)]
    omega
  · rw [if_neg h, if_neg (mt mem_toList.mp h), Nat.add_zero]

theorem takeLeast?_eq_none_iff {set : AddressSet} : set.takeLeast? = none ↔ set.size = 0 := by
  obtain ⟨addresses, ascending⟩ := set
  cases addresses <;> simp [takeLeast?, size]

theorem toList_of_takeLeast? {set rest : AddressSet} {a : Ipv4}
    (h : set.takeLeast? = some (a, rest)) : set.toList = a :: rest.toList := by
  obtain ⟨addresses, ascending⟩ := set
  cases addresses with
  | nil => simp [takeLeast?] at h
  | cons c more =>
    simp only [takeLeast?, Option.some.injEq, Prod.mk.injEq] at h
    obtain ⟨rfl, rfl⟩ := h
    rfl

/-- What is taken is the least member, and the others stay. -/
theorem takeLeast?_eq_some {set rest : AddressSet} {a : Ipv4}
    (h : set.takeLeast? = some (a, rest)) :
    (∀ b, b ∈ set ↔ b = a ∨ b ∈ rest) ∧ (∀ b ∈ rest, a < b) ∧ set.size = rest.size + 1 := by
  have hlist := toList_of_takeLeast? h
  have hascending := set.ascending
  rw [hlist] at hascending
  refine ⟨?_, (List.pairwise_cons.mp hascending).1, by rw [size, hlist, List.length_cons]; rfl⟩
  intro b
  rw [← mem_toList, hlist, List.mem_cons, mem_toList]

end AddressSet

end Dhcp
