/-!
Finite maps as lists of entries in which no key stands twice. Every operation is
described by its effect on look-ups.
-/
namespace Dhcp

structure Index (κ α : Type) where
  entries : List (κ × α)
  nodup : (entries.map Prod.fst).Nodup

namespace Index

variable {κ α : Type} [DecidableEq κ]

def empty : Index κ α := ⟨[], List.nodup_nil⟩

/-- The value of a key in a list of entries. -/
def find? (k : κ) : List (κ × α) → Option α
  | [] => none
  | entry :: rest => if entry.1 = k then some entry.2 else find? k rest

def get? (index : Index κ α) (k : κ) : Option α := find? k index.entries

def erase (index : Index κ α) (k : κ) : Index κ α :=
  ⟨index.entries.filter fun entry => entry.1 ≠ k,
    (List.filter_sublist.map Prod.fst).nodup index.nodup⟩

/-- The map with `a` as the value of `k`. -/
def insert (index : Index κ α) (k : κ) (a : α) : Index κ α :=
  ⟨(k, a) :: (index.erase k).entries, by
    refine List.nodup_cons.mpr ⟨?_, (index.erase k).nodup⟩
    simp [erase]⟩

/-- The values in no particular order. -/
def values (index : Index κ α) : List α := index.entries.map Prod.snd

def size (index : Index κ α) : Nat := index.entries.length

theorem find?_filter_ne (k k' : κ) (entries : List (κ × α)) :
    find? k' (entries.filter fun entry => entry.1 ≠ k) =
      if k' = k then none else find? k' entries := by
  induction entries with
  | nil => simp [find?]
  | cons entry rest ih =>
    rw [List.filter_cons]
    by_cases h : entry.1 = k <;> grind [find?]

@[simp]
theorem get?_empty (k : κ) : (empty : Index κ α).get? k = none := rfl

@[simp]
theorem get?_erase (index : Index κ α) (k k' : κ) :
    (index.erase k).get? k' = if k' = k then none else index.get? k' :=
  find?_filter_ne k k' index.entries

@[simp]
theorem get?_insert (index : Index κ α) (k k' : κ) (a : α) :
    (index.insert k a).get? k' = if k' = k then some a else index.get? k' := by
  by_cases h : k' = k
  · simp [get?, insert, find?, h]
  · have : (index.insert k a).get? k' = (index.erase k).get? k' := by
      simp [get?, insert, find?, Ne.symm h]
    rw [this, get?_erase, if_neg h, if_neg h]

theorem find?_eq_some_iff {entries : List (κ × α)} (nodup : (entries.map Prod.fst).Nodup)
    {k : κ} {a : α} : find? k entries = some a ↔ (k, a) ∈ entries := by
  induction entries with
  | nil => simp [find?]
  | cons entry rest ih =>
    obtain ⟨key, value⟩ := entry
    obtain ⟨fresh, nodup⟩ := List.nodup_cons.mp nodup
    by_cases h : key = k
    · subst h
      have absent : (key, a) ∉ rest := fun hm => fresh (List.mem_map.mpr ⟨_, hm, rfl⟩)
      simp [find?, absent, eq_comm]
    · simp [find?, h, ih nodup, Ne.symm h]

theorem get?_eq_some_iff {index : Index κ α} {k : κ} {a : α} :
    index.get? k = some a ↔ (k, a) ∈ index.entries :=
  find?_eq_some_iff index.nodup

theorem find?_eq_none_iff {entries : List (κ × α)} {k : κ} :
    find? k entries = none ↔ ∀ entry ∈ entries, entry.1 ≠ k := by
  induction entries with
  | nil => simp [find?]
  | cons entry rest ih =>
    by_cases h : entry.1 = k
    · simp [find?, h]
    · simp [find?, h, ih]

/-- A key stands once, so leaving out its entries leaves out one. -/
theorem length_filter_ne {entries : List (κ × α)} (nodup : (entries.map Prod.fst).Nodup)
    {k : κ} {a : α} (h : find? k entries = some a) :
    (entries.filter fun entry => entry.1 ≠ k).length + 1 = entries.length := by
  induction entries with
  | nil => simp [find?] at h
  | cons entry rest ih =>
    obtain ⟨fresh, nodup⟩ := List.nodup_cons.mp nodup
    by_cases hk : entry.1 = k
    · have others : ∀ other ∈ rest, decide (other.1 ≠ k) = true := by
        intro other hother
        refine decide_eq_true fun heq => fresh ?_
        exact List.mem_map.mpr ⟨other, hother, heq.trans hk.symm⟩
      rw [List.filter_cons_of_neg (by simpa using hk), List.filter_eq_self.mpr others,
        List.length_cons]
    · have hrest : find? k rest = some a := by simpa [find?, hk] using h
      simpa [hk] using ih nodup hrest

theorem size_insert_of_get?_eq_none {index : Index κ α} {k : κ} (h : index.get? k = none) (a : α) :
    (index.insert k a).size = index.size + 1 := by
  have others : ∀ entry ∈ index.entries, decide (entry.1 ≠ k) = true := by
    intro entry hentry
    exact decide_eq_true (find?_eq_none_iff.mp h entry hentry)
  simp only [size, insert, erase, List.length_cons, List.filter_eq_self.mpr others]

theorem size_insert_of_get?_eq_some {index : Index κ α} {k : κ} {b : α}
    (h : index.get? k = some b) (a : α) : (index.insert k a).size = index.size :=
  length_filter_ne index.nodup h

end Index

end Dhcp
