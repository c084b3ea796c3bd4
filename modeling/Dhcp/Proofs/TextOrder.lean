import Dhcp.Address.Hardware

/-!
The order of hardware addresses and that of their texts. A digit that stands for more comes
later among the characters, all octets take two digits, and the colons stand at the same
places in all texts. So the first character in which two texts differ belongs to the first
octet in which the addresses differ, and compares like it. Texts sorted as strings are then
the texts of the sorted addresses.
-/
namespace Dhcp.HardwareAddress

variable {a b : HardwareAddress} {o p : UInt8}

theorem digitChar_lt_iff {m n : Nat} (hm : m < 16) (hn : n < 16) :
    Nat.digitChar m < Nat.digitChar n ↔ m < n := by
  have hall : ∀ i j : Fin 16, Nat.digitChar i < Nat.digitChar j ↔ i < j := by decide
  exact hall ⟨m, hm⟩ ⟨n, hn⟩

theorem octetText_lt_iff : octetText o < octetText p ↔ o < p := by
  have ho := o.toNat_lt
  have hp := p.toNat_lt
  have hhigh := digitChar_lt_iff (m := o.toNat / 16) (n := p.toNat / 16) (by omega) (by omega)
  have hlow := digitChar_lt_iff (m := o.toNat % 16) (n := p.toNat % 16) (by omega) (by omega)
  have hsame : Nat.digitChar (o.toNat / 16) = Nat.digitChar (p.toNat / 16) ↔
      o.toNat / 16 = p.toNat / 16 :=
    ⟨digitChar_inj (by omega) (by omega), congrArg Nat.digitChar⟩
  rw [octetText, octetText, List.cons_lt_cons_iff, List.cons_lt_cons_iff, hhigh, hlow, hsame,
    UInt8.lt_iff_toNat_lt]
  simp only [List.lt_irrefl, and_false, or_false]
  omega

/-- Of two texts the fronts decide, if they have one length and differ. -/
theorem append_lt_append_iff {s t u v : List Char} (hlength : s.length = u.length) :
    s ++ t < u ++ v ↔ s < u ∨ s = u ∧ t < v := by
  induction s generalizing u with
  | nil =>
    obtain rfl := List.eq_nil_of_length_eq_zero hlength.symm
    simp
  | cons c rest ih =>
    obtain ⟨d, more, rfl⟩ := List.exists_cons_of_length_eq_add_one hlength.symm
    rw [List.cons_append, List.cons_append, List.cons_lt_cons_iff, List.cons_lt_cons_iff,
      ih (Nat.succ.inj hlength), List.cons.injEq, and_or_left, or_assoc, and_assoc]

theorem octetText_append_lt_iff {s t : List Char} :
    octetText o ++ s < octetText p ++ t ↔ o < p ∨ o = p ∧ s < t := by
  have heq : octetText o = octetText p ↔ o = p := ⟨octetText_inj, congrArg octetText⟩
  have hlength : (octetText o).length = (octetText p).length := rfl
  rw [append_lt_append_iff hlength, octetText_lt_iff, heq]

theorem following_lt_iff {os ps : List UInt8} (hlength : os.length = ps.length) :
    following os < following ps ↔ os < ps := by
  induction os generalizing ps with
  | nil =>
    obtain rfl := List.eq_nil_of_length_eq_zero hlength.symm
    simp
  | cons o rest ih =>
    obtain ⟨p, more, rfl⟩ := List.exists_cons_of_length_eq_add_one hlength.symm
    rw [following_cons, following_cons, List.cons_lt_cons_iff, octetText_append_lt_iff,
      ih (Nat.succ.inj hlength), List.cons_lt_cons_iff]
    simp only [Char.lt_irrefl, false_or, true_and]

theorem text_lt_iff : a.text < b.text ↔ a < b := by
  obtain ⟨o, rest, ha, harest, hatext⟩ := a.exists_text
  obtain ⟨p, more, hb, hbmore, hbtext⟩ := b.exists_text
  have hoctets : a < b ↔ o :: rest < p :: more := by
    rw [← ha, ← hb]
    rfl
  rw [hatext, hbtext, octetText_append_lt_iff, following_lt_iff (harest.trans hbmore.symm),
    hoctets, List.cons_lt_cons_iff]

theorem toString_eq_iff : toString a = toString b ↔ a = b := by
  constructor
  · intro h
    exact text_inj (String.ofList_inj.mp h)
  · exact congrArg toString

theorem toString_lt_iff : toString a < toString b ↔ a < b := by
  change (String.ofList a.text).toList < (String.ofList b.text).toList ↔ _
  rw [String.toList_ofList, String.toList_ofList, text_lt_iff]

theorem toString_le_iff : toString a ≤ toString b ↔ a ≤ b := by
  rw [← String.not_lt, toString_lt_iff]
  exact List.not_lt

/-- Sorting keeps the addresses, and their texts then stand in ascending order. -/
theorem texts_sort (addresses : List HardwareAddress) :
    ((sort addresses).map toString).Perm (addresses.map toString) ∧
      ((sort addresses).map toString).Pairwise (· ≤ ·) := by
  refine ⟨(List.mergeSort_perm addresses _).map toString, ?_⟩
  have hsorted : (sort addresses).Pairwise fun x y => decide (x ≤ y) = true := by
    apply List.pairwise_mergeSort
    · intro x y z hxy hyz
      rw [decide_eq_true_iff, ← toString_le_iff] at hxy hyz ⊢
      exact String.le_trans hxy hyz
    · intro x y
      rw [Bool.or_eq_true, decide_eq_true_iff, decide_eq_true_iff, ← toString_le_iff,
        ← toString_le_iff]
      exact String.le_total _ _
  refine List.pairwise_map.mpr (hsorted.imp ?_)
  intro x y hxy
  exact toString_le_iff.mpr (of_decide_eq_true hxy)

/-- Two addresses have one text exactly if they are the same, and their texts compare as
strings like the addresses themselves. So the texts of sorted addresses are the sorted texts:
the one arrangement of the texts that ascends, whichever way it is found. -/
theorem texts_identify_and_order_addresses (a b : HardwareAddress)
    (addresses : List HardwareAddress) :
    (toString a = toString b ↔ a = b) ∧
    (a < b ↔ toString a < toString b) ∧
    (sort addresses).map toString =
      (addresses.map toString).mergeSort (fun s t => decide (s ≤ t)) ∧
    ∀ texts : List String, texts = (sort addresses).map toString ↔
      texts.Perm (addresses.map toString) ∧ texts.Pairwise (· ≤ ·) := by
  obtain ⟨hperm, hascending⟩ := texts_sort addresses
  refine ⟨toString_eq_iff, toString_lt_iff.symm, ?_, ?_⟩
  · apply List.map_mergeSort
    intro x _ y _
    simp only [toString_le_iff]
  · intro texts
    constructor
    · rintro rfl
      exact ⟨hperm, hascending⟩
    · rintro ⟨hsame, hordered⟩
      have hle : ∀ s t, s ∈ texts → t ∈ (sort addresses).map toString → s ≤ t → t ≤ s → s = t :=
        fun _ _ _ _ => String.le_antisymm
      exact List.Perm.eq_of_pairwise hle hordered hascending (hsame.trans hperm.symm)

end Dhcp.HardwareAddress
