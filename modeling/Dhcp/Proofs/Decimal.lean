import Dhcp.Address.Ipv4

/-!
Numbers in decimal and addresses in dotted text. The decimal text of a number has
digits only and begins with a zero for zero alone, so it is one of the spellings that
an octet of an address is read from. As no digit is a point, the text of an address
falls into the texts of its octets again.
-/
namespace Dhcp

theorem head?_toDigits_ne_zero {n : Nat} (h : n ≠ 0) : (Nat.toDigits 10 n).head? ≠ some '0' := by
  induction n using Nat.strongRecOn with
  | ind n ih =>
    by_cases hn : n < 10
    · rw [Nat.toDigits_of_lt_base hn]
      simpa using h
    · have hfront : (Nat.toDigits 10 (n / 10)).head? ≠ some '0' := ih (n / 10) (by omega) (by omega)
      obtain ⟨c, rest, hcons⟩ : ∃ c rest, Nat.toDigits 10 (n / 10) = c :: rest :=
        List.exists_cons_of_ne_nil Nat.toDigits_ne_nil
      rw [Nat.toDigits_of_base_le (by decide) (Nat.not_lt.mp hn), hcons]
      rwa [hcons] at hfront

theorem length_toDigits_of_head?_eq_zero {n : Nat} (h : (Nat.toDigits 10 n).head? = some '0') :
    (Nat.toDigits 10 n).length = 1 := by
  have hzero : n = 0 := Decidable.byContradiction fun hn => head?_toDigits_ne_zero hn h
  rw [hzero]
  rfl

/-- The first digits of a number are themselves the digits of one that is no larger. -/
theorem exists_toDigits_of_prefix {n : Nat} {front : List Char} (h : front <+: Nat.toDigits 10 n)
    (hne : front ≠ []) : ∃ m ≤ n, front = Nat.toDigits 10 m := by
  induction n using Nat.strongRecOn with
  | ind n ih =>
    by_cases hn : n < 10
    · rw [Nat.toDigits_of_lt_base hn] at h
      rcases List.prefix_cons_iff.mp h with hnil | ⟨rest, rfl, hrest⟩
      · exact absurd hnil hne
      · rw [List.prefix_nil.mp hrest]
        exact ⟨n, Nat.le_refl n, (Nat.toDigits_of_lt_base hn).symm⟩
    · rw [Nat.toDigits_of_base_le (by decide) (Nat.not_lt.mp hn)] at h
      rcases List.prefix_concat_iff.mp h with rfl | hshort
      · refine ⟨n, Nat.le_refl n, ?_⟩
        rw [Nat.toDigits_of_base_le (by decide) (Nat.not_lt.mp hn)]
      · obtain ⟨m, hm, heq⟩ := ih (n / 10) (by omega) hshort
        exact ⟨m, by omega, heq⟩

theorem isDigit_of_mem_toDigits {n : Nat} {c : Char} (h : c ∈ Nat.toDigits 10 n) :
    c.isDigit = true :=
  Nat.isDigit_of_mem_toDigits (by decide) (by decide) h

/-- A digit is that of its own value. -/
theorem digitChar_toNat_sub {d : Char} (h : d.isDigit = true) :
    d.toNat - '0'.toNat < 10 ∧ Nat.digitChar (d.toNat - '0'.toNat) = d := by
  rw [Char.isDigit, Bool.and_eq_true, decide_eq_true_eq, decide_eq_true_eq] at h
  have hlow : 48 ≤ d.toNat := UInt32.le_iff_toNat_le.mp h.1
  have hhigh : d.toNat ≤ 57 := UInt32.le_iff_toNat_le.mp h.2
  have hzero : '0'.toNat = 48 := rfl
  have hlt : d.toNat - 48 < 10 := by omega
  rw [hzero]
  refine ⟨hlt, Char.toNat_inj.mp ?_⟩
  rw [Nat.toNat_digitChar_of_lt_ten hlt]
  omega

/-- Digits behind those of a number other than zero. -/
theorem toDigits_ofDigitChars_append {ds : List Char} (hdigits : ∀ c ∈ ds, c.isDigit = true)
    {m : Nat} (hm : m ≠ 0) :
    Nat.toDigits 10 (Nat.ofDigitChars 10 ds m) = Nat.toDigits 10 m ++ ds := by
  induction ds generalizing m with
  | nil => rw [Nat.ofDigitChars_nil, List.append_nil]
  | cons d others ih =>
    obtain ⟨hlt, hchar⟩ := digitChar_toNat_sub (hdigits d List.mem_cons_self)
    have hothers : ∀ c ∈ others, c.isDigit = true :=
      fun c hc => hdigits c (List.mem_cons_of_mem d hc)
    rw [Nat.ofDigitChars_cons, ih hothers (by omega),
      Nat.toDigits_of_base_le (by decide) (by omega), Nat.mul_add_div (by decide),
      Nat.div_eq_of_lt hlt, Nat.add_zero, Nat.mul_add_mod, Nat.mod_eq_of_lt hlt, hchar,
      List.append_assoc, List.singleton_append]

/-- Digits that no needless zero leads are the digits of the number that they write. -/
theorem toDigits_ofDigitChars {ds : List Char} (hne : ds ≠ [])
    (hdigits : ∀ c ∈ ds, c.isDigit = true) (hzero : ds.head? = some '0' → ds.length = 1) :
    Nat.toDigits 10 (Nat.ofDigitChars 10 ds 0) = ds := by
  obtain ⟨d, others, rfl⟩ := List.exists_cons_of_ne_nil hne
  obtain ⟨hlt, hchar⟩ := digitChar_toNat_sub (hdigits d List.mem_cons_self)
  have hothers : ∀ c ∈ others, c.isDigit = true :=
    fun c hc => hdigits c (List.mem_cons_of_mem d hc)
  rw [Nat.ofDigitChars_cons, Nat.mul_zero, Nat.zero_add]
  by_cases hd : d.toNat - '0'.toNat = 0
  · rw [hd] at hchar
    have hlength := hzero (congrArg some hchar.symm)
    obtain rfl : others = [] := List.length_eq_zero_iff.mp (Nat.succ.inj hlength)
    rw [hd, ← hchar]
    rfl
  · rw [toDigits_ofDigitChars_append hothers hd, Nat.toDigits_of_lt_base hlt, hchar]
    rfl

theorem exists_toDigits_eq_cons (n : Nat) :
    ∃ d others, Nat.toDigits 10 n = d :: others ∧ d.isDigit = true := by
  obtain ⟨d, others, hcons⟩ : ∃ d others, Nat.toDigits 10 n = d :: others :=
    List.exists_cons_of_ne_nil Nat.toDigits_ne_nil
  refine ⟨d, others, hcons, ?_⟩
  apply isDigit_of_mem_toDigits
  rw [hcons]
  exact List.mem_cons_self

namespace Ipv4

theorem octet?_toDigits (o : UInt8) : octet? (Nat.toDigits 10 o.toNat) = some o := by
  have ho := o.toNat_lt
  have hlength : (Nat.toDigits 10 o.toNat).length ≤ 3 :=
    (Nat.length_toDigits_le_iff (by decide) (by decide)).mpr (Nat.lt_trans ho (by decide))
  have hall : (Nat.toDigits 10 o.toNat).all Char.isDigit = true :=
    List.all_eq_true.mpr fun c hc => isDigit_of_mem_toDigits hc
  have hvalue : Nat.ofDigitChars 10 (Nat.toDigits 10 o.toNat) 0 = o.toNat :=
    Nat.ofDigitChars_ten_toDigits
  have hle : o.toNat ≤ 255 := Nat.le_of_lt_succ ho
  rw [octet?, hvalue, UInt8.ofNat_toNat]
  exact if_pos ⟨Nat.toDigits_ne_nil, hlength, hall, length_toDigits_of_head?_eq_zero, hle⟩

theorem groups_of_not_mem {part : List Char} (h : '.' ∉ part) : groups part = [part] := by
  induction part with
  | nil => rfl
  | cons c rest ih =>
    simp only [List.mem_cons, not_or] at h
    rw [groups, if_neg (Ne.symm h.1), ih h.2]

theorem groups_append_point {part : List Char} (h : '.' ∉ part) (rest : List Char) :
    groups (part ++ '.' :: rest) = part :: groups rest := by
  induction part with
  | nil => rfl
  | cons c others ih =>
    simp only [List.mem_cons, not_or] at h
    rw [List.cons_append, groups, if_neg (Ne.symm h.1), ih h.2]

theorem point_not_mem_toDigits (n : Nat) : '.' ∉ Nat.toDigits 10 n := by
  intro h
  have hdigit := isDigit_of_mem_toDigits h
  revert hdigit
  decide

/-- The text of an address is that of its four octets. -/
theorem exists_text (address : Ipv4) : ∃ a b c d : UInt8, address = ofParts a b c d ∧
    address.text = Nat.toDigits 10 a.toNat ++ '.' :: (Nat.toDigits 10 b.toNat ++
      '.' :: (Nat.toDigits 10 c.toNat ++ '.' :: Nat.toDigits 10 d.toNat)) := by
  obtain ⟨octets, rfl⟩ : ∃ octets, address = ofOctets octets := ⟨_, address.ofOctets_octets.symm⟩
  obtain ⟨bytes, hlength⟩ := octets
  match bytes, hlength with
  | [a, b, c, d], _ =>
    refine ⟨a, b, c, d, rfl, ?_⟩
    rw [text, octets_ofOctets]
    simp only [List.map_cons, List.map_nil, List.intercalate_cons_cons, List.intercalate_singleton,
      List.append_assoc, List.singleton_append]

/-- The text of an address is read as that address. -/
theorem ofText?_text (address : Ipv4) : ofText? address.text = some address := by
  obtain ⟨a, b, c, d, rfl, htext⟩ := address.exists_text
  have hgroups : groups (ofParts a b c d).text =
      [Nat.toDigits 10 a.toNat, Nat.toDigits 10 b.toNat, Nat.toDigits 10 c.toNat,
        Nat.toDigits 10 d.toNat] := by
    rw [htext, groups_append_point (point_not_mem_toDigits _),
      groups_append_point (point_not_mem_toDigits _),
      groups_append_point (point_not_mem_toDigits _), groups_of_not_mem (point_not_mem_toDigits _)]
  rw [ofText?, hgroups]
  simp only [octet?_toDigits]
  rfl

/-- An octet is read from its shortest spelling only. -/
theorem eq_toDigits_of_octet? {digits : List Char} {o : UInt8} (h : octet? digits = some o) :
    digits = Nat.toDigits 10 o.toNat := by
  unfold octet? at h
  split at h
  · next hdigits =>
    obtain ⟨hne, -, hall, hzero, hle⟩ := hdigits
    obtain rfl := Option.some.inj h
    rw [UInt8.toNat_ofNat_of_lt' (Nat.lt_succ_of_le hle)]
    exact (toDigits_ofDigitChars hne (List.all_eq_true.mp hall) hzero).symm
  · cases h

theorem groups_ne_nil (s : List Char) : groups s ≠ [] := by
  cases s with
  | nil => exact List.cons_ne_nil _ _
  | cons c rest =>
    rw [groups]
    split
    · exact List.cons_ne_nil _ _
    · split <;> exact List.cons_ne_nil _ _

/-- A text is its stretches with the points between them. -/
theorem intercalate_groups (s : List Char) : List.intercalate ['.'] (groups s) = s := by
  induction s with
  | nil => rfl
  | cons c rest ih =>
    obtain ⟨first, more, hgroups⟩ := List.exists_cons_of_ne_nil (groups_ne_nil rest)
    rw [hgroups] at ih
    rw [groups, hgroups]
    split
    · next hpoint =>
      rw [List.intercalate_cons_cons, ih, hpoint]
      rfl
    · cases more with
      | nil =>
        rw [List.intercalate_singleton] at ih ⊢
        rw [ih]
      | cons second others =>
        rw [List.intercalate_cons_cons] at ih ⊢
        rw [List.cons_append, List.cons_append, ih]

/-- An address is read from its own text only. -/
theorem eq_text_of_ofText? {s : List Char} {address : Ipv4} (h : ofText? s = some address) :
    s = address.text := by
  unfold ofText? at h
  split at h
  · next a b c d hgroups =>
    simp only [Option.bind_eq_bind, Option.bind_eq_some_iff, Option.pure_def,
      Option.some.injEq] at h
    obtain ⟨o₁, h₁, o₂, h₂, o₃, h₃, o₄, h₄, rfl⟩ := h
    rw [← intercalate_groups s, hgroups, text, ofParts, octets_ofOctets,
      eq_toDigits_of_octet? h₁, eq_toDigits_of_octet? h₂, eq_toDigits_of_octet? h₃,
      eq_toDigits_of_octet? h₄]
    rfl
  · cases h

theorem text_inj {a b : Ipv4} (h : a.text = b.text) : a = b := by
  have hread := ofText?_text a
  rw [h, ofText?_text] at hread
  exact (Option.some.inj hread).symm

/-- The text of an address has digits and points only. -/
theorem isDigit_or_point_of_mem_text {address : Ipv4} {c : Char} (h : c ∈ address.text) :
    c.isDigit = true ∨ c = '.' := by
  obtain ⟨_, _, _, _, -, htext⟩ := address.exists_text
  simp only [htext, List.mem_append, List.mem_cons] at h
  rcases h with h | h | h | h | h | h | h
  · exact .inl (isDigit_of_mem_toDigits h)
  · exact .inr h
  · exact .inl (isDigit_of_mem_toDigits h)
  · exact .inr h
  · exact .inl (isDigit_of_mem_toDigits h)
  · exact .inr h
  · exact .inl (isDigit_of_mem_toDigits h)

end Ipv4

end Dhcp
