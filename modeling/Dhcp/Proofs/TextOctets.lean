import Dhcp.Wire.Utf8

/-!
Text written in octets and read again. A character takes one to four octets by the size
of its number. The first octet sets a range for the second, and these ranges let pass
exactly the numbers that are written so; each octet behind the first carries six bits.
Nothing that stands behind a character has an influence on how it is read. And nothing but the
octets of a character is read as that character.
-/
namespace Dhcp.Utf8

/-- The lead of an octet by its number. -/
theorem lead?_ofNat {n : Nat} (h : n < UInt8.size) : lead? (UInt8.ofNat n) =
    if n < 194 then none
    else if n < 224 then some ⟨n - 192, 0x80, 0xBF, 0⟩
    else if n < 240 then
      some ⟨n - 224, if n = 224 then 0xA0 else 0x80, if n = 237 then 0x9F else 0xBF, 1⟩
    else if n < 245 then
      some ⟨n - 240, if n = 240 then 0x90 else 0x80, if n = 244 then 0x8F else 0xBF, 2⟩
    else none := by
  unfold lead?
  simp only [UInt8.lt_iff_toNat_lt, ← UInt8.toNat_inj, UInt8.toNat_ofNat_of_lt' h]
  rfl

/-- An octet behind the first adds six bits. -/
theorem continuation_ofNat {more number bits : Nat} (hbits : bits < 64) (rest : List UInt8) :
    continuation (more + 1) number (UInt8.ofNat (bits + 128) :: rest) =
      continuation more (number * 64 + bits) rest := by
  have hoctet : (UInt8.ofNat (bits + 128)).toNat = bits + 128 :=
    UInt8.toNat_ofNat_of_lt' (Nat.lt_of_lt_of_le (Nat.add_lt_add_right hbits 128) (by decide))
  have hrange : 0x80 ≤ UInt8.ofNat (bits + 128) ∧ UInt8.ofNat (bits + 128) ≤ 0xBF := by
    rw [UInt8.le_iff_toNat_le, UInt8.le_iff_toNat_le, hoctet]
    change 128 ≤ bits + 128 ∧ bits + 128 ≤ 191
    omega
  rw [continuation, if_pos hrange, hoctet, Nat.add_sub_cancel]

/-- The step over a character of several octets begins with the bits of the first two. -/
theorem step_of_lead? {lead : Lead} {n bits : Nat} (hn : 128 ≤ n) (hsize : n < UInt8.size)
    (hlead : lead? (UInt8.ofNat n) = some lead) (hlow : lead.low.toNat ≤ bits + 128)
    (hhigh : bits + 128 ≤ lead.high.toNat) (rest : List UInt8) :
    step (UInt8.ofNat n) (UInt8.ofNat (bits + 128) :: rest) =
      continuation lead.more (lead.payload * 64 + bits) rest := by
  have hoctet : (UInt8.ofNat (bits + 128)).toNat = bits + 128 :=
    UInt8.toNat_ofNat_of_lt' (Nat.lt_of_le_of_lt hhigh lead.high.toNat_lt)
  have hfirst : ¬ UInt8.ofNat n < 0x80 := by
    rw [UInt8.lt_iff_toNat_lt, UInt8.toNat_ofNat_of_lt' hsize]
    exact Nat.not_lt.mpr hn
  have hrange : lead.low ≤ UInt8.ofNat (bits + 128) ∧ UInt8.ofNat (bits + 128) ≤ lead.high := by
    rw [UInt8.le_iff_toNat_le, UInt8.le_iff_toNat_le, hoctet]
    exact ⟨hlow, hhigh⟩
  have hadded : (UInt8.ofNat (bits + 128)).toNat - 128 = bits := by
    rw [hoctet, Nat.add_sub_cancel]
  simp only [step, if_neg hfirst, hlead, if_pos hrange]
  exact congrArg (fun added => continuation lead.more (lead.payload * 64 + added) rest) hadded

variable {v : Nat}

theorem step_one (hone : v ≤ 127) (rest : List UInt8) :
    step (UInt8.ofNat v) rest = (some (Char.ofNat v), rest) := by
  have hoctet : (UInt8.ofNat v).toNat = v :=
    UInt8.toNat_ofNat_of_lt' (Nat.lt_of_le_of_lt hone (by decide))
  have hfirst : UInt8.ofNat v < 0x80 := by
    rw [UInt8.lt_iff_toNat_lt, hoctet]
    exact Nat.lt_succ_of_le hone
  unfold step
  rw [if_pos hfirst, hoctet]

theorem step_two (hone : 127 < v) (htwo : v ≤ 2047) (rest : List UInt8) :
    step (UInt8.ofNat (v / 64 % 32 + 192)) (UInt8.ofNat (v % 64 + 128) :: rest) =
      (some (Char.ofNat v), rest) := by
  have hsize : v / 64 % 32 + 192 < UInt8.size := by
    change _ < 256
    omega
  have hlead := lead?_ofNat hsize
  rw [if_neg (by omega), if_pos (by omega)] at hlead
  have hhigh : v % 64 + 128 ≤ UInt8.toNat 0xBF := by
    change _ ≤ 191
    omega
  have hnumber : (v / 64 % 32 + 192 - 192) * 64 + v % 64 = v := by omega
  rw [step_of_lead? (by omega) hsize hlead (Nat.le_add_left _ _) hhigh, continuation, hnumber]

/-- The ranges for the second octet keep out numbers written too long and surrogates. -/
theorem step_three (htwo : 2047 < v) (hthree : v ≤ 65535) (hvalid : v < 55296 ∨ 57343 < v)
    (rest : List UInt8) :
    step (UInt8.ofNat (v / 4096 % 16 + 224))
        (UInt8.ofNat (v / 64 % 64 + 128) :: UInt8.ofNat (v % 64 + 128) :: rest) =
      (some (Char.ofNat v), rest) := by
  have hsize : v / 4096 % 16 + 224 < UInt8.size := by
    change _ < 256
    omega
  have hlead := lead?_ofNat hsize
  rw [if_neg (by omega), if_neg (by omega), if_pos (by omega)] at hlead
  have hlow : UInt8.toNat (if v / 4096 % 16 + 224 = 224 then 0xA0 else 0x80) ≤
      v / 64 % 64 + 128 := by
    rw [apply_ite UInt8.toNat]
    change (if v / 4096 % 16 + 224 = 224 then 160 else 128) ≤ _
    split <;> omega
  have hhigh : v / 64 % 64 + 128 ≤
      UInt8.toNat (if v / 4096 % 16 + 224 = 237 then 0x9F else 0xBF) := by
    rw [apply_ite UInt8.toNat]
    change _ ≤ (if v / 4096 % 16 + 224 = 237 then 159 else 191)
    split <;> omega
  have hnumber : ((v / 4096 % 16 + 224 - 224) * 64 + v / 64 % 64) * 64 + v % 64 = v := by omega
  rw [step_of_lead? (by omega) hsize hlead hlow hhigh,
    continuation_ofNat (Nat.mod_lt v (by decide)), continuation, hnumber]

/-- The ranges for the second octet keep out numbers written too long and those past the last
character. -/
theorem step_four (hthree : 65535 < v) (hfour : v < 1114112) (rest : List UInt8) :
    step (UInt8.ofNat (v / 262144 % 8 + 240))
        (UInt8.ofNat (v / 4096 % 64 + 128) :: UInt8.ofNat (v / 64 % 64 + 128) ::
          UInt8.ofNat (v % 64 + 128) :: rest) =
      (some (Char.ofNat v), rest) := by
  have hsize : v / 262144 % 8 + 240 < UInt8.size := by
    change _ < 256
    omega
  have hlead := lead?_ofNat hsize
  rw [if_neg (by omega), if_neg (by omega), if_neg (by omega), if_pos (by omega)] at hlead
  have hlow : UInt8.toNat (if v / 262144 % 8 + 240 = 240 then 0x90 else 0x80) ≤
      v / 4096 % 64 + 128 := by
    rw [apply_ite UInt8.toNat]
    change (if v / 262144 % 8 + 240 = 240 then 144 else 128) ≤ _
    split <;> omega
  have hhigh : v / 4096 % 64 + 128 ≤
      UInt8.toNat (if v / 262144 % 8 + 240 = 244 then 0x8F else 0xBF) := by
    rw [apply_ite UInt8.toNat]
    change _ ≤ (if v / 262144 % 8 + 240 = 244 then 143 else 191)
    split <;> omega
  have hnumber : (((v / 262144 % 8 + 240 - 240) * 64 + v / 4096 % 64) * 64 + v / 64 % 64) * 64 +
      v % 64 = v := by omega
  rw [step_of_lead? (by omega) hsize hlead hlow hhigh,
    continuation_ofNat (Nat.mod_lt _ (by decide)), continuation_ofNat (Nat.mod_lt v (by decide)),
    continuation, hnumber]

/-- The step over a written character takes its octets and no others. -/
theorem step_utf8EncodeChar (c : Char) (rest : List UInt8) :
    ∃ first more, String.utf8EncodeChar c = first :: more ∧
      step first (more ++ rest) = (some c, rest) := by
  have hvalid : c.val.toNat < 55296 ∨ 57343 < c.val.toNat ∧ c.val.toNat < 1114112 := c.valid
  have hread : Char.ofNat c.val.toNat = c := Char.ofNat_toNat c
  rw [String.utf8EncodeChar.eq_1]
  split
  · next hone => exact ⟨_, _, rfl, by rw [List.nil_append, step_one hone, hread]⟩
  · next hone =>
    split
    · next htwo =>
      refine ⟨_, _, rfl, ?_⟩
      rw [List.cons_append, List.nil_append, step_two (Nat.not_le.mp hone) htwo, hread]
    · next htwo =>
      split
      · next hthree =>
        refine ⟨_, _, rfl, ?_⟩
        rw [List.cons_append, List.cons_append, List.nil_append,
          step_three (Nat.not_le.mp htwo) hthree (hvalid.imp_right And.left), hread]
      · next hthree =>
        refine ⟨_, _, rfl, ?_⟩
        rw [List.cons_append, List.cons_append, List.cons_append, List.nil_append,
          step_four (Nat.not_le.mp hthree) (by omega), hread]

section

/-- A number without the bits that its last octets carry, six bits in each. -/
def leading : Nat → Nat → Nat
  | 0, n => n
  | more + 1, n => leading more n / 64

/-- The octets behind the first one of a number. -/
def trail : Nat → Nat → List UInt8
  | 0, _ => []
  | more + 1, n => UInt8.ofNat (leading more n % 64 + 128) :: trail more n

variable {first : UInt8} {rest behind : List UInt8} {c : Char} {n : Nat}

/-- The last six bits of a number are those of the octet that added them. -/
theorem eq_of_added {b : UInt8} {number : Nat} (hlow : 0x80 ≤ b) (hhigh : b ≤ 0xBF)
    (hn : n = number * 64 + (b.toNat - 0x80)) : n / 64 = number ∧ n % 64 + 128 = b.toNat := by
  have hle : 128 ≤ b.toNat := UInt8.le_iff_toNat_le.mp hlow
  have hge : b.toNat ≤ 191 := UInt8.le_iff_toNat_le.mp hhigh
  change n = number * 64 + (b.toNat - 128) at hn
  omega

/-- What is read behind the first bits of a number are the other bits of one. -/
theorem exists_trail_of_continuation {more number : Nat} {bytes : List UInt8}
    (h : continuation more number bytes = (some c, behind)) :
    ∃ n, leading more n = number ∧ c = Char.ofNat n ∧ bytes = trail more n ++ behind := by
  induction more generalizing number bytes with
  | zero =>
    cases h
    exact ⟨number, rfl, rfl, rfl⟩
  | succ more ih =>
    cases bytes with
    | nil => cases h
    | cons b tail =>
      rw [continuation] at h
      split at h
      · next hrange =>
        obtain ⟨n, hn, hc, htail⟩ := ih h
        obtain ⟨hnumber, hlast⟩ := eq_of_added hrange.1 hrange.2 hn
        refine ⟨n, ?_, hc, ?_⟩
        · rw [leading, hnumber]
        · rw [trail, hlast, UInt8.ofNat_toNat, htail, List.cons_append]
      · cases h

theorem lead?_cases {lead : Lead} (h : lead? first = some lead) :
    (194 ≤ first.toNat ∧ first.toNat < 224 ∧ lead = ⟨first.toNat - 192, 0x80, 0xBF, 0⟩) ∨
    (224 ≤ first.toNat ∧ first.toNat < 240 ∧ lead = ⟨first.toNat - 224,
      if first.toNat = 224 then 0xA0 else 0x80, if first.toNat = 237 then 0x9F else 0xBF, 1⟩) ∨
    (240 ≤ first.toNat ∧ first.toNat < 245 ∧ lead = ⟨first.toNat - 240,
      if first.toNat = 240 then 0x90 else 0x80, if first.toNat = 244 then 0x8F else 0xBF, 2⟩) := by
  have hlead := lead?_ofNat first.toNat_lt
  rw [UInt8.ofNat_toNat, h] at hlead
  split at hlead
  · cases hlead
  · next hlow =>
    split at hlead
    · next htwo => exact .inl ⟨Nat.not_lt.mp hlow, htwo, Option.some.inj hlead⟩
    · next htwo =>
      split at hlead
      · next hthree => exact .inr (.inl ⟨Nat.not_lt.mp htwo, hthree, Option.some.inj hlead⟩)
      · next hthree =>
        split at hlead
        · next hfour => exact .inr (.inr ⟨Nat.not_lt.mp hthree, hfour, Option.some.inj hlead⟩)
        · cases hlead

/-- The range for the second octet never goes beyond that of all octets behind the first. -/
theorem lead?_range {lead : Lead} (h : lead? first = some lead) :
    0x80 ≤ lead.low ∧ lead.high ≤ 0xBF := by
  rcases lead?_cases h with ⟨-, -, rfl⟩ | ⟨-, -, rfl⟩ | ⟨-, -, rfl⟩
  · exact ⟨UInt8.le_refl _, UInt8.le_refl _⟩
  · constructor
    · change 0x80 ≤ if first.toNat = 224 then _ else _
      split <;> decide
    · change (if first.toNat = 237 then _ else _) ≤ 0xBF
      split <;> decide
  · constructor
    · change 0x80 ≤ if first.toNat = 240 then _ else _
      split <;> decide
    · change (if first.toNat = 244 then _ else _) ≤ 0xBF
      split <;> decide

/-- A character of several octets: the number it has, as the first two octets begin it. -/
theorem exists_trail_of_step (hfirst : ¬ first < 0x80) (h : step first rest = (some c, behind)) :
    ∃ lead n, lead? first = some lead ∧ leading (lead.more + 1) n = lead.payload ∧
      lead.low.toNat ≤ leading lead.more n % 64 + 128 ∧
      leading lead.more n % 64 + 128 ≤ lead.high.toNat ∧
      c = Char.ofNat n ∧ rest = trail (lead.more + 1) n ++ behind := by
  unfold step at h
  rw [if_neg hfirst] at h
  split at h
  · next lead b tail hlead =>
    split at h
    · next hrange =>
      obtain ⟨hlow, hhigh⟩ := lead?_range hlead
      obtain ⟨n, hn, hc, htail⟩ := exists_trail_of_continuation h
      obtain ⟨hpayload, hlast⟩ := eq_of_added (UInt8.le_trans hlow hrange.1)
        (UInt8.le_trans hrange.2 hhigh) hn
      refine ⟨lead, n, hlead, hpayload, ?_, ?_, hc, ?_⟩
      · rw [hlast]
        exact UInt8.le_iff_toNat_le.mp hrange.1
      · rw [hlast]
        exact UInt8.le_iff_toNat_le.mp hrange.2
      · rw [trail, hlast, UInt8.ofNat_toNat, htail, List.cons_append]
    · cases h
  · cases h

theorem toNat_val_ofNat (h : n.isValidChar) : (Char.ofNat n).val.toNat = n := by
  rw [Char.ofNat, dif_pos h]
  rfl

theorem encodeChar_one (hone : n ≤ 127) :
    String.utf8EncodeChar (Char.ofNat n) = [UInt8.ofNat n] := by
  rw [String.utf8EncodeChar.eq_1, toNat_val_ofNat (.inl (by omega)), if_pos hone]

theorem encodeChar_two (hone : 127 < n) (htwo : n ≤ 2047) :
    String.utf8EncodeChar (Char.ofNat n) = UInt8.ofNat (n / 64 % 32 + 192) :: trail 1 n := by
  rw [String.utf8EncodeChar.eq_1, toNat_val_ofNat (.inl (by omega)), if_neg (Nat.not_le.mpr hone),
    if_pos htwo]
  rfl

theorem encodeChar_three (htwo : 2047 < n) (hthree : n ≤ 65535) (hvalid : n.isValidChar) :
    String.utf8EncodeChar (Char.ofNat n) = UInt8.ofNat (n / 4096 % 16 + 224) :: trail 2 n := by
  rw [String.utf8EncodeChar.eq_1, toNat_val_ofNat hvalid, if_neg (by omega),
    if_neg (Nat.not_le.mpr htwo), if_pos hthree]
  rfl

theorem encodeChar_four (hthree : 65535 < n) (hfour : n < 1114112) :
    String.utf8EncodeChar (Char.ofNat n) = UInt8.ofNat (n / 262144 % 8 + 240) :: trail 3 n := by
  have hsecond : n / 64 / 64 = n / 4096 := Nat.div_div_eq_div_mul n 64 64
  rw [String.utf8EncodeChar.eq_1, toNat_val_ofNat (.inr (by omega)), if_neg (by omega),
    if_neg (by omega), if_neg (Nat.not_le.mpr hthree), ← hsecond]
  rfl

/-- What a step takes for a character are the octets that the character is written in. -/
theorem eq_encodeChar_of_step (h : step first rest = (some c, behind)) :
    first :: rest = String.utf8EncodeChar c ++ behind := by
  have hself : UInt8.ofNat first.toNat = first := UInt8.ofNat_toNat
  by_cases hfirst : first < 0x80
  · have hone : first.toNat ≤ 127 := Nat.le_of_lt_succ (UInt8.lt_iff_toNat_lt.mp hfirst)
    unfold step at h
    rw [if_pos hfirst] at h
    cases h
    rw [encodeChar_one hone, hself, List.singleton_append]
  · obtain ⟨lead, n, hlead, hpayload, hlow, hhigh, rfl, rfl⟩ := exists_trail_of_step hfirst h
    rcases lead?_cases hlead with ⟨hmin, hmax, rfl⟩ | ⟨hmin, hmax, rfl⟩ | ⟨hmin, hmax, rfl⟩
    · change n / 64 = first.toNat - 192 at hpayload
      have hnumber : n / 64 % 32 + 192 = first.toNat := by omega
      rw [encodeChar_two (by omega) (by omega), hnumber, hself, List.cons_append]
    · change n / 64 / 64 = first.toNat - 224 at hpayload
      have hshort : first.toNat = 224 → 160 ≤ n / 64 % 64 + 128 := by
        intro heq
        rwa [if_pos heq] at hlow
      have hsurrogate : first.toNat = 237 → n / 64 % 64 + 128 ≤ 159 := by
        intro heq
        rwa [if_pos heq] at hhigh
      have hvalid : n < 55296 ∨ 57343 < n ∧ n < 1114112 := by omega
      have hnumber : n / 4096 % 16 + 224 = first.toNat := by omega
      rw [encodeChar_three (by omega) (by omega) hvalid, hnumber, hself, List.cons_append]
    · change n / 64 / 64 / 64 = first.toNat - 240 at hpayload
      have hshort : first.toNat = 240 → 144 ≤ n / 64 / 64 % 64 + 128 := by
        intro heq
        rwa [if_pos heq] at hlow
      have hlast : first.toNat = 244 → n / 64 / 64 % 64 + 128 ≤ 143 := by
        intro heq
        rwa [if_pos heq] at hhigh
      have hnumber : n / 262144 % 8 + 240 = first.toNat := by omega
      rw [encodeChar_four (by omega) (by omega), hnumber, hself, List.cons_append]

/-- A step takes a character exactly where the octets of the character stand. -/
theorem step_eq_some_iff :
    step first rest = (some c, behind) ↔ first :: rest = String.utf8EncodeChar c ++ behind := by
  refine ⟨eq_encodeChar_of_step, ?_⟩
  intro h
  obtain ⟨other, more, hoctets, hstep⟩ := step_utf8EncodeChar c behind
  rw [hoctets] at h
  obtain ⟨rfl, rfl⟩ := List.cons.inj h
  exact hstep

end

/-- A written text is read off whole, whatever octets stand behind it. -/
theorem scan_encode_append (text : List Char) (rest : List UInt8) :
    scan (encode text ++ rest) = text.map some ++ scan rest := by
  induction text with
  | nil => rfl
  | cons c others ih =>
    obtain ⟨first, more, hoctets, hstep⟩ := step_utf8EncodeChar c (encode others ++ rest)
    have hencode : encode (c :: others) ++ rest = first :: (more ++ (encode others ++ rest)) := by
      rw [encode, List.flatMap_cons, hoctets, ← encode, List.append_assoc, List.cons_append]
    rw [hencode, scan, hstep, ih]
    rfl

theorem decode?_encode (text : List Char) : decode? (encode text) = some text := by
  have hscan := scan_encode_append text []
  rw [List.append_nil, scan, List.append_nil] at hscan
  rw [decode?, hscan, List.mapM_map]
  exact List.mapM_pure.trans (congrArg some text.map_id)

/-- A text of which every character takes a single octet. -/
def Ascii (text : List Char) : Prop := ∀ c ∈ text, c.val.toNat ≤ 127

theorem ascii_cons {c : Char} {rest : List Char} : Ascii (c :: rest) ↔ c.val.toNat ≤ 127 ∧ Ascii rest :=
  List.forall_mem_cons

theorem ascii_append {front rest : List Char} : Ascii (front ++ rest) ↔ Ascii front ∧ Ascii rest :=
  List.forall_mem_append

theorem encode_of_ascii {text : List Char} (h : Ascii text) :
    encode text = text.map fun c => UInt8.ofNat c.val.toNat := by
  induction text with
  | nil => rfl
  | cons c rest ih =>
    obtain ⟨hc, hrest⟩ := ascii_cons.mp h
    rw [encode, List.flatMap_cons, ← encode, ih hrest, String.utf8EncodeChar.eq_1, if_pos hc]
    rfl

/-- A cut through the octets of such a text is a cut through the text. -/
theorem take_encode {text : List Char} (h : Ascii text) (n : Nat) :
    (encode text).take n = encode (text.take n) := by
  have htake : Ascii (text.take n) := fun c hc => h c (List.mem_of_mem_take hc)
  rw [encode_of_ascii h, encode_of_ascii htake, List.map_take]

theorem length_encode_of_ascii {text : List Char} (h : Ascii text) :
    (encode text).length = text.length := by
  rw [encode_of_ascii h, List.length_map]

end Dhcp.Utf8
