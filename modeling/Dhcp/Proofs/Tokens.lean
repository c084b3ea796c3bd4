import Dhcp.Json.Number
import Dhcp.Json.Text
import Dhcp.Proofs.Decimal
import Mathlib.Data.List.Forall2

/-!
The tokens of JSON text, read off the front of a text with anything behind them. Blanks
may stand before a token. A string of plain characters reads as it is written, and the
decimal text of a number as that number when 64 bits hold it and no number goes on
behind it. Entries are told apart by what leads to them: nothing but blanks for the
first one, a comma as well for the others.
-/
namespace Dhcp.Json

variable {ε α β : Type} {s : List Char}

/-- A value is taken off the front of a text, and the rest is left. -/
def Takes (result : Except ε (Taken s α)) (value : α) (rest : List Char) : Prop :=
  ∃ shorter, result = .ok ⟨value, rest, shorter⟩

theorem Takes.map {result : Except ε (Taken s α)} {value : α} {rest : List Char}
    (h : Takes result value rest) (f : α → β) :
    Takes (result.map fun t => t.map f) (f value) rest := by
  obtain ⟨shorter, rfl⟩ := h
  exact ⟨shorter, rfl⟩

/-- What is made of a value that is taken comes from such a value. -/
theorem Takes.of_map {t : List Char} {result : Except ε (Taken s α)} {f : Taken s α → Taken t β}
    {value : β} {rest : List Char} (h : Takes (result.map f) value rest) :
    ∃ taken, Takes result taken.value taken.rest ∧ (f taken).value = value ∧
      (f taken).rest = rest := by
  obtain ⟨_, h⟩ := h
  cases result with
  | error fault => cases h
  | ok taken =>
    have heq := Except.ok.inj h
    exact ⟨taken, ⟨taken.shorter, rfl⟩, congrArg Taken.value heq, congrArg Taken.rest heq⟩

theorem Takes.unique {result : Except ε (Taken s α)} {value other : α} {rest behind : List Char}
    (h : Takes result value rest) (hother : Takes result other behind) :
    value = other ∧ rest = behind := by
  obtain ⟨_, h⟩ := h
  obtain ⟨_, hother⟩ := hother
  exact ⟨congrArg Taken.value (Except.ok.inj (h.symm.trans hother)),
    congrArg Taken.rest (Except.ok.inj (h.symm.trans hother))⟩

/-- Characters that may stand between tokens, and no others. -/
def Blank (blanks : List Char) : Prop := ∀ c ∈ blanks, isBlank c = true

theorem blank_nil : Blank [] := List.forall_mem_nil _

theorem skipBlank_append {blanks : List Char} (h : Blank blanks) {c : Char}
    (hc : isBlank c = false) (rest : List Char) :
    skipBlank (blanks ++ c :: rest) =
      ⟨c :: rest, (List.sublist_append_right blanks (c :: rest)).length_le⟩ := by
  apply Subtype.ext
  change (blanks ++ c :: rest).dropWhile isBlank = c :: rest
  rw [List.dropWhile_append_of_pos h, List.dropWhile_cons_of_neg (by simp [hc])]

theorem skipBlank_of_blank {blanks : List Char} (h : Blank blanks) :
    skipBlank blanks = ⟨[], Nat.zero_le _⟩ := by
  apply Subtype.ext
  have hall : (blanks ++ []).dropWhile isBlank = [].dropWhile isBlank :=
    List.dropWhile_append_of_pos h
  rwa [List.append_nil] at hall

/-- A character that stands in a string for itself. -/
def Plain (c : Char) : Prop := c ≠ '"' ∧ c ≠ '\\' ∧ ¬ c < ' '

instance : DecidablePred Plain := fun _ => inferInstanceAs (Decidable (_ ∧ _))

/-- A digit is none of the characters that are no digits. -/
theorem ne_of_isDigit {c d : Char} (hc : c.isDigit = true) (hd : d.isDigit = false) : c ≠ d := by
  intro heq
  rw [heq, hd] at hc
  exact Bool.noConfusion hc

theorem isBlank_of_isDigit {c : Char} (h : c.isDigit = true) : isBlank c = false := by
  have hspace : c ≠ ' ' := ne_of_isDigit h rfl
  have hline : c ≠ '\n' := ne_of_isDigit h rfl
  have htabulator : c ≠ '\t' := ne_of_isDigit h rfl
  have hreturn : c ≠ '\r' := ne_of_isDigit h rfl
  simp only [isBlank, Bool.or_eq_false_iff, beq_eq_false_iff_ne]
  exact ⟨⟨⟨hspace, hline⟩, htabulator⟩, hreturn⟩

theorem plain_of_isDigit {c : Char} (h : c.isDigit = true) : Plain c := by
  have hzero : '0' ≤ c := by
    rw [Char.isDigit, Bool.and_eq_true, decide_eq_true_eq] at h
    exact h.1
  have hspace : ' ' ≤ '0' := by decide
  exact ⟨ne_of_isDigit h rfl, ne_of_isDigit h rfl, Char.not_lt.mpr (Char.le_trans hspace hzero)⟩

/-- No number goes on at the front of a text. -/
def EndsNumber (rest : List Char) : Prop :=
  ∀ c more, rest = c :: more → c.isDigit = false ∧ c ≠ '.' ∧ c ≠ 'e' ∧ c ≠ 'E'

theorem endsNumber_cons {c : Char} (hdigit : c.isDigit = false)
    (hletter : c ≠ '.' ∧ c ≠ 'e' ∧ c ≠ 'E') (rest : List Char) : EndsNumber (c :: rest) := by
  intro d more heq
  obtain ⟨rfl, -⟩ := List.cons.inj heq
  exact ⟨hdigit, hletter⟩

theorem Blank.endsNumber {blanks rest : List Char} (h : Blank blanks) (hrest : EndsNumber rest) :
    EndsNumber (blanks ++ rest) := by
  cases blanks with
  | nil => exact hrest
  | cons c more =>
    have hc : isBlank c = true := h c List.mem_cons_self
    simp only [isBlank, Bool.or_eq_true, beq_iff_eq] at hc
    apply endsNumber_cons
    · rcases hc with ((rfl | rfl) | rfl) | rfl <;> rfl
    · rcases hc with ((rfl | rfl) | rfl) | rfl <;> decide

/-- No digit stands at the front of a text. -/
def EndsDigits (rest : List Char) : Prop := ∀ c more, rest = c :: more → c.isDigit = false

theorem EndsNumber.endsDigits {rest : List Char} (h : EndsNumber rest) : EndsDigits rest :=
  fun c more heq => (h c more heq).1

/-- Digits, one of them at least. -/
def Digits (ds : List Char) : Prop := ds ≠ [] ∧ ∀ c ∈ ds, c.isDigit = true

theorem digits_toDigits (n : Nat) : Digits (Nat.toDigits 10 n) :=
  ⟨Nat.toDigits_ne_nil, fun _ hc => isDigit_of_mem_toDigits hc⟩

theorem Digits.exists_cons {ds : List Char} (h : Digits ds) :
    ∃ d others, ds = d :: others ∧ d.isDigit = true ∧ ∀ c ∈ others, c.isDigit = true := by
  obtain ⟨d, others, rfl⟩ := List.exists_cons_of_ne_nil h.1
  exact ⟨d, others, rfl, h.2 d List.mem_cons_self, fun c hc => h.2 c (List.mem_cons_of_mem d hc)⟩

theorem digits_append (missing : List Char → Fault) {ds rest : List Char} (h : Digits ds)
    (hrest : EndsDigits rest) : Takes (digits missing (ds ++ rest)) ds rest := by
  have htake : rest.takeWhile Char.isDigit = [] ∧ rest.dropWhile Char.isDigit = rest := by
    cases rest with
    | nil => exact ⟨rfl, rfl⟩
    | cons c more => simp [hrest c more rfl]
  obtain ⟨d, others, rfl, hd, hothers⟩ := h.exists_cons
  rw [List.cons_append, digits, if_pos hd]
  refine ⟨?_, ?_⟩
  · rw [List.length_cons, List.length_append]
    omega
  · simp only [List.takeWhile_append_of_pos hothers, List.dropWhile_append_of_pos hothers, htake,
      List.append_nil]
    rfl

/-- The text of the digits behind the point: nothing when there are none. -/
inductive FractionText : List Char → List Char → Prop
  | none : FractionText [] []
  | some {ds : List Char} (h : Digits ds) : FractionText ds ('.' :: ds)

/-- The text of the power of ten. Only a negative power needs its sign. -/
inductive ExponentText : Option (Bool × List Char) → List Char → Prop
  | none : ExponentText none []
  | bare {letter : Char} {ds : List Char} (hletter : letter = 'e' ∨ letter = 'E') (h : Digits ds) :
    ExponentText (some (false, ds)) (letter :: ds)
  | plus {letter : Char} {ds : List Char} (hletter : letter = 'e' ∨ letter = 'E') (h : Digits ds) :
    ExponentText (some (false, ds)) (letter :: '+' :: ds)
  | minus {letter : Char} {ds : List Char} (hletter : letter = 'e' ∨ letter = 'E') (h : Digits ds) :
    ExponentText (some (true, ds)) (letter :: '-' :: ds)

/-- The text of a number from its parts. A zero leads no other digits. -/
structure NumberText (n : Numeral) (text : List Char) : Prop where
  whole : Digits n.whole
  leadingZero : n.whole.head? = some '0' → n.whole.length = 1
  parts : ∃ fraction exponent, FractionText n.fraction fraction ∧ ExponentText n.exponent exponent ∧
    text = (if n.negative then ['-'] else []) ++ (n.whole ++ (fraction ++ exponent))

/-- What may be taken off the front of a text is a value, and the rest is left. -/
def Leaves (result : Except ε (Rest s α)) (value : α) (rest : List Char) : Prop :=
  ∃ notLonger, result = .ok ⟨value, rest, notLonger⟩

theorem fraction?_append (missing : List Char → Fault) {ds text rest : List Char}
    (h : FractionText ds text) (hrest : EndsDigits rest) (hpoint : rest.head? ≠ some '.') :
    Leaves (fraction? missing (text ++ rest)) ds rest := by
  cases h with
  | none =>
    cases rest with
    | nil => exact ⟨_, rfl⟩
    | cons c more =>
      have hc : c ≠ '.' := fun heq => hpoint (congrArg some heq)
      exact ⟨_, if_neg hc⟩
  | some h =>
    obtain ⟨_, hread⟩ := digits_append missing h hrest
    rw [List.cons_append, fraction?, if_pos rfl, hread]
    exact ⟨_, rfl⟩

theorem exponent_append (missing : List Char → Fault) {power : Bool × List Char}
    {letter : Char} {text rest : List Char} (h : ExponentText (some power) (letter :: text))
    (hrest : EndsDigits rest) : Takes (exponent missing (text ++ rest)) power rest := by
  cases h with
  | bare hletter h =>
    have hread := digits_append missing h hrest
    obtain ⟨d, others, rfl, hd, -⟩ := h.exists_cons
    rw [List.cons_append] at hread ⊢
    obtain ⟨_, hread⟩ := hread
    rw [exponent.eq_3, hread]
    · exact ⟨_, rfl⟩
    · intro more heq
      exact ne_of_isDigit hd rfl (List.cons.inj heq).1
    · intro more heq
      exact ne_of_isDigit hd rfl (List.cons.inj heq).1
  | plus hletter h | minus hletter h =>
    obtain ⟨_, hread⟩ := digits_append missing h hrest
    rw [List.cons_append, exponent, hread]
    exact ⟨_, rfl⟩

theorem exponent?_append (missing : List Char → Fault) {power : Option (Bool × List Char)}
    {text rest : List Char} (h : ExponentText power text) (hrest : EndsNumber rest) :
    Leaves (exponent? missing (text ++ rest)) power rest := by
  have hsome : ∀ {letter : Char} {more : List Char} {power : Bool × List Char},
      letter = 'e' ∨ letter = 'E' → ExponentText (some power) (letter :: more) →
        Leaves (exponent? missing (letter :: more ++ rest)) (some power) rest := by
    intro letter more power hletter htext
    obtain ⟨_, hread⟩ := exponent_append missing htext hrest.endsDigits
    rw [List.cons_append, exponent?, if_pos hletter, hread]
    exact ⟨_, rfl⟩
  cases h with
  | none =>
    cases rest with
    | nil => exact ⟨_, rfl⟩
    | cons c more => exact ⟨_, if_neg (not_or.mpr (hrest c more rfl).2.2)⟩
  | bare hletter h => exact hsome hletter (.bare hletter h)
  | plus hletter h => exact hsome hletter (.plus hletter h)
  | minus hletter h => exact hsome hletter (.minus hletter h)

/-- The digits before a power of ten end there, and so does a point. -/
theorem ExponentText.endsDigits {power : Option (Bool × List Char)} {text rest : List Char}
    (h : ExponentText power text) (hrest : EndsNumber rest) :
    EndsDigits (text ++ rest) ∧ (text ++ rest).head? ≠ some '.' := by
  have hletter : ∀ {letter : Char} {more : List Char}, letter = 'e' ∨ letter = 'E' →
      EndsDigits (letter :: more) ∧ (letter :: more).head? ≠ some '.' := by
    rintro letter more hletter
    constructor
    · intro c behind heq
      obtain ⟨rfl, -⟩ := List.cons.inj heq
      rcases hletter with rfl | rfl <;> rfl
    · rcases hletter with rfl | rfl <;> simp
  cases h with
  | none =>
    refine ⟨hrest.endsDigits, ?_⟩
    cases rest with
    | nil => simp
    | cons c more => simpa using (hrest c more rfl).2.1
  | bare h => exact hletter h
  | plus h => exact hletter h
  | minus h => exact hletter h

theorem FractionText.endsDigits {ds text rest : List Char} (h : FractionText ds text)
    (hrest : EndsDigits rest) : EndsDigits (text ++ rest) := by
  cases h with
  | none => exact hrest
  | some h =>
    intro c more heq
    obtain ⟨rfl, -⟩ := List.cons.inj heq
    rfl

theorem unsigned_append (missing : List Char → Fault) {n : Numeral}
    {fraction exponent rest : List Char} (hwhole : Digits n.whole)
    (hzero : n.whole.head? = some '0' → n.whole.length = 1)
    (hfraction : FractionText n.fraction fraction) (hexponent : ExponentText n.exponent exponent)
    (hrest : EndsNumber rest) :
    Takes (unsigned missing n.negative (n.whole ++ (fraction ++ (exponent ++ rest)))) n rest := by
  obtain ⟨hends, hpoint⟩ := hexponent.endsDigits hrest
  obtain ⟨_, hdigits⟩ := digits_append missing hwhole (hfraction.endsDigits hends)
  obtain ⟨_, hbehind⟩ := fraction?_append missing hfraction hends hpoint
  obtain ⟨_, hpower⟩ := exponent?_append missing hexponent hrest
  have halone : ¬ (n.whole.head? = some '0' ∧ n.whole.length ≠ 1) := fun h => h.2 (hzero h.1)
  simp only [unsigned, hdigits, if_neg halone, hbehind, Taken.andPerhaps, hpower]
  exact ⟨_, rfl⟩

/-- A number of any size is taken apart as it is written. -/
theorem numeral_append (missing : List Char → Fault) {n : Numeral} {text rest : List Char}
    (h : NumberText n text) (hrest : EndsNumber rest) :
    Takes (numeral missing (text ++ rest)) n rest := by
  obtain ⟨fraction, exponent, hfraction, hexponent, rfl⟩ := h.parts
  have hread := unsigned_append missing h.whole h.leadingZero hfraction hexponent hrest
  rw [List.append_assoc, List.append_assoc, List.append_assoc]
  cases hsign : n.negative with
  | true =>
    rw [hsign] at hread
    obtain ⟨_, hread⟩ := hread
    rw [if_pos rfl, List.singleton_append, numeral, hread]
    exact ⟨_, rfl⟩
  | false =>
    rw [hsign] at hread
    obtain ⟨d, others, hcons, hd, -⟩ := h.whole.exists_cons
    rw [hcons, List.cons_append] at hread
    rw [if_neg Bool.false_ne_true, List.nil_append, hcons, List.cons_append, numeral.eq_2]
    · exact hread
    · intro more heq
      exact ne_of_isDigit hd rfl (List.cons.inj heq).1

theorem numberText_toDigits (n : Nat) :
    NumberText ⟨false, Nat.toDigits 10 n, [], none⟩ (Nat.toDigits 10 n) where
  whole := digits_toDigits n
  leadingZero := length_toDigits_of_head?_eq_zero
  parts := ⟨[], [], .none, .none, by simp⟩

theorem le_ofDigitChars (ds : List Char) (m : Nat) : m ≤ Nat.ofDigitChars 10 ds m := by
  rw [Nat.ofDigitChars_eq_ofDigitChars_zero]
  have hscaled : m ≤ 10 ^ ds.length * m :=
    Nat.le_mul_of_pos_left m (Nat.pow_pos (by decide))
  omega

/-- No digit is left over from a number that 64 bits hold. -/
theorem significand_eq {ds : List Char} {m : Nat} (h : Nat.ofDigitChars 10 ds m < UInt64.size) :
    significand m ds = (Nat.ofDigitChars 10 ds m, 0) := by
  induction ds generalizing m with
  | nil => rfl
  | cons c rest ih =>
    rw [Nat.ofDigitChars_cons, Nat.mul_comm 10 m] at h ⊢
    have hfits := Nat.lt_of_le_of_lt (le_ofDigitChars rest _) h
    rw [significand, if_pos hfits, ih h]

/-- The decimal text of a number of 64 bits reads as that number. -/
theorem readNumber_append {n : Nat} (hn : n < UInt64.size) {rest : List Char}
    (h : EndsNumber rest) :
    Takes (readNumber (Nat.toDigits 10 n ++ rest)) (.integer n) rest := by
  obtain ⟨shorter, hread⟩ := numeral_append missingDigits (numberText_toDigits n) h
  have hdigits : Nat.ofDigitChars 10 (Nat.toDigits 10 n) 0 = n := Nat.ofDigitChars_ten_toDigits
  have hsignificand : significand 0 (Nat.toDigits 10 n) = (n, 0) := by
    rw [significand_eq (hdigits.symm ▸ hn), hdigits]
  have hvalue : Numeral.value? ⟨false, Nat.toDigits 10 n, [], none⟩ = some (.integer n) := by
    rw [Numeral.value?, hsignificand]
    rfl
  simp only [readNumber, hread, hvalue]
  exact ⟨_, rfl⟩

/-- What leads to an entry: blanks, and a comma as well unless it is the first one. -/
inductive Lead : Bool → List Char → Prop
  | first {blanks : List Char} (h : Blank blanks) : Lead true blanks
  | later {blanks more : List Char} (h : Blank blanks) (hmore : Blank more) :
    Lead false (blanks ++ ',' :: more)

theorem next_entry {first : Bool} {lead : List Char} (hlead : Lead first lead)
    {close c : Char} (hclose : close ≠ ',') (hc : isBlank c = false) (hne : c ≠ close)
    (rest : List Char) :
    ∃ notLonger, next close first (lead ++ c :: rest) = .ok (.entry c rest notLonger) := by
  cases hlead with
  | first h =>
    refine ⟨by simp, ?_⟩
    simp only [next, skipBlank_append h hc, if_neg hne, if_true]
  | later h hmore =>
    rw [List.append_assoc, List.cons_append]
    refine ⟨by simp; omega, ?_⟩
    simp only [next, skipBlank_append h (c := ',') rfl, if_neg (Ne.symm hclose),
      entryBehindComma, skipBlank_append hmore hc, if_neg hne]
    rfl

theorem next_close (first : Bool) {blanks : List Char} (h : Blank blanks) {close : Char}
    (hc : isBlank close = false) (rest : List Char) :
    ∃ shorter, next close first (blanks ++ close :: rest) = .ok (.closed rest shorter) := by
  refine ⟨by simp; omega, ?_⟩
  simp only [next, skipBlank_append h hc, if_true]

theorem colon_append {blanks : List Char} (h : Blank blanks) (rest : List Char) :
    Takes (colon (blanks ++ ':' :: rest)) () rest := by
  refine ⟨by simp; omega, ?_⟩
  simp only [colon, skipBlank_append h (c := ':') rfl, if_true]

/-- The texts of entries behind an opening bracket, each with what leads to it, and the
closing bracket. -/
inductive Entries (close : Char) (spells : α → List Char → Prop) :
    Bool → List Char → List α → Prop
  | closed {first : Bool} {blanks : List Char} (h : Blank blanks) :
    Entries close spells first (blanks ++ [close]) []
  | entry {first : Bool} {lead text more : List Char} {a : α} {others : List α}
      (hlead : Lead first lead) (h : spells a text)
      (hmore : Entries close spells false more others) :
    Entries close spells first (lead ++ (text ++ more)) (a :: others)

/-- Entries of one kind as entries of another, each along with the one that it stands for. -/
theorem Entries.along {close : Char} {spells : α → List Char → Prop}
    {writes : β → List Char → Prop} {stands : α → β → Prop} {first : Bool} {entries : List Char}
    {as : List α} {bs : List β} (h : Entries close spells first entries as)
    (hstands : List.Forall₂ stands as bs)
    (hwrites : ∀ {a b text}, spells a text → stands a b → writes b text) :
    Entries close writes first entries bs := by
  induction h generalizing bs with
  | closed h =>
    obtain - | _ := hstands
    exact .closed h
  | entry hlead h hmore ih =>
    obtain - | ⟨hb, hothers⟩ := hstands
    exact .entry hlead (hwrites h hb) (ih hothers)

theorem Entries.map {close : Char} {spells : α → List Char → Prop} {writes : β → List Char → Prop}
    {first : Bool} {entries : List Char} {as : List α} (h : Entries close spells first entries as)
    (f : α → β) (hf : ∀ a text, spells a text → writes (f a) text) :
    Entries close writes first entries (as.map f) := by
  have hstands : List.Forall₂ (fun a b => b = f a) as (as.map f) :=
    List.forall₂_map_right_iff.mpr (List.forall₂_refl as)
  apply h.along hstands
  rintro a _ text htext rfl
  exact hf a text htext

theorem Entries.mono {close : Char} {spells writes : α → List Char → Prop} {first : Bool}
    {entries : List Char} {as : List α} (h : Entries close spells first entries as)
    (hwrites : ∀ a text, spells a text → writes a text) :
    Entries close writes first entries as := by
  have hmap := h.map id hwrites
  rwa [List.map_id] at hmap

theorem Lead.endsNumber {lead : List Char} (h : Lead false lead) (rest : List Char) :
    EndsNumber (lead ++ rest) := by
  obtain - | ⟨h, hmore⟩ := h
  rw [List.append_assoc]
  exact h.endsNumber (endsNumber_cons rfl (by decide) _)

/-- No number goes on behind an entry. -/
theorem Entries.endsNumber {close : Char} {spells : α → List Char → Prop} {entries : List Char}
    {as : List α} (h : Entries close spells false entries as)
    (hclose : ∀ rest, EndsNumber (close :: rest)) (rest : List Char) :
    EndsNumber (entries ++ rest) := by
  cases h with
  | closed h =>
    rw [List.append_assoc]
    exact h.endsNumber (hclose rest)
  | entry hlead h hmore =>
    rw [List.append_assoc]
    exact hlead.endsNumber _

end Dhcp.Json
