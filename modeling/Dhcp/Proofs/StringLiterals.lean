import Dhcp.Proofs.Tokens

/-!
String literals and the texts they spell. A character stands for itself or is escaped, by a
letter of its own or by its code units in base sixteen, so one text has many literals but
one literal spells one text. A literal whose code units are no characters is passed over
like any other; only reading it fails.
-/
namespace Dhcp.Json

/-- A digit of base sixteen in either case. -/
def HexDigit (value : Nat) (c : Char) : Prop :=
  value < 16 ∧ (c = value.digitChar ∨ c = value.digitChar.toUpper)

theorem HexDigit.hexValue? {value : Nat} {c : Char} (h : HexDigit value c) :
    hexValue? c = some value := by
  have hall : ∀ v < 16, Json.hexValue? v.digitChar = some v ∧
      Json.hexValue? v.digitChar.toUpper = some v := by decide
  obtain ⟨hlt, rfl | rfl⟩ := h
  · exact (hall value hlt).1
  · exact (hall value hlt).2

/-- The four digits of a code unit. -/
inductive CodeUnit : Nat → List Char → Prop
  | four {w x y z : Nat} {a b c d : Char} (ha : HexDigit w a) (hb : HexDigit x b)
    (hc : HexDigit y c) (hd : HexDigit z d) :
    CodeUnit (((w * 16 + x) * 16 + y) * 16 + z) [a, b, c, d]

theorem CodeUnit.lt {unit : Nat} {four : List Char} (h : CodeUnit unit four) : unit < 0x10000 := by
  obtain ⟨ha, hb, hc, hd⟩ := h
  have := ha.1
  have := hb.1
  have := hc.1
  have := hd.1
  omega

theorem codeUnit_append {unit : Nat} {four : List Char} (h : CodeUnit unit four)
    (rest : List Char) : Takes (codeUnit (four ++ rest)) unit rest := by
  obtain ⟨ha, hb, hc, hd⟩ := h
  refine ⟨by simp; omega, ?_⟩
  simp only [List.cons_append, List.nil_append, codeUnit, ha.hexValue?, hb.hexValue?,
    hc.hexValue?, hd.hexValue?]
  rfl

/-- The letters that stand for a character behind a backslash, each with that character. -/
def shortEscapes : List (Char × Char) :=
  [('"', '"'), ('\\', '\\'), ('/', '/'), ('b', '\x08'), ('f', '\x0c'), ('n', '\n'), ('r', '\r'),
    ('t', '\t')]

theorem simpleEscape?_of_mem {letter c : Char} (h : (letter, c) ∈ shortEscapes) :
    simpleEscape? letter = some c := by
  have hall : ∀ pair ∈ shortEscapes, simpleEscape? pair.1 = some pair.2 := by decide
  exact hall (letter, c) h

/-- What may stand between the quotes of a string. -/
inductive Literal : List Char → Prop
  | nil : Literal []
  | plain {c : Char} {more : List Char} (hc : Plain c) (h : Literal more) : Literal (c :: more)
  | short {letter c : Char} {more : List Char} (hescape : (letter, c) ∈ shortEscapes)
    (h : Literal more) : Literal ('\\' :: letter :: more)
  | unit {unit : Nat} {four more : List Char} (hunit : CodeUnit unit four) (h : Literal more) :
    Literal ('\\' :: 'u' :: (four ++ more))

/-- The code units of a character that needs two. -/
def SurrogatePair (c : Char) (upper lower : Nat) : Prop :=
  0x10000 ≤ c.toNat ∧ upper = 0xD800 + (c.toNat - 0x10000) / 0x400 ∧
    lower = 0xDC00 + (c.toNat - 0x10000) % 0x400

/-- A text and a literal that spells it. -/
inductive Spells : List Char → List Char → Prop
  | nil : Spells [] []
  | plain {c : Char} {text more : List Char} (hc : Plain c) (h : Spells text more) :
    Spells (c :: text) (c :: more)
  | short {letter c : Char} {text more : List Char} (hescape : (letter, c) ∈ shortEscapes)
    (h : Spells text more) : Spells (c :: text) ('\\' :: letter :: more)
  | unit {c : Char} {four text more : List Char} (hunit : CodeUnit c.toNat four)
    (h : Spells text more) : Spells (c :: text) ('\\' :: 'u' :: (four ++ more))
  | pair {c : Char} {upper lower : Nat} {high low text more : List Char}
    (hc : SurrogatePair c upper lower) (hupper : CodeUnit upper high) (hlower : CodeUnit lower low)
    (h : Spells text more) :
    Spells (c :: text) ('\\' :: 'u' :: (high ++ '\\' :: 'u' :: (low ++ more)))

theorem spells_of_plain {text : List Char} (h : ∀ c ∈ text, Plain c) : Spells text text := by
  induction text with
  | nil => exact .nil
  | cons c others ih =>
    exact .plain (h c List.mem_cons_self) (ih fun d hd => h d (List.mem_cons_of_mem c hd))

theorem Spells.literal {text lit : List Char} (h : Spells text lit) : Literal lit := by
  induction h with
  | nil => exact .nil
  | plain hc h ih => exact .plain hc ih
  | short hescape h ih => exact .short hescape ih
  | unit hunit h ih => exact .unit hunit ih
  | pair hc hupper hlower h ih => exact .unit hupper (.unit hlower ih)

/-- A character is a number outside the range of the surrogates. -/
theorem toNat_range (c : Char) : c.toNat < 0xD800 ∨ 0xDFFF < c.toNat ∧ c.toNat < 0x110000 :=
  c.valid

theorem toNat_ofNat {n : Nat} (h : n < 0xD800 ∨ 0xDFFF < n ∧ n < 0x110000) :
    (Char.ofNat n).toNat = n := by
  have hvalid : n.isValidChar := h
  rw [Char.ofNat, dif_pos hvalid]
  rfl

/-! Escapes, behind their backslash. -/

theorem unicodeEscape_unit {c : Char} {four : List Char} (h : CodeUnit c.toNat four)
    (rest : List Char) : Takes (unicodeEscape (four ++ rest)) c rest := by
  obtain ⟨shorter, hunit⟩ := codeUnit_append h rest
  have hrange : c.toNat < 0xD800 ∨ 0xDFFF < c.toNat := by
    rcases toNat_range c with hlow | hhigh
    · exact .inl hlow
    · exact .inr hhigh.1
  refine ⟨shorter, ?_⟩
  rw [unicodeEscape, hunit]
  simp only [if_pos hrange, Taken.map, Char.ofNat_toNat]

theorem lowerSurrogate_append {lower : Nat} {low : List Char} (h : CodeUnit lower low)
    (hrange : 0xDC00 ≤ lower ∧ lower ≤ 0xDFFF) (rest : List Char) :
    Takes (lowerSurrogate ('\\' :: 'u' :: (low ++ rest))) lower rest := by
  obtain ⟨_, hunit⟩ := codeUnit_append h rest
  simp only [lowerSurrogate, hunit, if_pos hrange]
  exact ⟨_, rfl⟩

theorem unicodeEscape_pair {c : Char} {upper lower : Nat} {high low : List Char}
    (hc : SurrogatePair c upper lower) (hupper : CodeUnit upper high)
    (hlower : CodeUnit lower low) (rest : List Char) :
    Takes (unicodeEscape (high ++ '\\' :: 'u' :: (low ++ rest))) c rest := by
  obtain ⟨hlarge, hup, hlow⟩ := hc
  have hlt : c.toNat < 0x110000 := by
    rcases toNat_range c with hlow | hhigh
    · omega
    · exact hhigh.2
  obtain ⟨_, hunit⟩ := codeUnit_append hupper ('\\' :: 'u' :: (low ++ rest))
  obtain ⟨_, hhalf⟩ := lowerSurrogate_append hlower (by omega) rest
  have hsurrogate : ¬ (upper < 0xD800 ∨ 0xDFFF < upper) := by omega
  have hnotLower : ¬ 0xDC00 ≤ upper := by omega
  have hnumber : 0x10000 + (upper - 0xD800) * 0x400 + (lower - 0xDC00) = c.toNat := by omega
  rw [unicodeEscape, hunit]
  simp only [if_neg hsurrogate, if_neg hnotLower, hhalf, Except.map, Taken.map, Taken.andThen,
    hnumber, Char.ofNat_toNat]
  exact ⟨_, rfl⟩

theorem escape_short {letter c : Char} (h : (letter, c) ∈ shortEscapes) (rest : List Char) :
    Takes (escape (letter :: rest)) c rest := by
  simp only [escape, simpleEscape?_of_mem h]
  exact ⟨_, rfl⟩

theorem escape_unicode {c : Char} {s rest : List Char} (h : Takes (unicodeEscape s) c rest) :
    Takes (escape ('u' :: s)) c rest := by
  obtain ⟨_, hread⟩ := h
  have hnone : simpleEscape? 'u' = none := rfl
  simp only [escape, hnone, if_true, hread]
  exact ⟨_, rfl⟩

theorem readString_plain {c : Char} (hc : Plain c) {s text rest : List Char}
    (h : Takes (readString s) text rest) : Takes (readString (c :: s)) (c :: text) rest := by
  obtain ⟨hquote, hbackslash, hcontrol⟩ := hc
  obtain ⟨_, hread⟩ := h
  rw [readString, if_neg hquote, if_neg hbackslash, if_neg hcontrol, hread]
  exact ⟨_, rfl⟩

theorem readString_escape {c : Char} {s behind text rest : List Char}
    (hescape : Takes (escape s) c behind) (h : Takes (readString behind) text rest) :
    Takes (readString ('\\' :: s)) (c :: text) rest := by
  obtain ⟨_, hescape⟩ := hescape
  obtain ⟨_, hread⟩ := h
  have hquote : '\\' ≠ '"' := by decide
  rw [readString, if_neg hquote, if_pos rfl, hescape]
  simp only [hread]
  exact ⟨_, rfl⟩

/-- A string is read as the text that its literal spells. -/
theorem readString_append {text lit : List Char} (h : Spells text lit) (rest : List Char) :
    Takes (readString (lit ++ '"' :: rest)) text rest := by
  induction h with
  | nil =>
    rw [List.nil_append, readString, if_pos rfl]
    exact ⟨_, rfl⟩
  | plain hc h ih => exact readString_plain hc ih
  | short hescape h ih => exact readString_escape (escape_short hescape _) ih
  | unit hunit h ih =>
    have hread := readString_escape (escape_unicode (unicodeEscape_unit hunit _)) ih
    rwa [← List.append_assoc] at hread
  | @pair c upper lower high low text more hc hupper hlower h ih =>
    have htext : '\\' :: 'u' :: (high ++ '\\' :: 'u' :: (low ++ more)) ++ '"' :: rest =
        '\\' :: 'u' :: (high ++ '\\' :: 'u' :: (low ++ (more ++ '"' :: rest))) := by
      simp
    rw [htext]
    exact readString_escape (escape_unicode (unicodeEscape_pair hc hupper hlower _)) ih

theorem Spells.unique {text other lit : List Char} (h : Spells text lit)
    (hother : Spells other lit) : text = other := by
  obtain ⟨_, hread⟩ := readString_append h []
  obtain ⟨_, hagain⟩ := readString_append hother []
  have heq := Except.ok.inj (hread.symm.trans hagain)
  exact congrArg Taken.value heq

theorem skipEscape_unit {unit : Nat} {four : List Char} (h : CodeUnit unit four)
    (rest : List Char) : Takes (skipEscape ('u' :: (four ++ rest))) () rest := by
  obtain ⟨_, hunit⟩ := codeUnit_append h rest
  have hsome : ¬ (simpleEscape? 'u').isSome = true := by decide
  rw [skipEscape, if_neg hsome, if_pos rfl, hunit]
  exact ⟨_, rfl⟩

theorem skipString_escape {s behind rest : List Char} (hescape : Takes (skipEscape s) () behind)
    (h : Takes (skipString behind) () rest) : Takes (skipString ('\\' :: s)) () rest := by
  obtain ⟨_, hescape⟩ := hescape
  obtain ⟨_, hskip⟩ := h
  have hquote : '\\' ≠ '"' := by decide
  rw [skipString, if_neg hquote, if_pos rfl, hescape]
  simp only [hskip]
  exact ⟨_, rfl⟩

/-- Every literal is passed over, to its closing quote and no further. -/
theorem skipString_append {lit : List Char} (h : Literal lit) (rest : List Char) :
    Takes (skipString (lit ++ '"' :: rest)) () rest := by
  induction h with
  | nil =>
    rw [List.nil_append, skipString, if_pos rfl]
    exact ⟨_, rfl⟩
  | plain hc h ih =>
    obtain ⟨hquote, hbackslash, hcontrol⟩ := hc
    obtain ⟨_, hskip⟩ := ih
    rw [List.cons_append, skipString, if_neg hquote, if_neg hbackslash, if_neg hcontrol, hskip]
    exact ⟨_, rfl⟩
  | @short letter c more hshort h ih =>
    have hsome : (simpleEscape? letter).isSome = true := by
      rw [simpleEscape?_of_mem hshort]
      rfl
    have hescape (s : List Char) : Takes (skipEscape (letter :: s)) () s := by
      rw [skipEscape, if_pos hsome]
      exact ⟨_, rfl⟩
    exact skipString_escape (hescape (more ++ '"' :: rest)) ih
  | unit hunit h ih =>
    have hskip := skipString_escape (skipEscape_unit hunit _) ih
    rwa [← List.append_assoc] at hskip

/-! Literals that are read. -/

/-- The lower half of a pair is a code unit of the literal that it stands in. -/
theorem exists_unit_of_lowerSurrogate {lit rest behind : List Char} {lower : Nat}
    (h : Literal lit) (hread : Takes (lowerSurrogate (lit ++ '"' :: rest)) lower behind) :
    ∃ low more, lit = '\\' :: 'u' :: (low ++ more) ∧ CodeUnit lower low ∧
      (0xDC00 ≤ lower ∧ lower ≤ 0xDFFF) ∧ Literal more ∧ behind = more ++ '"' :: rest := by
  obtain ⟨_, hread⟩ := hread
  cases h with
  | nil => cases hread
  | @plain c more hc h =>
    have hmalformed : lowerSurrogate (c :: more ++ '"' :: rest) = .error .malformed := by
      simp [lowerSurrogate, hc.2.1]
    cases hmalformed.symm.trans hread
  | @short letter c more hshort h =>
    have hmalformed : lowerSurrogate ('\\' :: letter :: more ++ '"' :: rest) =
        .error .malformed := by
      have hall : ∀ pair ∈ shortEscapes, pair.1 ≠ 'u' := by decide
      have hletter : letter ≠ 'u' := hall (letter, c) hshort
      simp [lowerSurrogate, hletter]
    cases hmalformed.symm.trans hread
  | @unit unit low more hunit h =>
    have hcode := codeUnit_append hunit (more ++ '"' :: rest)
    rw [← List.append_assoc] at hcode
    obtain ⟨_, hcode⟩ := hcode
    simp only [List.cons_append, lowerSurrogate, hcode] at hread
    split at hread
    · next hrange =>
      obtain ⟨rfl, rfl⟩ := (Taken.mk.inj (Except.ok.inj hread))
      exact ⟨low, more, rfl, hunit, hrange, h, rfl⟩
    · cases hread

/-- A code unit of the surrogates is read with a lower one behind it, or not at all. -/
theorem exists_lower_of_escape {unit : Nat} {four s behind : List Char} {c : Char}
    (h : CodeUnit unit four) (hsurrogate : ¬ (unit < 0xD800 ∨ 0xDFFF < unit))
    (hread : Takes (escape ('u' :: (four ++ s))) c behind) :
    unit < 0xDC00 ∧ ∃ lower, Takes (lowerSurrogate s) lower behind := by
  obtain ⟨_, hcode⟩ := codeUnit_append h s
  obtain ⟨_, hread⟩ := hread
  have hnone : simpleEscape? 'u' = none := rfl
  simp only [escape, hnone, if_true, unicodeEscape, hcode, if_neg hsurrogate] at hread
  split at hread
  · cases hread
  · next hupper =>
    refine ⟨Nat.not_le.mp hupper, ?_⟩
    cases hlower : lowerSurrogate s with
    | error fault =>
      rw [hlower] at hread
      cases hread
    | ok lower =>
      rw [hlower] at hread
      have hrest : lower.rest = behind := congrArg Taken.rest (Except.ok.inj hread)
      subst hrest
      exact ⟨lower.value, lower.shorter, rfl⟩

/-- An escape that is read begins a literal that spells its character and then whatever the
rest of the literal spells. -/
theorem exists_rest_of_escape {lit rest behind : List Char} {c : Char} (h : Literal ('\\' :: lit))
    (hread : Takes (escape (lit ++ '"' :: rest)) c behind) :
    ∃ more, more.length < lit.length ∧ Literal more ∧ behind = more ++ '"' :: rest ∧
      ∀ text, Spells text more → Spells (c :: text) ('\\' :: lit) := by
  cases h with
  | plain hc h => exact absurd rfl hc.2.1
  | @short letter d more hshort h =>
    obtain ⟨rfl, rfl⟩ := hread.unique (escape_short hshort (more ++ '"' :: rest))
    exact ⟨more, Nat.lt_succ_self _, h, rfl, fun text htext => .short hshort htext⟩
  | @unit unit four more hunit h =>
    have hshorter : more.length < ('u' :: (four ++ more)).length := by
      simp only [List.length_cons, List.length_append]
      omega
    rw [List.cons_append, List.append_assoc] at hread
    by_cases hscalar : unit < 0xD800 ∨ 0xDFFF < unit
    · have hunit' : CodeUnit (Char.ofNat unit).toNat four := by
        have hlt := hunit.lt
        rwa [toNat_ofNat (by omega)]
      obtain ⟨rfl, rfl⟩ := hread.unique
        (escape_unicode (unicodeEscape_unit hunit' (more ++ '"' :: rest)))
      exact ⟨more, hshorter, h, rfl, fun text htext => .unit hunit' htext⟩
    · obtain ⟨hupper, lower, hlower⟩ := exists_lower_of_escape hunit hscalar hread
      obtain ⟨low, others, rfl, hlow, hrange, hothers, rfl⟩ :=
        exists_unit_of_lowerSurrogate h hlower
      obtain ⟨d, hpair⟩ : ∃ d, SurrogatePair d unit lower := by
        refine ⟨Char.ofNat (0x10000 + (unit - 0xD800) * 0x400 + (lower - 0xDC00)), ?_⟩
        rw [SurrogatePair, toNat_ofNat (by omega)]
        omega
      have htext : '\\' :: 'u' :: (low ++ others) ++ '"' :: rest =
          '\\' :: 'u' :: (low ++ (others ++ '"' :: rest)) := by
        simp
      rw [htext] at hread
      obtain ⟨rfl, -⟩ := hread.unique (escape_unicode (unicodeEscape_pair hpair hunit hlow _))
      refine ⟨others, ?_, hothers, rfl, fun text hspells => .pair hpair hunit hlow hspells⟩
      simp only [List.length_cons, List.length_append]
      omega

theorem exists_tail_of_readString_plain {c : Char} (hc : Plain c) {s text behind : List Char}
    (h : Takes (readString (c :: s)) text behind) :
    ∃ tail, text = c :: tail ∧ Takes (readString s) tail behind := by
  obtain ⟨hquote, hbackslash, hcontrol⟩ := hc
  rw [readString, if_neg hquote, if_neg hbackslash, if_neg hcontrol] at h
  obtain ⟨tail, hread, rfl, rfl⟩ := h.of_map
  exact ⟨tail.value, rfl, hread⟩

theorem exists_tail_of_readString_escape {s text behind : List Char}
    (h : Takes (readString ('\\' :: s)) text behind) :
    ∃ c tail middle, text = c :: tail ∧ Takes (escape s) c middle ∧
      Takes (readString middle) tail behind := by
  have hquote : '\\' ≠ '"' := by decide
  rw [readString, if_neg hquote, if_pos rfl] at h
  cases hescape : escape s with
  | error fault =>
    rw [hescape] at h
    obtain ⟨_, h⟩ := h
    cases h
  | ok character =>
    rw [hescape] at h
    obtain ⟨tail, hread, rfl, rfl⟩ := h.of_map
    exact ⟨character.value, tail.value, character.rest, rfl, ⟨character.shorter, rfl⟩, hread⟩

/-- A literal that is read spells the text that it is read as. -/
theorem spells_of_readString {lit rest text behind : List Char} (h : Literal lit)
    (hread : Takes (readString (lit ++ '"' :: rest)) text behind) : Spells text lit := by
  induction hlength : lit.length using Nat.strongRecOn generalizing lit text behind with
  | ind length ih =>
    subst hlength
    cases lit with
    | nil =>
      obtain ⟨rfl, -⟩ := hread.unique (readString_append .nil rest)
      exact .nil
    | cons c lit =>
      by_cases hbackslash : c = '\\'
      · subst hbackslash
        obtain ⟨c, tail, middle, rfl, hescape, htail⟩ := exists_tail_of_readString_escape hread
        obtain ⟨more, hshorter, hmore, rfl, hspells⟩ := exists_rest_of_escape h hescape
        exact hspells tail (ih more.length (Nat.lt_succ_of_lt hshorter) hmore htail rfl)
      · cases h with
        | plain hc h =>
          obtain ⟨tail, rfl, htail⟩ := exists_tail_of_readString_plain hc hread
          exact .plain hc (ih lit.length (Nat.lt_succ_self _) h htail rfl)
        | short | unit => exact absurd rfl hbackslash

end Dhcp.Json
