import Dhcp.Proofs.OptionWalk

/-!
The grammar of an option area. Octets list some units when they are those units one after
the other with pad octets anywhere between them. Every string of octets begins with such
a listing; what stands behind the longest one is nothing, an end mark with anything after
it, or a unit that is cut short, and this decides between the two results of reading.
-/
namespace Dhcp.OptionArea

/-- Octets that list units, a code with a payload each, among pad octets. -/
inductive Lists : List UInt8 → List (UInt8 × List UInt8) → Prop
  | nil : Lists [] []
  | pad {bytes : List UInt8} {units : List (UInt8 × List UInt8)} (h : Lists bytes units) :
    Lists (0 :: bytes) units
  | unit {code length : UInt8} {payload bytes : List UInt8} {units : List (UInt8 × List UInt8)}
      (pad : code ≠ 0) (last : code ≠ 255) (measure : payload.length = length.toNat)
      (h : Lists bytes units) :
    Lists (code :: length :: (payload ++ bytes)) ((code, payload) :: units)

/-- The octets of a unit that is cut short, and what there is to say about it. -/
inductive CutShort : List UInt8 → String → Prop
  | lengthMissing {code : UInt8} (pad : code ≠ 0) (last : code ≠ 255) :
    CutShort [code] ("Option " ++ toString code.toNat ++ " length missing")
  | payloadCut {code length : UInt8} {rest : List UInt8} (pad : code ≠ 0) (last : code ≠ 255)
      (short : rest.length < length.toNat) :
    CutShort (code :: length :: rest) ("Option " ++ toString code.toNat ++ " wants " ++
      toString length.toNat ++ " bytes, " ++ toString rest.length ++ " remain")

/-- Octets at which reading stops: none, or an end mark and anything after it. -/
def Ends (bytes : List UInt8) : Prop := bytes = [] ∨ bytes.head? = some 255

theorem parseFields_of_ends {bytes : List UInt8} (h : Ends bytes) : parseFields bytes = .ok [] := by
  rcases h with rfl | h
  · rw [parseFields]
  · obtain ⟨rest, rfl⟩ : ∃ rest, bytes = 255 :: rest := by
      cases bytes with
      | nil => cases h
      | cons first rest => exact ⟨rest, by rw [Option.some.inj h]⟩
    exact parseFields_end rest

theorem parseFields_of_cutShort {bytes : List UInt8} {text : String} (h : CutShort bytes text) :
    ∃ fault, parseFields bytes = .error fault ∧ fault.reason = text := by
  cases h with
  | lengthMissing pad last => exact ⟨_, parseFields_lengthMissing pad last, rfl⟩
  | payloadCut pad last short =>
    exact ⟨_, parseFields_payloadCut pad last (Nat.not_le.mpr short), rfl⟩

/-- A listing is read off whole, whatever stands behind it. -/
theorem Lists.parseFields_append {front : List UInt8} {units : List (UInt8 × List UInt8)}
    (h : Lists front units) : ∃ fields : List OptionField, fields.map OptionField.unit = units ∧
      ∀ tail, parseFields (front ++ tail) = (parseFields tail).map (fields ++ ·) := by
  induction h with
  | nil =>
    refine ⟨[], rfl, fun tail => ?_⟩
    cases hread : parseFields tail <;> simp [Except.map, hread]
  | pad _ ih =>
    obtain ⟨fields, hunits, hread⟩ := ih
    exact ⟨fields, hunits, fun tail => (parseFields_pad _).trans (hread tail)⟩
  | @unit code length payload bytes units pad last measure _ ih =>
    obtain ⟨fields, hunits, hread⟩ := ih
    have hlength : payload.length ≤ 255 := by
      have := length.toNat_lt
      omega
    refine ⟨⟨code, payload, pad, last, hlength⟩ :: fields, by rw [List.map_cons, hunits]; rfl, ?_⟩
    intro tail
    have hfits : length.toNat ≤ (payload ++ (bytes ++ tail)).length := by
      rw [List.length_append]
      omega
    have htake : (payload ++ (bytes ++ tail)).take length.toNat = payload :=
      List.take_left' measure
    have hdrop : (payload ++ (bytes ++ tail)).drop length.toNat = bytes ++ tail :=
      List.drop_left' measure
    rw [List.cons_append, List.cons_append, List.append_assoc, parseFields_field pad last hfits]
    simp only [htake, hdrop, hread]
    cases parseFields tail with
    | error fault => rfl
    | ok others => rfl

/-- Every string of octets begins with a listing, behind which reading stops or a unit is
cut short. The induction follows the reader. -/
theorem exists_listing (bytes : List UInt8) :
    ∃ front units tail, bytes = front ++ tail ∧ Lists front units ∧
      (Ends tail ∨ ∃ text, CutShort tail text) := by
  induction bytes using parseFields.induct with
  | case1 => exact ⟨[], [], [], rfl, .nil, .inl (.inl rfl)⟩
  | case2 rest ih =>
    obtain ⟨front, units, tail, rfl, hlists, htail⟩ := ih
    exact ⟨0 :: front, units, tail, rfl, hlists.pad, htail⟩
  | case3 rest _ => exact ⟨[], [], _, rfl, .nil, .inl (.inr rfl)⟩
  | case4 code pad last => exact ⟨[], [], _, rfl, .nil, .inr ⟨_, .lengthMissing pad last⟩⟩
  | case5 code pad last length rest fits ih =>
    obtain ⟨front, units, tail, hrest, hlists, htail⟩ := ih
    have hmeasure : (rest.take length.toNat).length = length.toNat := by
      rw [List.length_take]
      omega
    refine ⟨_, _, tail, ?_, .unit pad last hmeasure hlists, htail⟩
    rw [List.cons_append, List.cons_append, List.append_assoc, ← hrest, List.take_append_drop]
  | case6 code pad last length rest fits =>
    exact ⟨[], [], _, rfl, .nil, .inr ⟨_, .payloadCut pad last (Nat.not_le.mp fits)⟩⟩

theorem unit_injective (field other : OptionField) (h : field.unit = other.unit) :
    field = other := by
  obtain ⟨code, data, _, _, _⟩ := field
  obtain ⟨hcode, hdata⟩ := Prod.mk.inj h
  subst hcode hdata
  rfl

theorem units_injective {area other : OptionArea} (h : area.units = other.units) :
    area = other := by
  obtain ⟨fields⟩ := area
  obtain ⟨others⟩ := other
  exact congrArg OptionArea.mk ((List.map_inj_right unit_injective).mp h)

variable {front tail : List UInt8} {units : List (UInt8 × List UInt8)} {text : String}

theorem parse_of_ends (hlists : Lists front units) (hends : Ends tail) :
    ∃ area, parse (front ++ tail) = .ok area ∧ area.units = units := by
  obtain ⟨fields, hunits, hread⟩ := hlists.parseFields_append
  refine ⟨⟨fields⟩, ?_, hunits⟩
  rw [parse, hread, parseFields_of_ends hends]
  simp [Except.map, bind, Except.bind, pure, Except.pure]

theorem parse_of_cutShort (hlists : Lists front units) (hcut : CutShort tail text) :
    ∃ fault, parse (front ++ tail) = .error fault ∧ fault.reason = text := by
  obtain ⟨fields, -, hread⟩ := hlists.parseFields_append
  obtain ⟨fault, hfault, hreason⟩ := parseFields_of_cutShort hcut
  refine ⟨fault, ?_, hreason⟩
  rw [parse, hread, hfault]
  rfl

/-- An area is read exactly from a listing of its units behind which nothing or an end mark
stands; a fault is reported exactly for a listing behind which a unit is cut short, in the
words for that unit; and one of the two is always so. To read by position takes at most one
turn more than there are octets, and no look past the last of them. -/
theorem parse_accepts_listings (bytes : List UInt8) :
    (∀ area, parse bytes = .ok area ↔
      ∃ front tail, bytes = front ++ tail ∧ Lists front area.units ∧ Ends tail) ∧
    (∀ text, (∃ fault, parse bytes = .error fault ∧ fault.reason = text) ↔
      ∃ front units cut, bytes = front ++ cut ∧ Lists front units ∧ CutShort cut text) ∧
    (∃ front units tail, bytes = front ++ tail ∧ Lists front units ∧
      (Ends tail ∨ ∃ text, CutShort tail text)) ∧
    Walk.walk bytes (bytes.length + 1) 0 [] = .ok (some ((parse bytes).map OptionArea.units)) := by
  refine ⟨?_, ?_, exists_listing bytes, Walk.walk_eq_parse bytes⟩
  · intro area
    constructor
    · intro hok
      obtain ⟨front, units, tail, rfl, hlists, hends | ⟨text, hcut⟩⟩ := exists_listing bytes
      · obtain ⟨read, hread, hunits⟩ := parse_of_ends hlists hends
        rw [hok] at hread
        cases hread
        exact ⟨front, tail, rfl, hunits ▸ hlists, hends⟩
      · obtain ⟨fault, hfault, -⟩ := parse_of_cutShort hlists hcut
        rw [hok] at hfault
        cases hfault
    · rintro ⟨front, tail, rfl, hlists, hends⟩
      obtain ⟨read, hread, hunits⟩ := parse_of_ends hlists hends
      rw [hread, units_injective hunits]
  · intro text
    constructor
    · rintro ⟨fault, hfault, rfl⟩
      obtain ⟨front, units, tail, rfl, hlists, hends | ⟨text, hcut⟩⟩ := exists_listing bytes
      · obtain ⟨read, hread, -⟩ := parse_of_ends hlists hends
        rw [hfault] at hread
        cases hread
      · obtain ⟨other, hother, hreason⟩ := parse_of_cutShort hlists hcut
        rw [hfault] at hother
        cases hother
        exact ⟨front, units, tail, rfl, hlists, hreason ▸ hcut⟩
    · rintro ⟨front, units, cut, rfl, hlists, hcut⟩
      exact parse_of_cutShort hlists hcut

end Dhcp.OptionArea
