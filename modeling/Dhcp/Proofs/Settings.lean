import Dhcp.Proofs.Codec

/-!
Options set one after the other. An attempt to set an option is refused for its code or for
the length of its payload and then changes nothing. The others replace the first option of
their code where it stands, or append one. So codes that were there keep their places, new
codes follow in the order in which they were first set, the last payload set is the one
found by a look-up, and the later options of a code are never touched.
-/
namespace Dhcp.OptionArea

def codes (area : OptionArea) : List UInt8 := area.fields.map OptionField.code

/-- The attempt to set a code to a payload is not refused. -/
def Settable (attempt : UInt8 × List UInt8) : Prop :=
  attempt.1 ≠ 0 ∧ attempt.1 ≠ 255 ∧ attempt.2.length ≤ 255

instance : DecidablePred Settable := fun _ => inferInstanceAs (Decidable (_ ∧ _ ∧ _))

/-- The area after an attempt to set an option; one that is refused leaves it as it was. -/
def afterSet (area : OptionArea) (attempt : UInt8 × List UInt8) : OptionArea :=
  match area.set attempt.1 attempt.2 with
  | .ok later => later
  | .error _ => area

/-- The area after some attempts, the first one made first. -/
def afterSets (area : OptionArea) (attempts : List (UInt8 × List UInt8)) : OptionArea :=
  attempts.foldl afterSet area

/-- The codes that attempts set and that were not known before, each once, in the order in
which they were first set. -/
def newCodes (known : List UInt8) (attempts : List (UInt8 × List UInt8)) : List UInt8 :=
  (((attempts.filter fun attempt => Settable attempt).map Prod.fst).filter
    fun code => code ∉ known).eraseDups

/-- The payload that the last attempt to set a code has, refused ones apart. -/
def lastSet? (attempts : List (UInt8 × List UInt8)) (code : UInt8) : Option (List UInt8) :=
  ((attempts.filter fun attempt => Settable attempt ∧ attempt.1 = code).getLast?).map Prod.snd

variable {area : OptionArea} {field other : OptionField} {code : UInt8} {data : List UInt8}
  {attempt : UInt8 × List UInt8} {attempts : List (UInt8 × List UInt8)}

/-- Setting an option is refused for its code, or else for its length, or it puts the option
in its place. -/
theorem set_cases (area : OptionArea) (code : UInt8) (data : List UInt8) :
    ((code = 0 ∨ code = 255) ∧ area.set code data = .error (.reservedCode code)) ∨
    (code ≠ 0 ∧ code ≠ 255 ∧ 255 < data.length ∧
      area.set code data = .error (.tooLong code data.length)) ∨
    ∃ field : OptionField, Settable (code, data) ∧ field.code = code ∧ field.data = data ∧
      area.set code data = .ok (area.put field) := by
  by_cases hreserved : code = 0 ∨ code = 255
  · have hcreate : OptionField.create code data = .error (.reservedCode code) :=
      dif_pos hreserved
    exact .inl ⟨hreserved, by rw [set, hcreate]; rfl⟩
  · obtain ⟨pad, last⟩ := not_or.mp hreserved
    by_cases hlong : 255 < data.length
    · have hcreate := OptionField.create_eq_tooLong pad last hlong
      exact .inr (.inl ⟨pad, last, hlong, by rw [set, hcreate]; rfl⟩)
    · have hfits := Nat.not_lt.mp hlong
      have hcreate := OptionField.create_eq_ok pad last hfits
      exact .inr (.inr ⟨_, ⟨pad, last, hfits⟩, rfl, rfl, by rw [set, hcreate]; rfl⟩)

theorem set_eq_reservedCode_iff :
    area.set code data = .error (.reservedCode code) ↔ code = 0 ∨ code = 255 := by
  rcases area.set_cases code data with
    ⟨hreserved, hset⟩ | ⟨pad, last, -, hset⟩ | ⟨field, ⟨pad, last, -⟩, -, -, hset⟩
  · simp [hset, hreserved]
  · simp [hset, pad, last]
  · simp only at pad last
    simp [hset, pad, last]

theorem set_eq_tooLong_iff :
    area.set code data = .error (.tooLong code data.length) ↔
      code ≠ 0 ∧ code ≠ 255 ∧ 255 < data.length := by
  rcases area.set_cases code data with
    ⟨hreserved, hset⟩ | ⟨pad, last, hlong, hset⟩ | ⟨field, ⟨-, -, hfits⟩, -, -, hset⟩
  · simp only [hset, Except.error.injEq, reduceCtorEq, false_iff]
    rintro ⟨pad, last, -⟩
    exact hreserved.elim pad last
  · simp [hset, pad, last, hlong]
  · simp only [hset, reduceCtorEq, false_iff]
    rintro ⟨-, -, hlong⟩
    exact Nat.not_lt.mpr hfits hlong

/-- A refused attempt changes nothing, and any other puts an option in its place. -/
theorem afterSet_cases (area : OptionArea) (attempt : UInt8 × List UInt8) :
    (¬ Settable attempt ∧ area.afterSet attempt = area) ∨
    ∃ field : OptionField, Settable attempt ∧ field.code = attempt.1 ∧ field.data = attempt.2 ∧
      area.afterSet attempt = area.put field := by
  obtain ⟨code, data⟩ := attempt
  rcases area.set_cases code data with
    ⟨hreserved, hset⟩ | ⟨-, -, hlong, hset⟩ | ⟨field, hsettable, hcode, hdata, hset⟩
  · refine .inl ⟨?_, by simp only [afterSet, hset]⟩
    rintro ⟨pad, last, -⟩
    exact hreserved.elim pad last
  · refine .inl ⟨?_, by simp only [afterSet, hset]⟩
    rintro ⟨-, -, hfits⟩
    exact Nat.not_le.mpr hlong hfits
  · exact .inr ⟨field, hsettable, hcode, hdata, by simp only [afterSet, hset]⟩

theorem codes_put (area : OptionArea) (field : OptionField) :
    (area.put field).codes =
      if field.code ∈ area.codes then area.codes else area.codes ++ [field.code] := by
  obtain ⟨fields⟩ := area
  simp only [codes, put]
  induction fields with
  | nil => rfl
  | cons first rest ih =>
    simp only [putField]
    by_cases hfirst : first.code = field.code
    · simp [hfirst]
    · rw [if_neg hfirst, List.map_cons, ih]
      by_cases hrest : field.code ∈ rest.map OptionField.code
      · simp [hrest]
      · simp [hrest, Ne.symm hfirst]

theorem get?_put (area : OptionArea) (field : OptionField) (code : UInt8) :
    (area.put field).get? code = if field.code = code then some field else area.get? code := by
  obtain ⟨fields⟩ := area
  simp only [get?, put]
  induction fields with
  | nil => simp [putField]
  | cons first rest ih =>
    simp only [putField]
    by_cases hfirst : first.code = field.code
    · rw [if_pos hfirst]
      by_cases hcode : field.code = code
      · simp [hcode]
      · rw [if_neg hcode, List.find?_cons_of_neg (by simpa using hcode),
          List.find?_cons_of_neg (by simpa [hfirst] using hcode)]
    · rw [if_neg hfirst]
      by_cases hcode : first.code = code
      · have hother : field.code ≠ code := fun heq => hfirst (hcode.trans heq.symm)
        simp [hcode, hother]
      · rw [List.find?_cons_of_neg (by simpa using hcode), ih,
          List.find?_cons_of_neg (by simpa using hcode)]

theorem getElem?_putField_of_ne {fields : List OptionField} {i : Nat}
    (h : fields[i]? = some other) (hne : other.code ≠ field.code) :
    (putField field fields)[i]? = some other := by
  induction fields generalizing i with
  | nil => simp at h
  | cons first rest ih =>
    simp only [putField]
    cases i with
    | zero =>
      have hother : first = other := Option.some.inj h
      rw [if_neg (hother ▸ hne), List.getElem?_cons_zero, hother]
    | succ i =>
      rw [List.getElem?_cons_succ] at h
      split
      · rw [List.getElem?_cons_succ, h]
      · rw [List.getElem?_cons_succ, ih h]

/-- Only the first option of a code is replaced. -/
theorem getElem?_putField_of_mem_take {fields : List OptionField} {i : Nat}
    (h : field.code ∈ (fields.map OptionField.code).take i) :
    (putField field fields)[i]? = fields[i]? := by
  induction fields generalizing i with
  | nil => simp at h
  | cons first rest ih =>
    simp only [putField]
    cases i with
    | zero => simp at h
    | succ i =>
      rw [List.map_cons, List.take_succ_cons, List.mem_cons] at h
      by_cases hfirst : first.code = field.code
      · rw [if_pos hfirst, List.getElem?_cons_succ, List.getElem?_cons_succ]
      · rw [if_neg hfirst, List.getElem?_cons_succ, List.getElem?_cons_succ,
          ih (h.resolve_left (Ne.symm hfirst))]

theorem getElem?_put_of_repeated {i : Nat} (h : area.fields[i]? = some other)
    (hrepeated : other.code ∈ area.codes.take i) :
    (area.put field).fields[i]? = some other := by
  by_cases hsame : other.code = field.code
  · rw [hsame] at hrepeated
    exact (getElem?_putField_of_mem_take hrepeated).trans h
  · exact getElem?_putField_of_ne h hsame

theorem newCodes_nil (known : List UInt8) : newCodes known [] = [] := rfl

theorem newCodes_cons (known : List UInt8) (attempt : UInt8 × List UInt8)
    (rest : List (UInt8 × List UInt8)) :
    newCodes known (attempt :: rest) =
      if Settable attempt ∧ attempt.1 ∉ known then
        attempt.1 :: newCodes (known ++ [attempt.1]) rest
      else newCodes known rest := by
  by_cases hsettable : Settable attempt
  · by_cases hknown : attempt.1 ∈ known
    · simp [newCodes, hsettable, hknown]
    · have hfilter : ∀ codes : List UInt8,
          (codes.filter fun code => code ∉ known).filter (fun code => !code == attempt.1) =
            codes.filter fun code => code ∉ known ++ [attempt.1] := by
        intro codes
        rw [List.filter_filter]
        apply List.filter_congr
        intro code _
        rw [Bool.eq_iff_iff]
        simp [and_comm]
      rw [if_pos ⟨hsettable, hknown⟩]
      simp only [newCodes]
      rw [List.filter_cons_of_pos (by simpa using hsettable), List.map_cons,
        List.filter_cons_of_pos (by simpa using hknown), List.eraseDups_cons, hfilter]
  · simp [newCodes, hsettable]

theorem lastSet?_cons (attempt : UInt8 × List UInt8) (rest : List (UInt8 × List UInt8))
    (code : UInt8) :
    lastSet? (attempt :: rest) code = (lastSet? rest code).or
      (if Settable attempt ∧ attempt.1 = code then some attempt.2 else none) := by
  unfold lastSet?
  by_cases h : Settable attempt ∧ attempt.1 = code
  · rw [List.filter_cons_of_pos (by simpa using h), if_pos h, List.getLast?_cons]
    cases (rest.filter fun attempt => Settable attempt ∧ attempt.1 = code).getLast? with
    | none => rfl
    | some last => rfl
  · rw [List.filter_cons_of_neg (by simpa using h), if_neg h, Option.or_none]

theorem codes_afterSet (area : OptionArea) (attempt : UInt8 × List UInt8) :
    (area.afterSet attempt).codes =
      if Settable attempt ∧ attempt.1 ∉ area.codes then area.codes ++ [attempt.1]
      else area.codes := by
  rcases area.afterSet_cases attempt with
    ⟨hrefused, hafter⟩ | ⟨field, hsettable, hcode, -, hafter⟩
  · rw [hafter, if_neg (fun h => hrefused h.1)]
  · rw [hafter, codes_put, hcode]
    by_cases hknown : attempt.1 ∈ area.codes
    · simp [hknown]
    · simp [hknown, hsettable]

/-- What a look-up finds after an attempt: the payload just set, or what was there. -/
theorem data_afterSet (area : OptionArea) (attempt : UInt8 × List UInt8) (code : UInt8) :
    ((area.afterSet attempt).get? code).map OptionField.data =
      (if Settable attempt ∧ attempt.1 = code then some attempt.2 else none).or
        ((area.get? code).map OptionField.data) := by
  rcases area.afterSet_cases attempt with
    ⟨hrefused, hafter⟩ | ⟨field, hsettable, hcode, hdata, hafter⟩
  · rw [hafter, if_neg (fun h => hrefused h.1), Option.none_or]
  · rw [hafter, get?_put, hcode]
    by_cases hsame : attempt.1 = code
    · simp [hsame, hsettable, hdata]
    · simp [hsame]

theorem repeated_afterSet (attempt : UInt8 × List UInt8) {i : Nat}
    (h : area.fields[i]? = some other) (hrepeated : other.code ∈ area.codes.take i) :
    (area.afterSet attempt).fields[i]? = some other ∧
      other.code ∈ (area.afterSet attempt).codes.take i := by
  constructor
  · rcases area.afterSet_cases attempt with ⟨-, hafter⟩ | ⟨field, -, -, -, hafter⟩
    · rw [hafter, h]
    · rw [hafter]
      exact getElem?_put_of_repeated h hrepeated
  · rw [codes_afterSet]
    split
    · rw [List.take_append]
      exact List.mem_append_left _ hrepeated
    · exact hrepeated

theorem codes_afterSets (area : OptionArea) (attempts : List (UInt8 × List UInt8)) :
    (area.afterSets attempts).codes = area.codes ++ newCodes area.codes attempts := by
  induction attempts generalizing area with
  | nil => rw [newCodes_nil, List.append_nil, afterSets, List.foldl_nil]
  | cons attempt rest ih =>
    rw [afterSets, List.foldl_cons, ← afterSets, ih, codes_afterSet, newCodes_cons]
    split
    · rw [List.append_assoc, List.singleton_append]
    · rfl

theorem data_afterSets (area : OptionArea) (attempts : List (UInt8 × List UInt8)) (code : UInt8) :
    ((area.afterSets attempts).get? code).map OptionField.data =
      (lastSet? attempts code).or ((area.get? code).map OptionField.data) := by
  induction attempts generalizing area with
  | nil => rfl
  | cons attempt rest ih =>
    rw [afterSets, List.foldl_cons, ← afterSets, ih, data_afterSet, lastSet?_cons, Option.or_assoc]

theorem repeated_afterSets {i : Nat} (h : area.fields[i]? = some other)
    (hrepeated : other.code ∈ area.codes.take i) :
    (area.afterSets attempts).fields[i]? = some other := by
  induction attempts generalizing area with
  | nil => exact h
  | cons attempt rest ih =>
    obtain ⟨hkept, hstill⟩ := repeated_afterSet attempt h hrepeated
    exact ih hkept hstill

theorem set_fails_iff :
    (∃ fault, area.set code data = .error fault) ↔
      (code = 0 ∨ code = 255) ∨ 255 < data.length := by
  rcases area.set_cases code data with
    ⟨hreserved, hset⟩ | ⟨-, -, hlong, hset⟩ | ⟨field, ⟨pad, last, hfits⟩, -, -, hset⟩
  · simp [hset, hreserved]
  · simp [hset, hlong]
  · simp only [hset, reduceCtorEq, exists_false, false_iff, not_or]
    exact ⟨⟨pad, last⟩, Nat.not_lt.mpr hfits⟩

theorem afterSet_of_fails (h : ∃ fault, area.set code data = .error fault) :
    area.afterSet (code, data) = area := by
  obtain ⟨fault, hset⟩ := h
  simp only [afterSet, hset]

/-- Whatever was set before, an attempt fails exactly for a reserved code, which is looked
at first, or for a payload of more than 255 octets, and a failed one changes nothing. After
some attempts the codes are those from before and then the ones newly set, each once and in
the order of the first time. A look-up finds the payload that was last set for its code, or
what it found before where none was set. And an option that had another one of its code in
front of it stands where it stood, as it was. -/
theorem attempts_replace_or_append (area : OptionArea) (attempts : List (UInt8 × List UInt8)) :
    (∀ earlier code data,
      let before := area.afterSets earlier
      (before.set code data = .error (.reservedCode code) ↔ code = 0 ∨ code = 255) ∧
      (before.set code data = .error (.tooLong code data.length) ↔
        code ≠ 0 ∧ code ≠ 255 ∧ 255 < data.length) ∧
      ((∃ fault, before.set code data = .error fault) ↔
        (code = 0 ∨ code = 255) ∨ 255 < data.length) ∧
      ((∃ fault, before.set code data = .error fault) → before.afterSet (code, data) = before)) ∧
    let later := area.afterSets attempts
    later.codes = area.codes ++ newCodes area.codes attempts ∧
    (∀ code, (later.get? code).map OptionField.data =
      (lastSet? attempts code).or ((area.get? code).map OptionField.data)) ∧
    ∀ i field, area.fields[i]? = some field → field.code ∈ area.codes.take i →
      later.fields[i]? = some field := by
  refine ⟨?_, codes_afterSets area attempts, data_afterSets area attempts, ?_⟩
  · intro earlier code data before
    exact ⟨set_eq_reservedCode_iff, set_eq_tooLong_iff, set_fails_iff, afterSet_of_fails⟩
  · intro i field hfield hrepeated
    exact repeated_afterSets hfield hrepeated

/-- The options of a discovery, twice over. -/
def twofold : OptionArea :=
  ⟨(Packet.discovery 1).options.fields ++ (Packet.discovery 1).options.fields⟩

/-- A pad code, a domain name, a message type, a list of name servers that is too long, and
another domain name. -/
def attemptsInTurn : List (UInt8 × List UInt8) :=
  [(0, [9]), (15, [104]), (53, [5]), (6, List.replicate 256 8), (15, [105])]

/-- The first message type is replaced and the second one kept; the domain name is appended
where it was first set, with the payload of the second time. -/
theorem first_message_type_replaced :
    (twofold.afterSets attemptsInTurn).codes = [53, 12, 53, 12, 15] ∧
    ((twofold.afterSets attemptsInTurn).get? 53).map OptionField.data = some [5] ∧
    ((twofold.afterSets attemptsInTurn).get? 15).map OptionField.data = some [105] ∧
    ((twofold.afterSets attemptsInTurn).fields[2]?).map OptionField.data = some [1] := by
  obtain ⟨-, hcodes, hdata, hrepeated⟩ := attempts_replace_or_append twofold attemptsInTurn
  have hsecond := hrepeated 2 _ rfl (by decide)
  refine ⟨hcodes.trans ?_, (hdata 53).trans ?_, (hdata 15).trans ?_, by rw [hsecond]; rfl⟩
  · decide +kernel
  · decide +kernel
  · decide +kernel

end Dhcp.OptionArea
