import Dhcp.Json.Skip
import Dhcp.Proofs.StringLiterals

/-!
JSON values of any nesting, and passing over one of them. A value is either without brackets
or a pair of brackets with entries between, and the entries behind a bracket are what is
left when some of them are passed. Passing over a value takes the value and nothing else,
whatever frames are open around it and whatever text stands behind it.
-/
namespace Dhcp.Json

/-- The bracket that begins a frame. -/
def Frame.opening : Frame → Char
  | .list => '['
  | .object => '{'

/-- The values that are words. -/
def words : List (List Char) :=
  [['n', 'u', 'l', 'l'], ['t', 'r', 'u', 'e'], ['f', 'a', 'l', 's', 'e']]

/-- What a text is a part of JSON as. -/
inductive Shape
  | value
  /-- An element of a list, or a member of an object. -/
  | entry (frame : Frame)
  /-- The entries of a frame that are still to come, and the bracket behind them. -/
  | entries (frame : Frame) (first : Bool)

/-- The texts of JSON. -/
inductive IsJson : Shape → List Char → Prop
  | string {lit : List Char} (h : Literal lit) : IsJson .value ('"' :: (lit ++ ['"']))
  | number {n : Numeral} {text : List Char} (h : NumberText n text) : IsJson .value text
  | word {text : List Char} (h : text ∈ words) : IsJson .value text
  | bracketed {frame : Frame} {entries : List Char} (h : IsJson (.entries frame true) entries) :
    IsJson .value (frame.opening :: entries)
  | element {text : List Char} (h : IsJson .value text) : IsJson (.entry .list) text
  | member {key front back value : List Char} (hkey : Literal key) (hfront : Blank front)
    (hback : Blank back) (h : IsJson .value value) :
    IsJson (.entry .object) ('"' :: (key ++ '"' :: (front ++ ':' :: (back ++ value))))
  | closed {frame : Frame} {first : Bool} {blanks : List Char} (h : Blank blanks) :
    IsJson (.entries frame first) (blanks ++ [frame.close])
  | further {frame : Frame} {first : Bool} {lead entry more : List Char} (hlead : Lead first lead)
    (h : IsJson (.entry frame) entry) (hmore : IsJson (.entries frame false) more) :
    IsJson (.entries frame first) (lead ++ (entry ++ more))

/-- The entries of a frame, each by its own text. -/
theorem isJson_entries_iff {frame : Frame} {first : Bool} {text : List Char} :
    IsJson (.entries frame first) text ↔ ∃ entries : List (List Char),
      Entries frame.close (fun entry own => own = entry ∧ IsJson (.entry frame) entry) first text
        entries := by
  constructor
  · intro h
    generalize hshape : Shape.entries frame first = shape at h
    induction h generalizing first with
    | string | number | word | bracketed | element | member => cases hshape
    | closed h =>
      cases hshape
      exact ⟨[], .closed h⟩
    | further hlead h hmore ih ihmore =>
      cases hshape
      obtain ⟨others, hothers⟩ := ihmore rfl
      exact ⟨_ :: others, .entry hlead ⟨rfl, h⟩ hothers⟩
  · rintro ⟨entries, h⟩
    induction h with
    | closed h => exact .closed h
    | entry hlead h hmore ih =>
      obtain ⟨rfl, hentry⟩ := h
      exact .further hlead hentry ih

/-! One step of passing over a text. -/

variable {expect : Expect} {frames : List Frame} {frame : Frame} {c : Char} {s rest : List Char}

theorem skipFrom_blank_cons (hc : isBlank c = true) (hmore : expect ≠ .after ∨ frames ≠ []) :
    skipFrom expect frames (c :: rest) = skipFrom expect frames rest := by
  cases expect with
  | key | colon => rw [skipFrom, if_pos hc]
  | value => simp [skipFrom, hc]
  | opened => cases frames <;> simp [skipFrom, hc]
  | after =>
    cases frames with
    | nil => exact hmore.elim (absurd rfl) (absurd rfl)
    | cons frame outer => rw [skipFrom, if_pos hc]

theorem skipFrom_blank {blanks : List Char} (h : Blank blanks)
    (hmore : expect ≠ .after ∨ frames ≠ []) (s : List Char) :
    skipFrom expect frames (blanks ++ s) = skipFrom expect frames s := by
  induction blanks with
  | nil => rfl
  | cons c more ih =>
    rw [List.cons_append, skipFrom_blank_cons (h c List.mem_cons_self) hmore]
    exact ih fun d hd => h d (List.mem_cons_of_mem c hd)

theorem skipFrom_open (frame : Frame) (frames : List Frame) (rest : List Char) :
    skipFrom .value frames (frame.opening :: rest) = skipFrom .opened (frame :: frames) rest := by
  cases frame with
  | list | object => simp [skipFrom, Frame.opening, isBlank]

theorem skipFrom_scalar (hc : isBlank c = false) (hopen : c ≠ '[' ∧ c ≠ '{')
    (h : Takes (skipScalar c s) () rest) :
    skipFrom .value frames (c :: s) = skipFrom .after frames rest := by
  obtain ⟨_, h⟩ := h
  simp [skipFrom, hc, hopen.1, hopen.2, h]

theorem skipFrom_key (h : Takes (skipString s) () rest) :
    skipFrom .key frames ('"' :: s) = skipFrom .colon frames rest := by
  obtain ⟨_, h⟩ := h
  have hquote : ¬ isBlank '"' = true := by decide
  rw [skipFrom, if_neg hquote, if_pos rfl, h]

theorem skipFrom_colon (frames : List Frame) (rest : List Char) :
    skipFrom .colon frames (':' :: rest) = skipFrom .value frames rest := by
  have hcolon : ¬ isBlank ':' = true := by decide
  rw [skipFrom, if_neg hcolon, if_pos rfl]

/-- What is expected behind a bracket, and what behind an entry. -/
def expectEntry (first : Bool) : Expect := if first then .opened else .after

theorem skipFrom_close (frame : Frame) (first : Bool) (outer : List Frame) (rest : List Char) :
    skipFrom (expectEntry first) (frame :: outer) (frame.close :: rest) =
      skipFrom .after outer rest := by
  have hclose : isBlank frame.close = false ∧ frame.close ≠ ',' := by
    cases frame <;> decide
  cases first with
  | true => simp [expectEntry, skipFrom, hclose.1]
  | false => simp [expectEntry, skipFrom, hclose.1, hclose.2]

/-- What leads to an entry is passed over before the entry is begun. -/
theorem skipFrom_lead {first : Bool} {lead : List Char} (hlead : Lead first lead)
    (hc : isBlank c = false) (hclose : c ≠ frame.close) (outer : List Frame) (rest : List Char) :
    skipFrom (expectEntry first) (frame :: outer) (lead ++ c :: rest) =
      skipFrom frame.entry (frame :: outer) (c :: rest) := by
  have hframes : ∀ {expect : Expect}, expect ≠ .after ∨ frame :: outer ≠ [] :=
    .inr (List.cons_ne_nil frame outer)
  cases hlead with
  | first h =>
    rw [skipFrom_blank h hframes, expectEntry, if_pos rfl, skipFrom, if_neg (by simp [hc]),
      if_neg hclose]
  | later h hmore =>
    have hcomma : ¬ isBlank ',' = true := by decide
    rw [List.append_assoc, skipFrom_blank h hframes, expectEntry, if_neg Bool.false_ne_true,
      List.cons_append, skipFrom, if_neg hcomma, if_pos rfl, skipFrom_blank hmore hframes]

/-! Passing over a value without brackets. -/

/-- A character that a value may begin with. -/
def BeginsValue (c : Char) : Prop := isBlank c = false ∧ c ≠ ']' ∧ c ≠ '}'

theorem BeginsValue.ne_close (h : BeginsValue c) (frame : Frame) : c ≠ frame.close := by
  cases frame with
  | list => exact h.2.1
  | object => exact h.2.2

/-- A value without brackets, passed over from its first character on. -/
def Scalar (text : List Char) : Prop :=
  ∃ c more, text = c :: more ∧ BeginsValue c ∧ (c ≠ '[' ∧ c ≠ '{') ∧
    ∀ rest, EndsNumber rest → Takes (skipScalar c (more ++ rest)) () rest

theorem scalar_string {lit : List Char} (h : Literal lit) : Scalar ('"' :: (lit ++ ['"'])) := by
  refine ⟨'"', lit ++ ['"'], rfl, ⟨by decide, by decide⟩, by decide, ?_⟩
  intro rest _
  obtain ⟨_, hskip⟩ := skipString_append h rest
  rw [List.append_assoc, List.singleton_append, skipScalar, if_pos rfl, hskip]
  exact ⟨_, rfl⟩

theorem scalar_word {word : List Char} (h : word ∈ words) : Scalar word := by
  simp only [words, List.mem_cons, List.not_mem_nil, or_false] at h
  rcases h with rfl | rfl | rfl
  · exact ⟨'n', _, rfl, ⟨by decide, by decide⟩, by decide, fun rest _ => ⟨by simp; omega, rfl⟩⟩
  · exact ⟨'t', _, rfl, ⟨by decide, by decide⟩, by decide, fun rest _ => ⟨by simp; omega, rfl⟩⟩
  · exact ⟨'f', _, rfl, ⟨by decide, by decide⟩, by decide, fun rest _ => ⟨by simp; omega, rfl⟩⟩

theorem NumberText.exists_cons {n : Numeral} {text : List Char} (h : NumberText n text) :
    ∃ c more, text = c :: more ∧ (c = '-' ∨ c.isDigit = true) := by
  obtain ⟨fraction, exponent, -, -, rfl⟩ := h.parts
  cases n.negative with
  | true => exact ⟨'-', _, rfl, .inl rfl⟩
  | false =>
    obtain ⟨d, others, hwhole, hd, -⟩ := h.whole.exists_cons
    rw [hwhole]
    exact ⟨d, _, rfl, .inr hd⟩

theorem ne_of_beginsNumber {c d : Char} (hc : c = '-' ∨ c.isDigit = true)
    (hd : d ≠ '-' ∧ d.isDigit = false) : c ≠ d := by
  rcases hc with rfl | hc
  · exact Ne.symm hd.1
  · exact ne_of_isDigit hc hd.2

theorem isBlank_of_beginsNumber {c : Char} (h : c = '-' ∨ c.isDigit = true) :
    isBlank c = false := by
  rcases h with rfl | h
  · rfl
  · exact isBlank_of_isDigit h

theorem scalar_number {n : Numeral} {text : List Char} (h : NumberText n text) : Scalar text := by
  obtain ⟨c, more, rfl, hc⟩ := h.exists_cons
  have hne : ∀ {d : Char}, d ≠ '-' ∧ d.isDigit = false → c ≠ d := ne_of_beginsNumber hc
  refine ⟨c, more, rfl, ⟨isBlank_of_beginsNumber hc, hne (by decide), hne (by decide)⟩,
    ⟨hne (by decide), hne (by decide)⟩, ?_⟩
  intro rest hrest
  have hnumeral := numeral_append (fun _ => .malformed) h hrest
  rw [List.cons_append] at hnumeral
  obtain ⟨_, hread⟩ := hnumeral
  rw [skipScalar, if_neg (hne (by decide)), if_pos hc, skipNumber, hread]
  exact ⟨_, rfl⟩

/-! Passing over a whole value. -/

/-- A text is passed over as what it is, and nothing behind it is. -/
def Shape.Skips : Shape → List Char → Prop
  | .value, text => ∀ frames rest, EndsNumber rest →
    skipFrom .value frames (text ++ rest) = skipFrom .after frames rest
  | .entry frame, text => ∀ frames rest, EndsNumber rest →
    skipFrom frame.entry frames (text ++ rest) = skipFrom .after frames rest
  | .entries frame first, text => ∀ outer rest,
    skipFrom (expectEntry first) (frame :: outer) (text ++ rest) = skipFrom .after outer rest

/-- What every value and every entry begins with. -/
theorem IsJson.exists_cons {shape : Shape} {text : List Char} (h : IsJson shape text)
    (hshape : ∀ frame first, shape ≠ .entries frame first) :
    ∃ c more, text = c :: more ∧ BeginsValue c := by
  have hscalar : ∀ {text : List Char}, Scalar text → ∃ c more, text = c :: more ∧ BeginsValue c :=
    fun ⟨c, more, htext, hc, _⟩ => ⟨c, more, htext, hc⟩
  induction h with
  | string h => exact hscalar (scalar_string h)
  | number h => exact hscalar (scalar_number h)
  | word h => exact hscalar (scalar_word h)
  | @bracketed frame entries h =>
    refine ⟨frame.opening, entries, rfl, ?_⟩
    cases frame with
    | list | object => exact ⟨by decide, by decide⟩
  | element h ih => exact ih nofun
  | member => exact ⟨'"', _, rfl, by decide, by decide⟩
  | closed => exact absurd rfl (hshape _ _)
  | further => exact absurd rfl (hshape _ _)

theorem IsJson.endsNumber {frame : Frame} {text : List Char}
    (h : IsJson (.entries frame false) text) (rest : List Char) : EndsNumber (text ++ rest) := by
  obtain ⟨entries, hentries⟩ := isJson_entries_iff.mp h
  apply hentries.endsNumber
  intro rest
  cases frame with
  | list | object => exact endsNumber_cons rfl (by decide) rest

theorem Scalar.skips {text : List Char} (h : Scalar text) : Shape.value.Skips text := by
  obtain ⟨c, more, rfl, hc, hopen, hskip⟩ := h
  intro frames rest hrest
  exact skipFrom_scalar hc.1 hopen (hskip rest hrest)

theorem Shape.entry_ne_entries (frame other : Frame) (first : Bool) :
    Shape.entry frame ≠ .entries other first := nofun

/-- Every text of JSON is passed over as what it is. -/
theorem IsJson.skips {shape : Shape} {text : List Char} (h : IsJson shape text) :
    shape.Skips text := by
  induction h with
  | string h => exact (scalar_string h).skips
  | number h => exact (scalar_number h).skips
  | word h => exact (scalar_word h).skips
  | @bracketed frame entries h ih =>
    intro frames rest _
    rw [List.cons_append, skipFrom_open]
    exact ih frames rest
  | element h ih => exact ih
  | @member key front back value hkey hfront hback h ih =>
    intro frames rest hrest
    have htext : '"' :: (key ++ '"' :: (front ++ ':' :: (back ++ value))) ++ rest =
        '"' :: (key ++ '"' :: (front ++ ':' :: (back ++ (value ++ rest)))) := by
      simp
    have hcolon : ∀ s, skipFrom .colon frames (front ++ s) = skipFrom .colon frames s :=
      skipFrom_blank hfront (.inl (by decide))
    have hvalue : ∀ s, skipFrom .value frames (back ++ s) = skipFrom .value frames s :=
      skipFrom_blank hback (.inl (by decide))
    rw [htext, Frame.entry, skipFrom_key (skipString_append hkey _), hcolon, skipFrom_colon, hvalue]
    exact ih frames rest hrest
  | @closed frame first blanks h =>
    intro outer rest
    have hframes : expectEntry first ≠ .after ∨ frame :: outer ≠ [] :=
      .inr (List.cons_ne_nil frame outer)
    rw [List.append_assoc, skipFrom_blank h hframes]
    exact skipFrom_close frame first outer rest
  | @further frame first lead entry more hlead h hmore ih ihmore =>
    intro outer rest
    obtain ⟨c, others, rfl, hc⟩ := h.exists_cons (Shape.entry_ne_entries frame)
    rw [List.append_assoc, List.append_assoc, List.cons_append,
      skipFrom_lead hlead hc.1 (hc.ne_close frame)]
    have hentry := ih (frame :: outer) (more ++ rest) (hmore.endsNumber rest)
    rw [List.cons_append] at hentry
    rw [hentry]
    exact ihmore outer rest

/-- Passing over a value takes the value and the blanks before it. -/
theorem skipValue_append {blanks text : List Char} (hblanks : Blank blanks)
    (h : IsJson .value text) (hrest : EndsNumber rest) :
    Takes (skipValue (blanks ++ (text ++ rest))) () rest := by
  have hskip : skipFrom .value [] (blanks ++ (text ++ rest)) = .ok rest := by
    have hvalue : ∀ s, skipFrom .value [] (blanks ++ s) = skipFrom .value [] s :=
      skipFrom_blank hblanks (.inl (by decide))
    rw [hvalue, h.skips [] rest hrest, skipFrom]
  refine ⟨(length_skipFrom hskip).2 (by decide), ?_⟩
  unfold skipValue
  split
  · next heq =>
    obtain rfl := Except.ok.inj (hskip.symm.trans heq)
    rfl
  · next heq => cases hskip.symm.trans heq

end Dhcp.Json
