import Dhcp.Proofs.MemberValues
import Mathlib.Data.Nat.Init

/-!
Values that are accepted for a member. Among the values of JSON, a reader accepts those only
that spell a value of its member: what a value begins with tells its kind, and a string, a
list or a number of that kind is taken for what it spells and refused otherwise.
-/
namespace Dhcp.Json

variable {more : List Char} {c : Char}

/-- What a value is, by its first character. -/
theorem IsJson.by_first (h : IsJson .value (c :: more)) :
    (c = '"' ∧ ∃ lit, Literal lit ∧ more = lit ++ ['"']) ∨
    ((c = '-' ∨ c.isDigit = true) ∧ ∃ n, NumberText n (c :: more)) ∨
    c :: more ∈ words ∨
    ∃ frame : Frame, c = frame.opening ∧ IsJson (.entries frame true) more := by
  generalize htext : c :: more = text at h ⊢
  cases h with
  | @string lit h =>
    obtain ⟨rfl, rfl⟩ := List.cons.inj htext
    exact .inl ⟨rfl, lit, h, rfl⟩
  | @number n _ h =>
    obtain ⟨d, others, rfl, hd⟩ := h.exists_cons
    obtain ⟨rfl, rfl⟩ := List.cons.inj htext
    exact .inr (.inl ⟨hd, n, h⟩)
  | word h => exact .inr (.inr (.inl h))
  | @bracketed frame entries h =>
    obtain ⟨rfl, rfl⟩ := List.cons.inj htext
    exact .inr (.inr (.inr ⟨frame, rfl, h⟩))

theorem IsJson.of_quote (h : IsJson .value ('"' :: more)) :
    ∃ lit, Literal lit ∧ more = lit ++ ['"'] := by
  rcases h.by_first with ⟨-, hlit⟩ | ⟨hc, -⟩ | hword | ⟨frame, hopen, -⟩
  · exact hlit
  · exact absurd hc (by decide)
  · simp [words] at hword
  · cases frame <;> cases hopen

theorem IsJson.of_bracket (h : IsJson .value ('[' :: more)) :
    IsJson (.entries .list true) more := by
  rcases h.by_first with ⟨hc, -⟩ | ⟨hc, -⟩ | hword | ⟨frame, hopen, hentries⟩
  · cases hc
  · exact absurd hc (by decide)
  · simp [words] at hword
  · cases frame with
    | list => exact hentries
    | object => cases hopen

theorem IsJson.of_letter_n (h : IsJson .value ('n' :: more)) : more = ['u', 'l', 'l'] := by
  rcases h.by_first with ⟨hc, -⟩ | ⟨hc, -⟩ | hword | ⟨frame, hopen, -⟩
  · cases hc
  · exact absurd hc (by decide)
  · simpa [words] using hword
  · cases frame <;> cases hopen

theorem IsJson.of_number (h : IsJson .value (c :: more)) (hc : c = '-' ∨ c.isDigit = true) :
    ∃ n, NumberText n (c :: more) := by
  have hne : ∀ {d : Char}, d ≠ '-' ∧ d.isDigit = false → c ≠ d := ne_of_beginsNumber hc
  rcases h.by_first with ⟨rfl, -⟩ | ⟨-, hnumber⟩ | hword | ⟨frame, rfl, -⟩
  · exact absurd rfl (hne (by decide))
  · exact hnumber
  · simp only [words, List.mem_cons, List.cons.injEq, List.not_mem_nil, or_false] at hword
    rcases hword with ⟨rfl, -⟩ | ⟨rfl, -⟩ | ⟨rfl, -⟩ <;> exact absurd hc (by decide)
  · exact absurd rfl (hne (by cases frame <;> decide))

/-- A significand that leaves no digit over is the number of its digits. -/
theorem significand_of_none_left {ds : List Char} {m n : Nat} (h : significand m ds = (n, 0)) :
    n = Nat.ofDigitChars 10 ds m := by
  induction ds generalizing m with
  | nil => exact (congrArg Prod.fst h).symm
  | cons c rest ih =>
    rw [significand] at h
    split at h
    · rw [Nat.ofDigitChars_cons, Nat.mul_comm 10 m]
      exact ih h
    · cases (Prod.mk.inj h).2

theorem wholeNumber_eq_integer {n : Numeral} {m value : Nat}
    (h : n.wholeNumber m = .integer value) : n.negative = false ∧ m = value := by
  cases hsign : n.negative with
  | true =>
    rw [Numeral.wholeNumber, if_pos hsign] at h
    split at h
    · cases h
    · next hm =>
      have heq := Number.integer.inj h
      omega
  | false =>
    rw [Numeral.wholeNumber, hsign, if_neg Bool.false_ne_true] at h
    exact ⟨rfl, Int.ofNat.inj (Number.integer.inj h)⟩

/-- A number that is an integer and not negative is written in its own digits. -/
theorem NumberText.eq_toDigits {n : Numeral} {text : List Char} (h : NumberText n text)
    {value : Nat} (hvalue : n.value? = some (.integer value)) : text = Nat.toDigits 10 value := by
  obtain ⟨fraction, exponent, hfraction, hexponent, rfl⟩ := h.parts
  obtain ⟨m, left, hsignificand⟩ : ∃ m left, significand 0 n.whole = (m, left) := ⟨_, _, rfl⟩
  simp only [Numeral.value?, hsignificand] at hvalue
  split at hvalue
  · next hwhole =>
    obtain ⟨rfl, hnoFraction, hnoExponent⟩ := hwhole
    obtain ⟨hsign, rfl⟩ := wholeNumber_eq_integer (Option.some.inj hvalue)
    rw [hnoFraction] at hfraction
    rw [hnoExponent] at hexponent
    obtain rfl : fraction = [] := by
      cases hfraction with
      | none => rfl
      | some hdigits => exact absurd rfl hdigits.1
    obtain rfl : exponent = [] := by
      cases hexponent
      rfl
    rw [hsign, significand_of_none_left hsignificand,
      toDigits_ofDigitChars h.whole.1 h.whole.2 h.leadingZero]
    simp
  · split at hvalue
    · cases hvalue
    · cases hvalue

theorem value?_of_readNumber {n : Numeral} {text rest behind : List Char} (h : NumberText n text)
    (hrest : EndsNumber rest) {number : Number}
    (hread : Takes (readNumber (text ++ rest)) number behind) : n.value? = some number := by
  obtain ⟨_, hnumeral⟩ := numeral_append missingDigits h hrest
  obtain ⟨_, hread⟩ := hread
  simp only [readNumber, hnumeral] at hread
  cases hvalue : n.value? with
  | none =>
    simp only [hvalue] at hread
    cases hread
  | some found =>
    simp only [hvalue] at hread
    exact congrArg some (congrArg Taken.value (Except.ok.inj hread))

end Dhcp.Json

namespace Dhcp.Config

open Json

variable {s blanks text behind rest : List Char}

theorem exists_string_of_readAddress {c : Char} (hblanks : Blank blanks) (hc : isBlank c = false)
    {address : Ipv4} (hread : Takes (readAddress (blanks ++ c :: s)) address behind) :
    c = '"' ∧ ∃ string, Takes (readString s) string behind ∧
      Ipv4.ofText? string = some address := by
  obtain ⟨_, hread⟩ := hread
  simp only [readAddress, skipBlank_append hblanks hc] at hread
  split at hread
  · next hquote =>
    refine ⟨hquote, ?_⟩
    cases hstring : readString s with
    | error fault =>
      rw [hstring] at hread
      cases hread
    | ok string =>
      simp only [hstring] at hread
      cases haddress : Ipv4.ofText? string.value with
      | none =>
        rw [haddress] at hread
        cases hread
      | some found =>
        rw [haddress] at hread
        have heq := Except.ok.inj hread
        obtain rfl : found = address := congrArg Taken.value heq
        obtain rfl : string.rest = behind := congrArg Taken.rest heq
        exact ⟨string.value, ⟨string.shorter, rfl⟩, haddress⟩
  · cases hread

theorem addressLiteral_of_readAddress (h : IsJson .value text) (hblanks : Blank blanks)
    {address : Ipv4} (hread : Takes (readAddress (blanks ++ (text ++ rest))) address behind) :
    AddressLiteral address text := by
  obtain ⟨c, more, rfl, hc⟩ := h.exists_cons nofun
  rw [List.cons_append] at hread
  obtain ⟨rfl, string, hstring, haddress⟩ := exists_string_of_readAddress hblanks hc.1 hread
  obtain ⟨lit, hlit, rfl⟩ := h.of_quote
  rw [List.append_assoc, List.singleton_append] at hstring
  have hspells := spells_of_readString hlit hstring
  rw [Ipv4.eq_text_of_ofText? haddress] at hspells
  exact ⟨lit, hspells, rfl⟩

theorem exists_first_of_readAddressEntries {first : Bool} {lead : List Char}
    (hlead : Lead first lead) {c : Char} (hc : BeginsValue c) {addresses : List Ipv4}
    (hread : Takes (readAddressEntries first (lead ++ c :: s)) addresses behind) :
    ∃ address others middle, addresses = address :: others ∧
      Takes (readAddress (c :: s)) address middle ∧
        Takes (readAddressEntries false middle) others behind := by
  have hclose : ']' ≠ ',' := by decide
  obtain ⟨_, hnext⟩ := next_entry hlead hclose hc.1 hc.2.1 s
  obtain ⟨_, hread⟩ := hread
  rw [readAddressEntries, hnext] at hread
  simp only at hread
  cases haddress : readAddress (c :: s) with
  | error fault =>
    rw [haddress] at hread
    cases hread
  | ok address =>
    simp only [haddress] at hread
    obtain ⟨others, hothers, rfl, rfl⟩ := Takes.of_map ⟨_, hread⟩
    exact ⟨address.value, others.value, address.rest, rfl, ⟨address.shorter, rfl⟩, hothers⟩

/-- A list that addresses are read from has string literals that spell them for its entries. -/
theorem entries_of_readAddressEntries {first : Bool} {entries : List Char}
    {texts : List (List Char)}
    (h : Entries ']' (fun entry own => own = entry ∧ IsJson (.entry .list) entry) first entries
      texts)
    {addresses : List Ipv4}
    (hread : Takes (readAddressEntries first (entries ++ rest)) addresses behind) :
    Entries ']' AddressLiteral first entries addresses := by
  induction h generalizing addresses with
  | closed hblank =>
    obtain ⟨rfl, -⟩ := hread.unique (readAddressEntries_append (.closed hblank) rest)
    exact .closed hblank
  | @entry first lead text more entry others hlead htext hmore ih =>
    obtain ⟨rfl, hentry⟩ := htext
    obtain ⟨c, tail, rfl, hc⟩ := hentry.exists_cons nofun
    rw [List.append_assoc, List.append_assoc, List.cons_append] at hread
    obtain ⟨address, others, middle, rfl, haddress, hothers⟩ :=
      exists_first_of_readAddressEntries hlead hc hread
    obtain - | - | - | - | hvalue := hentry
    have hliteral := addressLiteral_of_readAddress hvalue blank_nil haddress
    obtain ⟨-, rfl⟩ := haddress.unique (readAddress_append blank_nil hliteral _)
    exact .entry hlead hliteral (ih hothers)

theorem addressListText_of_readAddresses (h : IsJson .value text) (hblanks : Blank blanks)
    {addresses : List Ipv4}
    (hread : Takes (readAddresses (blanks ++ (text ++ rest))) addresses behind) :
    AddressListText addresses text := by
  obtain ⟨c, more, rfl, hc⟩ := h.exists_cons nofun
  rw [List.cons_append] at hread
  obtain ⟨_, hread⟩ := hread
  simp only [readAddresses, skipBlank_append hblanks hc.1] at hread
  split at hread
  · next hbracket =>
    subst hbracket
    obtain ⟨texts, htexts⟩ := isJson_entries_iff.mp h.of_bracket
    obtain ⟨found, hfound, rfl, -⟩ := Takes.of_map ⟨_, hread⟩
    exact ⟨more, rfl, entries_of_readAddressEntries htexts hfound⟩
  · cases hread

theorem readAddressOrNull_of_ne {c : Char} (hblanks : Blank blanks) (hc : isBlank c = false)
    (hletter : c ≠ 'n') : readAddressOrNull (blanks ++ c :: s) =
      (readAddress (blanks ++ c :: s)).map fun t => t.map some := by
  rw [readAddressOrNull]
  split
  · next heq =>
    have hcons := congrArg Subtype.val ((skipBlank_append hblanks hc s).symm.trans heq)
    exact absurd (List.cons.inj hcons).1 hletter
  · rfl

theorem addressOrNullText_of_readAddressOrNull (h : IsJson .value text) (hblanks : Blank blanks)
    {address : Option Ipv4}
    (hread : Takes (readAddressOrNull (blanks ++ (text ++ rest))) address behind) :
    AddressOrNullText address text := by
  obtain ⟨c, more, rfl, hc⟩ := h.exists_cons nofun
  by_cases hletter : c = 'n'
  · subst hletter
    obtain rfl := h.of_letter_n
    obtain ⟨rfl, -⟩ := hread.unique (readAddressOrNull_null hblanks rest)
    rfl
  · rw [List.cons_append, readAddressOrNull_of_ne hblanks hc.1 hletter] at hread
    obtain ⟨given, hgiven, rfl, -⟩ := hread.of_map
    exact addressLiteral_of_readAddress h hblanks hgiven

/-- Digits are the only numbers that seconds are read from. -/
theorem secondsText_of_readSeconds (h : IsJson .value text) (hrest : EndsNumber rest)
    (hblanks : Blank blanks) {seconds : UInt32}
    (hread : Takes (readSeconds (blanks ++ (text ++ rest))) seconds behind) :
    text = Nat.toDigits 10 seconds.toNat := by
  obtain ⟨c, more, rfl, hc⟩ := h.exists_cons nofun
  rw [List.cons_append] at hread
  obtain ⟨_, hread⟩ := hread
  simp only [readSeconds, skipBlank_append hblanks hc.1] at hread
  split at hread
  · next hbegins =>
    obtain ⟨n, hn⟩ := h.of_number hbegins
    cases hnumber : readNumber (c :: (more ++ rest)) with
    | error fault =>
      simp only [hnumber] at hread
      cases hread
    | ok number =>
      have hvalue := value?_of_readNumber hn hrest ⟨number.shorter, hnumber⟩
      simp only [hnumber] at hread
      split at hread
      · cases hread
      · next value hinteger =>
        rw [hinteger] at hvalue
        split at hread
        · next hrange =>
          obtain ⟨value, rfl⟩ := Int.eq_ofNat_of_zero_le hrange.1
          have hseconds : UInt32.ofNat value = seconds :=
            congrArg Taken.value (Except.ok.inj hread)
          have hlt : value < UInt32.size := Int.ofNat_lt.mp hrange.2
          rw [← hseconds, UInt32.toNat_ofNat_of_lt' hlt]
          exact hn.eq_toDigits hvalue
        · cases hread
  · cases hread

/-- A value of JSON that is accepted for a member spells a value of it. -/
theorem exists_valueText_of_readMember {draft filled : Draft} {m : Member}
    (h : IsJson .value text) (hblanks : Blank blanks) (hrest : EndsNumber rest)
    (hread : Takes (readMember draft m (blanks ++ (text ++ rest))) filled behind) :
    ∃ v : m.Value, ValueText m v text := by
  cases m with
  | serverAddress | subnetMask | poolStart | poolEnd =>
    obtain ⟨address, hread, -, -⟩ := hread.of_map
    exact ⟨address.value, addressLiteral_of_readAddress h hblanks hread⟩
  | routers | dnsServers =>
    obtain ⟨addresses, hread, -, -⟩ := hread.of_map
    exact ⟨addresses.value, addressListText_of_readAddresses h hblanks hread⟩
  | leaseSeconds =>
    obtain ⟨seconds, hread, -, -⟩ := hread.of_map
    exact ⟨seconds.value, secondsText_of_readSeconds h hrest hblanks hread⟩
  | broadcastAddress =>
    obtain ⟨address, hread, -, -⟩ := hread.of_map
    exact ⟨address.value, addressOrNullText_of_readAddressOrNull h hblanks hread⟩

end Dhcp.Config
