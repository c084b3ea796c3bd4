import Dhcp.Proofs.SavedConfig

/-!
Configuration files of which only the front was written. A cut falls between the tokens of
the text or inside one of them. Nothing that stands before it is refused, and a number that
lost digits is still a number; but the bracket that closes the object is the last character
of the text, so reading always comes to the end of the text first.
-/
namespace Dhcp.Json

section

variable {α : Type} {front left right : List α}

/-- The front of two texts behind each other ends in the first or goes on into the second. -/
theorem prefix_within_or_beyond (h : front <+: left ++ right) :
    front <+: left ∨ ∃ more, more <+: right ∧ front = left ++ more := by
  obtain ⟨rest, h⟩ := h
  rcases List.append_eq_append_iff.mp h with ⟨more, hleft, -⟩ | ⟨more, hfront, hright⟩
  · exact .inl ⟨more, hleft.symm⟩
  · exact .inr ⟨more, ⟨rest, hright.symm⟩, hfront⟩

end

variable {ε α β : Type} {s front blanks : List Char} {fault : ε}

/-- The text ends with the value that is read, if not before it: reading fails with `fault`
or leaves nothing. -/
def RunsOut (fault : ε) (result : Except ε (Taken s α)) : Prop :=
  result = .error fault ∨ ∃ value, Takes result value []

theorem RunsOut.map {result : Except ε (Taken s α)} (h : RunsOut fault result) (f : α → β) :
    RunsOut fault (result.map fun t => t.map f) := by
  rcases h with rfl | ⟨value, htakes⟩
  · exact .inl rfl
  · exact .inr ⟨f value, htakes.map f⟩

theorem Blank.of_prefix (h : Blank blanks) (hfront : front <+: blanks) : Blank front :=
  fun c hc => h c (hfront.subset hc)

theorem endsNumber_nil : EndsNumber [] := by
  intro c more heq
  cases heq

theorem readString_unclosed {text : List Char} (h : ∀ c ∈ text, Plain c) :
    readString text = .error .truncated := by
  induction text with
  | nil => rw [readString]
  | cons c rest ih =>
    obtain ⟨hquote, hbackslash, hcontrol⟩ := h c List.mem_cons_self
    rw [readString, if_neg hquote, if_neg hbackslash, if_neg hcontrol,
      ih fun d hd => h d (List.mem_cons_of_mem c hd)]
    rfl

/-- What leads to an entry may be cut off behind any of its characters. -/
theorem Lead.of_prefix {first : Bool} {lead : List Char} (h : Lead first lead)
    (hfront : front <+: lead) : Blank front ∨ Lead first front := by
  cases h with
  | first h => exact .inl (h.of_prefix hfront)
  | later h hmore =>
    rcases prefix_within_or_beyond hfront with hin | ⟨rest, hrest, rfl⟩
    · exact .inl (h.of_prefix hin)
    · rcases List.prefix_cons_iff.mp hrest with rfl | ⟨behind, rfl, hbehind⟩
      · rw [List.append_nil]
        exact .inl h
      · exact .inr (.later h (hmore.of_prefix hbehind))

theorem next_of_blank (close : Char) (first : Bool) (h : Blank blanks) :
    next close first blanks = .error .truncated := by
  simp only [next, skipBlank_of_blank h]

theorem next_of_lead {first : Bool} {lead : List Char} (hlead : Lead first lead) {close : Char}
    (hclose : close ≠ ',') : next close first lead = .error .truncated := by
  cases hlead with
  | first h => exact next_of_blank close true h
  | later h hmore =>
    have hcomma : isBlank ',' = false := rfl
    simp only [next, skipBlank_append h hcomma, if_neg (Ne.symm hclose), entryBehindComma,
      skipBlank_of_blank hmore]
    rfl

theorem colon_of_blank (h : Blank blanks) : colon blanks = .error .truncated := by
  simp only [colon, skipBlank_of_blank h]

/-- The texts of entries behind an opening bracket, cut off before the bracket that closes
them. The entries that were begun are listed. -/
inductive Torn (spells : α → List Char → Prop) : Bool → List Char → List α → Prop
  | blank {first : Bool} {blanks : List Char} (h : Blank blanks) : Torn spells first blanks []
  | lead {first : Bool} {lead : List Char} (hlead : Lead first lead) : Torn spells first lead []
  /-- The last entry may be there in full. -/
  | inside {first : Bool} {lead text front : List Char} {a : α} (hlead : Lead first lead)
      (h : spells a text) (hfront : front <+: text) (hne : front ≠ []) :
      Torn spells first (lead ++ front) [a]
  | behind {first : Bool} {lead text more : List Char} {a : α} {others : List α}
      (hlead : Lead first lead) (h : spells a text) (hmore : Torn spells false more others) :
      Torn spells first (lead ++ (text ++ more)) (a :: others)

variable {spells : α → List Char → Prop} {first : Bool} {entries : List Char} {as : List α}

/-- Entries without the last of their characters are torn. -/
theorem Entries.torn {close : Char} (h : Entries close spells first entries as)
    (hfront : front <+: entries) (hne : front ≠ entries) :
    ∃ begun, begun <+: as ∧ Torn spells first front begun := by
  induction h generalizing front with
  | closed h =>
    have hblank := (List.prefix_concat_iff.mp hfront).resolve_left hne
    exact ⟨[], List.nil_prefix, .blank (h.of_prefix hblank)⟩
  | @entry first lead text more a others hlead htext hmore ih =>
    rcases prefix_within_or_beyond hfront with hin | ⟨rest, hrest, rfl⟩
    · rcases hlead.of_prefix hin with hblank | hcut
      · exact ⟨[], List.nil_prefix, .blank hblank⟩
      · exact ⟨[], List.nil_prefix, .lead hcut⟩
    · rcases prefix_within_or_beyond hrest with hin | ⟨behind, hbehind, rfl⟩
      · by_cases hempty : rest = []
        · rw [hempty, List.append_nil]
          exact ⟨[], List.nil_prefix, .lead hlead⟩
        · refine ⟨[a], ?_, .inside hlead htext hin hempty⟩
          exact (List.prefix_cons_inj a).mpr List.nil_prefix
      · have hshort : behind ≠ more := by
          rintro rfl
          exact hne rfl
        obtain ⟨begun, hbegun, htorn⟩ := ih hbehind hshort
        exact ⟨a :: begun, (List.prefix_cons_inj a).mpr hbegun, .behind hlead htext htorn⟩

theorem Torn.endsNumber (h : Torn spells false front as) : EndsNumber front := by
  cases h with
  | blank h =>
    have hends := h.endsNumber endsNumber_nil
    rwa [List.append_nil] at hends
  | lead hlead =>
    have hends := hlead.endsNumber []
    rwa [List.append_nil] at hends
  | inside hlead h hfront hne => exact hlead.endsNumber _
  | behind hlead h hmore => exact hlead.endsNumber _

end Dhcp.Json

namespace Dhcp.Config

open Json

variable {config : Config} {front blanks : List Char}

theorem readAddress_of_blank (h : Blank blanks) :
    readAddress blanks = .error (.json .truncated) := by
  simp only [readAddress, skipBlank_of_blank h]

theorem readAddress_torn (h : Blank blanks) {address : Ipv4}
    (hfront : front <+: addressText address) :
    RunsOut (.json .truncated) (readAddress (blanks ++ front)) := by
  rcases List.prefix_concat_iff.mp hfront with rfl | hopen
  · have hread := readAddress_append h (addressLiteral_text address) []
    rw [List.append_nil] at hread
    exact .inr ⟨address, hread⟩
  · rcases List.prefix_cons_iff.mp hopen with rfl | ⟨text, rfl, htext⟩
    · rw [List.append_nil]
      exact .inl (readAddress_of_blank h)
    · have hplain : ∀ c ∈ text, Plain c := fun c hc => plain_of_mem_text (htext.subset hc)
      left
      simp only [readAddress, skipBlank_append h (c := '"') rfl, if_true,
        readString_unclosed hplain]

theorem readAddressOrNull_of_blank (h : Blank blanks) :
    readAddressOrNull blanks = .error (.json .truncated) := by
  rw [readAddressOrNull, skipBlank_of_blank h, readAddress_of_blank h]
  rfl

theorem readAddressOrNull_null_torn (h : Blank blanks) {word : List Char}
    (hword : word <+: ['u', 'l', 'l']) :
    RunsOut (.json .truncated) (readAddressOrNull (blanks ++ 'n' :: word)) := by
  have hcases : (word = [] ∨ word = ['u'] ∨ word = ['u', 'l']) ∨ word = ['u', 'l', 'l'] := by
    simp only [List.prefix_cons_iff, List.prefix_nil] at hword
    rcases hword with rfl | ⟨_, rfl, rfl | ⟨_, rfl, rfl | ⟨_, rfl, rfl⟩⟩⟩ <;> simp
  rcases hcases with hcut | rfl
  · left
    rw [readAddressOrNull, skipBlank_append h rfl]
    rcases hcut with rfl | rfl | rfl
    · rfl
    · rfl
    · rfl
  · exact .inr ⟨none, readAddressOrNull_null h []⟩

theorem readAddressOrNull_torn (h : Blank blanks)
    (hfront : front <+: config.memberText .broadcastAddress) :
    RunsOut (.json .truncated) (readAddressOrNull (blanks ++ front)) := by
  unfold memberText at hfront
  cases hgiven : config.broadcastAddress with
  | some address =>
    simp only [hgiven] at hfront
    have hread := (readAddress_torn h hfront).map some
    rcases List.prefix_cons_iff.mp hfront with rfl | ⟨text, rfl, -⟩
    · rw [List.append_nil]
      exact .inl (readAddressOrNull_of_blank h)
    · rw [readAddressOrNull, skipBlank_append h rfl]
      exact hread
  | none =>
    simp only [hgiven] at hfront
    rcases List.prefix_cons_iff.mp hfront with rfl | ⟨word, rfl, hword⟩
    · rw [List.append_nil]
      exact .inl (readAddressOrNull_of_blank h)
    · exact readAddressOrNull_null_torn h hword

/-- A number that lost digits is still a number: it is read, and the text ends behind it. -/
theorem readSeconds_torn (h : Blank blanks) {seconds : UInt32}
    (hfront : front <+: Nat.toDigits 10 seconds.toNat) :
    RunsOut (.json .truncated) (readSeconds (blanks ++ front)) := by
  by_cases hempty : front = []
  · left
    rw [hempty, List.append_nil]
    simp only [readSeconds, skipBlank_of_blank h]
  · obtain ⟨n, hle, rfl⟩ := exists_toDigits_of_prefix hfront hempty
    have hn : (UInt32.ofNat n).toNat = n :=
      UInt32.toNat_ofNat_of_lt' (Nat.lt_of_le_of_lt hle seconds.toNat_lt)
    have hread := readSeconds_append h (UInt32.ofNat n) endsNumber_nil
    rw [hn, List.append_nil] at hread
    exact .inr ⟨UInt32.ofNat n, hread⟩

theorem readAddressEntries_nil (first : Bool) :
    readAddressEntries first [] = .error (.json .truncated) := by
  rw [readAddressEntries, next_of_blank ']' first blank_nil]

theorem readAddressEntries_torn {first : Bool} {addresses : List Ipv4}
    (h : Torn (fun address entry => entry = addressText address) first front addresses) :
    readAddressEntries first front = .error (.json .truncated) := by
  have hclose : ']' ≠ ',' := by decide
  induction h with
  | @blank first blanks h => rw [readAddressEntries, next_of_blank ']' first h]
  | lead hlead => rw [readAddressEntries, next_of_lead hlead hclose]
  | @inside first lead text front address hlead htext hfront hne =>
    subst htext
    have hread := readAddress_torn blank_nil hfront
    obtain ⟨c, rest, rfl⟩ := List.exists_cons_of_ne_nil hne
    obtain ⟨rfl, -⟩ := List.cons_prefix_cons.mp hfront
    obtain ⟨_, hnext⟩ := next_address hlead rest
    rw [readAddressEntries, hnext]
    rw [List.nil_append] at hread
    rcases hread with hcut | ⟨value, _, hread⟩
    · simp only [hcut]
    · simp only [hread, readAddressEntries_nil]
      rfl
  | @behind first lead text more address others hlead htext hmore ih =>
    subst htext
    have hread := readAddress_append blank_nil (addressLiteral_text address) more
    rw [List.nil_append, addressText, stringText_append] at hread
    obtain ⟨_, hread⟩ := hread
    obtain ⟨_, hnext⟩ := next_address hlead (address.text ++ '"' :: more)
    rw [addressText, stringText_append, readAddressEntries, hnext]
    simp only [hread, ih]
    rfl

theorem readAddresses_torn (h : Blank blanks) {addresses : List Ipv4} {text : List Char}
    (htext : SpellsAddresses addresses text) (hfront : front <+: text) :
    RunsOut (.json .truncated) (readAddresses (blanks ++ front)) := by
  by_cases hwhole : front = text
  · have hread := readAddresses_append h htext.listText []
    rw [List.append_nil, ← hwhole] at hread
    exact .inr ⟨addresses, hread⟩
  · obtain ⟨entries, rfl, hentries⟩ := htext
    left
    rcases List.prefix_cons_iff.mp hfront with rfl | ⟨rest, rfl, hrest⟩
    · rw [List.append_nil]
      simp only [readAddresses, skipBlank_of_blank h]
    · have hshort : rest ≠ entries := by
        rintro rfl
        exact hwhole rfl
      obtain ⟨begun, -, htorn⟩ := hentries.torn hrest hshort
      simp only [readAddresses, skipBlank_append h (c := '[') rfl, if_true,
        readAddressEntries_torn htorn]
      rfl

/-- The front of a value is never refused for what it is. -/
theorem readMember_torn {m : Member} {value : List Char} (hvalue : SpellsValue config m value)
    (h : Blank blanks) (hfront : front <+: value) (draft : Draft) :
    RunsOut (.json .truncated) (readMember draft m (blanks ++ front)) := by
  cases m with
  | serverAddress | subnetMask | poolStart | poolEnd =>
    subst hvalue
    exact (readAddress_torn h hfront).map _
  | routers | dnsServers => exact (readAddresses_torn h hvalue hfront).map _
  | leaseSeconds =>
    subst hvalue
    exact (readSeconds_torn h hfront).map _
  | broadcastAddress =>
    subst hvalue
    exact (readAddressOrNull_torn h hfront).map _

/-- The front of what stands behind the name of a member that the draft has not yet. -/
theorem readValue_torn {m : Member} {colonBlanks valueBlanks value : List Char}
    (hcolon : Blank colonBlanks) (hblanks : Blank valueBlanks)
    (hvalue : SpellsValue config m value) {draft : Draft} (hnew : draft.has m = false)
    (hfront : front <+: colonBlanks ++ ':' :: (valueBlanks ++ value)) :
    RunsOut (.json .truncated) (readValue draft m.name.toList front) := by
  have hcut : ∀ {blanks : List Char}, Blank blanks →
      readValue draft m.name.toList blanks = .error (.json .truncated) := by
    intro blanks h
    simp [readValue, m.ofName?_name, hnew, colon_of_blank h]
  rcases prefix_within_or_beyond hfront with hin | ⟨rest, hrest, rfl⟩
  · exact .inl (hcut (hcolon.of_prefix hin))
  · rcases List.prefix_cons_iff.mp hrest with rfl | ⟨behind, rfl, hbehind⟩
    · rw [List.append_nil]
      exact .inl (hcut hcolon)
    · obtain ⟨_, hread⟩ := colon_append hcolon behind
      have hmember : RunsOut (.json .truncated) (readMember draft m behind) := by
        rcases prefix_within_or_beyond hbehind with hin | ⟨text, htext, rfl⟩
        · have hnothing := readMember_torn hvalue (hblanks.of_prefix hin) List.nil_prefix draft
          rwa [List.append_nil] at hnothing
        · exact readMember_torn hvalue hblanks htext draft
      simp only [readValue, m.ofName?_name, hnew, hread]
      rcases hmember with hfault | ⟨filled, _, hfilled⟩
      · left
        simp only [hfault]
        rfl
      · right
        simp only [hfilled]
        exact ⟨filled, _, rfl⟩

/-- The front of a member, from the quote before its name on: the name is not closed, or what
stands behind it runs out. -/
theorem readKey_torn {m : Member} {text : List Char} (htext : SpellsMember config m text)
    {draft : Draft} (hnew : draft.has m = false) (hfront : '"' :: front <+: text) :
    readString front = .error .truncated ∨ ∃ value,
      Takes (readString front) m.name.toList value ∧
        RunsOut (.json .truncated) (readValue draft m.name.toList value) := by
  obtain ⟨colonBlanks, valueBlanks, value, hcolon, hblanks, hvalue, rfl⟩ := htext
  rw [stringText_append] at hfront
  have hrest := (List.prefix_cons_inj '"').mp hfront
  rcases prefix_within_or_beyond hrest with hin | ⟨behind, hbehind, rfl⟩
  · exact .inl (readString_unclosed fun c hc => m.plain_name c (hin.subset hc))
  · rcases List.prefix_cons_iff.mp hbehind with rfl | ⟨rest, rfl, hvalueFront⟩
    · rw [List.append_nil]
      exact .inl (readString_unclosed m.plain_name)
    · exact .inr ⟨rest, readString_append (spells_of_plain m.plain_name) rest,
        readValue_torn hcolon hblanks hvalue hnew hvalueFront⟩

theorem readMembers_nil (draft : Draft) (first : Bool) :
    readMembers draft first [] = .error (.json .truncated) := by
  rw [readMembers, next_of_blank '}' first blank_nil]

/-- A member that is cut off, or behind which the text ends. -/
theorem readMembers_inside {first : Bool} {lead : List Char} (hlead : Lead first lead) {m : Member}
    {text : List Char} (htext : SpellsMember config m text) {draft : Draft}
    (hnew : draft.has m = false) (hfront : front <+: text) (hne : front ≠ []) :
    readMembers draft first (lead ++ front) = .error (.json .truncated) := by
  have hquote : ∃ rest, front = '"' :: rest := by
    obtain ⟨_, _, _, _, _, _, rfl⟩ := htext
    obtain ⟨c, rest, rfl⟩ := List.exists_cons_of_ne_nil hne
    rw [stringText_append] at hfront
    obtain ⟨rfl, -⟩ := List.cons_prefix_cons.mp hfront
    exact ⟨rest, rfl⟩
  obtain ⟨rest, rfl⟩ := hquote
  obtain ⟨_, hnext⟩ := next_member hlead rest
  rcases readKey_torn htext hnew hfront with hkey | ⟨value, hkey, hfault | ⟨filled, hfilled⟩⟩
  · rw [readMembers, hnext]
    simp only [if_true, hkey]
  · exact readMembers_refused hlead hkey hfault
  · exact readMembers_error hlead hkey hfilled (readMembers_nil filled false)

/-- Members of which the draft has none yet are read up to where they are cut off. -/
theorem readMembers_torn {first : Bool} {ms : List Member}
    (h : Torn (SpellsMember config) first front ms) {draft : Draft}
    (hnew : ∀ m ∈ ms, draft.has m = false) (hms : ms.Nodup) :
    readMembers draft first front = .error (.json .truncated) := by
  have hclose : '}' ≠ ',' := by decide
  induction h generalizing draft with
  | @blank first blanks h => rw [readMembers, next_of_blank '}' first h]
  | lead hlead => rw [readMembers, next_of_lead hlead hclose]
  | inside hlead htext hfront hne =>
    exact readMembers_inside hlead htext (hnew _ List.mem_cons_self) hfront hne
  | @behind first lead text more m others hlead htext hmore ih =>
    obtain ⟨hm, hothers⟩ := List.nodup_cons.mp hms
    obtain ⟨behind, name, value, htext, hkey, hread⟩ :=
      htext.takes (hnew m List.mem_cons_self) hmore.endsNumber
    rw [htext]
    exact readMembers_error hlead hkey hread (ih (Draft.has_put_of_mem _ hm hnew) hothers)

/-- An object of members without the last of its characters is no more than a beginning. -/
theorem parse_torn_object {entries : List Char} {ms : List Member}
    (h : Entries '}' (SpellsMember config) true entries ms) (hms : ms.Nodup)
    (hfront : front <+: '{' :: entries) (hne : front ≠ '{' :: entries) :
    parse front = .error (.json .truncated) := by
  rcases List.prefix_cons_iff.mp hfront with rfl | ⟨rest, rfl, hrest⟩
  · rfl
  · have hshort : rest ≠ entries := by
      rintro rfl
      exact hne rfl
    obtain ⟨begun, hbegun, htorn⟩ := h.torn hrest hshort
    have hnew : ∀ m ∈ begun, ({} : Draft).has m = false := by
      intro m _
      cases m <;> rfl
    have hmembers := readMembers_torn htorn hnew (hbegun.sublist.nodup hms)
    have hopen : skipBlank ('{' :: rest) = ⟨'{' :: rest, Nat.le_refl _⟩ :=
      skipBlank_append blank_nil rfl rest
    simp only [parse, readConfig, hopen, if_true, hmembers]

theorem parse_torn_text {n : Nat} (h : n < config.text.length) :
    parse (config.text.take n) = .error (.json .truncated) := by
  obtain ⟨entries, htext, hentries⟩ := config.exists_entries_text
  have hall : Member.all.Nodup := by decide
  have hfront : config.text.take n <+: '{' :: entries := htext ▸ List.take_prefix n config.text
  refine parse_torn_object hentries hall hfront ?_
  rw [← htext]
  intro heq
  have hlength := congrArg List.length heq
  rw [List.length_take] at hlength
  omega

end Dhcp.Config
