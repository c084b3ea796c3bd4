import Dhcp.Config.Reading
import Dhcp.Config.Text
import Dhcp.Proofs.JsonValues

/-!
The values of the members of a configuration and the texts that spell them: string literals
for addresses, lists of those, decimal digits for seconds, and null where no address is
given. Reading such a text puts its value into the draft.
-/
namespace Dhcp.Config

open Json

theorem stringText_append (text rest : List Char) :
    stringText text ++ rest = '"' :: (text ++ '"' :: rest) := by
  simp [stringText]

theorem plain_of_mem_text {address : Ipv4} {c : Char} (h : c ∈ address.text) : Plain c := by
  rcases Ipv4.isDigit_or_point_of_mem_text h with hdigit | rfl
  · exact plain_of_isDigit hdigit
  · exact ⟨by decide, by decide, by decide⟩

/-- A string literal that spells an address. -/
def AddressLiteral (address : Ipv4) (text : List Char) : Prop :=
  ∃ lit, Spells address.text lit ∧ text = stringText lit

theorem addressLiteral_text (address : Ipv4) : AddressLiteral address (addressText address) :=
  ⟨address.text, spells_of_plain fun _ hc => plain_of_mem_text hc, rfl⟩

theorem readAddress_append {blanks : List Char} (h : Blank blanks) {address : Ipv4}
    {text : List Char} (htext : AddressLiteral address text) (rest : List Char) :
    Takes (readAddress (blanks ++ (text ++ rest))) address rest := by
  obtain ⟨lit, hlit, rfl⟩ := htext
  obtain ⟨shorter, hread⟩ := readString_append hlit rest
  rw [stringText_append]
  refine ⟨by simp; omega, ?_⟩
  simp only [readAddress, skipBlank_append h (c := '"') rfl, if_true, hread, Ipv4.ofText?_text]
  rfl

theorem readAddressOrNull_append {blanks : List Char} (h : Blank blanks) {address : Ipv4}
    {text : List Char} (htext : AddressLiteral address text) (rest : List Char) :
    Takes (readAddressOrNull (blanks ++ (text ++ rest))) (some address) rest := by
  have hread := (readAddress_append h htext rest).map some
  obtain ⟨lit, hlit, rfl⟩ := htext
  rw [stringText_append] at hread ⊢
  rw [readAddressOrNull, skipBlank_append h rfl]
  exact hread

theorem readAddressOrNull_null {blanks : List Char} (h : Blank blanks) (rest : List Char) :
    Takes (readAddressOrNull (blanks ++ ('n' :: 'u' :: 'l' :: 'l' :: rest))) none rest := by
  refine ⟨by simp; omega, ?_⟩
  rw [readAddressOrNull, skipBlank_append h rfl]
  rfl

theorem readSeconds_append {blanks : List Char} (h : Blank blanks) (seconds : UInt32)
    {rest : List Char} (hrest : EndsNumber rest) :
    Takes (readSeconds (blanks ++ (Nat.toDigits 10 seconds.toNat ++ rest))) seconds rest := by
  have hlt : seconds.toNat < UInt32.size := seconds.toNat_lt
  have hread := readNumber_append (Nat.lt_trans hlt (by decide)) hrest
  obtain ⟨d, others, hcons, hdigit⟩ := exists_toDigits_eq_cons seconds.toNat
  have hrange : (0 : Int) ≤ seconds.toNat ∧ (seconds.toNat : Int) < UInt32.size := by omega
  rw [hcons, List.cons_append] at hread ⊢
  obtain ⟨shorter, hread⟩ := hread
  refine ⟨by simp; omega, ?_⟩
  simp only [readSeconds, skipBlank_append h (isBlank_of_isDigit hdigit), hdigit, or_true, if_true,
    hread, if_pos hrange]
  simp [Taken.map, Taken.within]

/-- A list of such literals between brackets. -/
def AddressListText (addresses : List Ipv4) (text : List Char) : Prop :=
  ∃ entries, text = '[' :: entries ∧ Entries ']' AddressLiteral true entries addresses

/-- The literal of an address begins with a quote. -/
theorem next_address {first : Bool} {lead : List Char} (hlead : Lead first lead)
    (text : List Char) :
    ∃ notLonger, next ']' first (lead ++ '"' :: text) = .ok (.entry '"' text notLonger) :=
  next_entry hlead (by decide) rfl (by decide) text

theorem readAddressEntries_append {first : Bool} {entries : List Char} {addresses : List Ipv4}
    (h : Entries ']' AddressLiteral first entries addresses) (rest : List Char) :
    Takes (readAddressEntries first (entries ++ rest)) addresses rest := by
  induction h with
  | @closed first blanks hblank =>
    have hclose : isBlank ']' = false := rfl
    obtain ⟨shorter, hnext⟩ := next_close first hblank hclose rest
    rw [List.append_assoc, List.cons_append, List.nil_append, readAddressEntries, hnext]
    exact ⟨_, rfl⟩
  | @entry first lead text more address others hlead htext hmore ih =>
    have hread := readAddress_append blank_nil htext (more ++ rest)
    obtain ⟨lit, -, rfl⟩ := htext
    rw [List.nil_append, stringText_append] at hread
    obtain ⟨_, hread⟩ := hread
    obtain ⟨_, hothers⟩ := ih
    obtain ⟨_, hnext⟩ := next_address hlead (lit ++ '"' :: (more ++ rest))
    rw [List.append_assoc, List.append_assoc, stringText_append, readAddressEntries, hnext]
    simp only [hread, hothers]
    exact ⟨_, rfl⟩

theorem readAddresses_append {blanks : List Char} (h : Blank blanks) {addresses : List Ipv4}
    {text : List Char} (htext : AddressListText addresses text) (rest : List Char) :
    Takes (readAddresses (blanks ++ (text ++ rest))) addresses rest := by
  obtain ⟨entries, rfl, hentries⟩ := htext
  obtain ⟨_, hread⟩ := readAddressEntries_append hentries rest
  rw [List.cons_append]
  refine ⟨by simp; omega, ?_⟩
  simp only [readAddresses, skipBlank_append h (c := '[') rfl, if_true, hread]
  rfl

/-- What a member has for a value. -/
def Member.Value : Member → Type
  | .serverAddress | .subnetMask | .poolStart | .poolEnd => Ipv4
  | .routers | .dnsServers => List Ipv4
  | .leaseSeconds => UInt32
  | .broadcastAddress => Option Ipv4

/-- The text of an address that may be left open. -/
def AddressOrNullText : Option Ipv4 → List Char → Prop
  | some address, text => AddressLiteral address text
  | none, text => text = ['n', 'u', 'l', 'l']

/-- A text that spells a value of a member. -/
def ValueText : (m : Member) → m.Value → List Char → Prop
  | .serverAddress | .subnetMask | .poolStart | .poolEnd => AddressLiteral
  | .routers | .dnsServers => AddressListText
  | .leaseSeconds => fun seconds text => text = Nat.toDigits 10 (UInt32.toNat seconds)
  | .broadcastAddress => AddressOrNullText

theorem isJson_of_addressLiteral {address : Ipv4} {text : List Char}
    (h : AddressLiteral address text) : IsJson .value text := by
  obtain ⟨lit, hlit, rfl⟩ := h
  exact .string hlit.literal

theorem isJson_of_addressEntries {first : Bool} {entries : List Char} {addresses : List Ipv4}
    (h : Entries ']' AddressLiteral first entries addresses) :
    IsJson (.entries .list first) entries := by
  induction h with
  | closed hblank => exact @IsJson.closed .list _ _ hblank
  | entry hlead htext hmore ih =>
    exact .further hlead (.element (isJson_of_addressLiteral htext)) ih

theorem isJson_of_addressListText {addresses : List Ipv4} {text : List Char}
    (h : AddressListText addresses text) : IsJson .value text := by
  obtain ⟨entries, rfl, hentries⟩ := h
  exact @IsJson.bracketed .list entries (isJson_of_addressEntries hentries)

/-- What spells a value of a member is a value of JSON. -/
theorem ValueText.isJson {m : Member} {v : m.Value} {text : List Char} (h : ValueText m v text) :
    IsJson .value text := by
  cases m with
  | serverAddress | subnetMask | poolStart | poolEnd => exact isJson_of_addressLiteral h
  | routers | dnsServers => exact isJson_of_addressListText h
  | leaseSeconds =>
    subst h
    exact .number (numberText_toDigits _)
  | broadcastAddress =>
    cases v with
    | none =>
      subst h
      exact .word (by decide)
    | some address => exact isJson_of_addressLiteral h

/-- The draft with a value for a member. -/
def Draft.put (draft : Draft) : (m : Member) → m.Value → Draft
  | .serverAddress, address => { draft with serverAddress := some address }
  | .subnetMask, address => { draft with subnetMask := some address }
  | .poolStart, address => { draft with poolStart := some address }
  | .poolEnd, address => { draft with poolEnd := some address }
  | .routers, addresses => { draft with routers := some addresses }
  | .dnsServers, addresses => { draft with dnsServers := some addresses }
  | .leaseSeconds, seconds => { draft with leaseSeconds := some seconds }
  | .broadcastAddress, address => { draft with broadcastAddress := some address }

namespace Draft

variable {m other : Member}

/-- What a draft knows of a member. -/
def value? (draft : Draft) : (m : Member) → Option m.Value
  | .serverAddress => draft.serverAddress
  | .subnetMask => draft.subnetMask
  | .poolStart => draft.poolStart
  | .poolEnd => draft.poolEnd
  | .routers => draft.routers
  | .dnsServers => draft.dnsServers
  | .leaseSeconds => draft.leaseSeconds
  | .broadcastAddress => draft.broadcastAddress

theorem has_eq_isSome (draft : Draft) (m : Member) : draft.has m = (draft.value? m).isSome := by
  cases m <;> rfl

theorem value?_put_self (draft : Draft) (m : Member) (v : m.Value) :
    (draft.put m v).value? m = some v := by
  cases m <;> rfl

theorem value?_put_of_ne (draft : Draft) (v : m.Value) (h : other ≠ m) :
    (draft.put m v).value? other = draft.value? other := by
  cases m <;> cases other <;> first | rfl | exact absurd rfl h

theorem has_put_of_ne (draft : Draft) (v : m.Value) (h : other ≠ m) :
    (draft.put m v).has other = draft.has other := by
  rw [has_eq_isSome, value?_put_of_ne draft v h, ← has_eq_isSome]

theorem has_put_self (draft : Draft) (m : Member) (v : m.Value) :
    (draft.put m v).has m = true := by
  rw [has_eq_isSome, value?_put_self]
  rfl

/-- Members of which the draft has none yet stay so when another one is put into it. -/
theorem has_put_of_mem {draft : Draft} (v : m.Value) {others : List Member} (hm : m ∉ others)
    (hnew : ∀ other ∈ m :: others, draft.has other = false) :
    ∀ other ∈ others, (draft.put m v).has other = false := by
  intro other hother
  rw [has_put_of_ne draft v fun heq => hm (heq ▸ hother)]
  exact hnew other (List.mem_cons_of_mem m hother)

/-- Members may be put into a draft in either order. -/
theorem put_comm (draft : Draft) {m n : Member} (hne : m ≠ n) (v : m.Value) (w : n.Value) :
    (draft.put m v).put n w = (draft.put n w).put m v := by
  cases m <;> cases n <;> first | rfl | exact absurd rfl hne

end Draft

/-- A value is read into the draft and taken off the text, whatever stands behind it. -/
theorem readMember_append {m : Member} {v : m.Value} {value : List Char}
    (hvalue : ValueText m v value) {blanks : List Char} (h : Blank blanks) (draft : Draft)
    {rest : List Char} (hrest : EndsNumber rest) :
    Takes (readMember draft m (blanks ++ (value ++ rest))) (draft.put m v) rest := by
  cases m with
  | serverAddress | subnetMask | poolStart | poolEnd =>
    exact (readAddress_append h hvalue rest).map _
  | routers | dnsServers => exact (readAddresses_append h hvalue rest).map _
  | leaseSeconds =>
    subst hvalue
    exact (readSeconds_append h v hrest).map _
  | broadcastAddress =>
    have hread : Takes (readAddressOrNull (blanks ++ (value ++ rest))) v rest := by
      cases v with
      | none =>
        subst hvalue
        exact readAddressOrNull_null h rest
      | some address => exact readAddressOrNull_append h hvalue rest
    exact hread.map _

end Dhcp.Config
