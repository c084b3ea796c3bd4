import Dhcp.Proofs.MemberValues

/-!
Texts of a configuration as an object of its members, in any order and with any blanks
between the tokens, and with members of other names among them. Reading such an object goes
through its members from left to right: a member that the draft has not yet is put into it,
a member of another name leaves it as it is, and a member that comes again ends the reading.
-/
namespace Dhcp.Config

open Json

/-- A member of an object as it is written: what stands between the quotes of its key, and
its value. -/
structure Pair where
  key : List Char
  value : List Char

namespace Pair

/-- A text of a pair. -/
def Written (pair : Pair) (text : List Char) : Prop :=
  ∃ front back, Blank front ∧ Blank back ∧
    text = stringText pair.key ++ (front ++ ':' :: (back ++ pair.value))

/-- The key spells the name of a member. -/
def Names (pair : Pair) (m : Member) : Prop := Spells m.name.toList pair.key

/-- The key spells a text that is the name of no member, and the value is any. -/
def Foreign (pair : Pair) : Prop :=
  (∃ name, Spells name pair.key ∧ ∀ m : Member, name ≠ m.name.toList) ∧ IsJson .value pair.value

end Pair

/-- A member with a value for it. -/
abbrev Setting : Type := (m : Member) × m.Value

/-- What a pair is read as: a member with its value, or nothing. -/
inductive Reads : Pair → Option Setting → Prop
  | member {pair : Pair} {m : Member} {v : m.Value} (hname : pair.Names m)
    (hvalue : ValueText m v pair.value) : Reads pair (some ⟨m, v⟩)
  | foreign {pair : Pair} (h : pair.Foreign) : Reads pair none

/-- The draft behind a pair, unless its member is there already. -/
def Draft.take (draft : Draft) : Option Setting → Except Misfit Draft
  | none => .ok draft
  | some ⟨m, v⟩ => if draft.has m then .error (.duplicate m) else .ok (draft.put m v)

theorem Draft.take_eq_ok_iff {draft final : Draft} {m : Member} {v : m.Value} :
    draft.take (some ⟨m, v⟩) = .ok final ↔ draft.has m = false ∧ final = draft.put m v := by
  rw [take]
  split
  · next hhas => simp [hhas]
  · next hhas =>
    rw [Bool.not_eq_true] at hhas
    simp only [Except.ok.injEq, hhas, true_and]
    exact eq_comm

/-- Reading ends as the pairs decide: with a draft and the rest of the text, or with what is
wrong. -/
def Settles {s : List Char} (result : Except ReadFault (Taken s Draft)) (rest : List Char) :
    Except Misfit Draft → Prop
  | .ok draft => Takes result draft rest
  | .error reason => result = .error (.misfit reason)

theorem Member.ofName?_name (m : Member) : Member.ofName? m.name.toList = some m := by
  cases m <;> rfl

theorem Member.plain_name (m : Member) : ∀ c ∈ m.name.toList, Plain c := by
  have hall : (m.name.toList.all fun c => decide (Plain c)) = true := by
    cases m <;> rfl
  exact fun c hc => of_decide_eq_true (List.all_eq_true.mp hall c hc)

theorem Member.ofName?_eq_none {name : List Char} (h : ∀ m : Member, name ≠ m.name.toList) :
    Member.ofName? name = none := by
  rw [Member.ofName?, List.find?_eq_none]
  intro m _ heq
  exact h m (beq_iff_eq.mp heq).symm

/-- What stands behind a key is read as the item of the pair, and nothing behind it is. -/
theorem Reads.settles_value {pair : Pair} {item : Option Setting} (h : Reads pair item)
    {name front back : List Char} (hname : Spells name pair.key) (hfront : Blank front)
    (hback : Blank back) (draft : Draft) {rest : List Char} (hrest : EndsNumber rest) :
    Settles (readValue draft name (front ++ ':' :: (back ++ (pair.value ++ rest)))) rest
      (draft.take item) := by
  obtain ⟨_, hcolon⟩ := colon_append hfront (back ++ (pair.value ++ rest))
  cases h with
  | @member m v hmember hvalue =>
    obtain rfl := hname.unique hmember
    cases hhas : draft.has m with
    | true => simp [Draft.take, hhas, Settles, readValue, m.ofName?_name]
    | false =>
      obtain ⟨_, hread⟩ := readMember_append hvalue hback draft hrest
      simp only [Draft.take, hhas, readValue, m.ofName?_name, hcolon, hread]
      exact ⟨_, rfl⟩
  | foreign h =>
    obtain ⟨⟨other, hother, hunknown⟩, hvalue⟩ := h
    obtain rfl := hname.unique hother
    obtain ⟨_, hskip⟩ := skipValue_append hback hvalue hrest
    simp only [Draft.take, readValue, Member.ofName?_eq_none hunknown, hcolon, hskip]
    exact ⟨_, rfl⟩

theorem Reads.exists_name {pair : Pair} {item : Option Setting} (h : Reads pair item) :
    ∃ name, Spells name pair.key := by
  cases h with
  | member hname hvalue => exact ⟨_, hname⟩
  | foreign h =>
    obtain ⟨⟨name, hname, -⟩, -⟩ := h
    exact ⟨name, hname⟩

theorem Reads.isJson {pair : Pair} {item : Option Setting} (h : Reads pair item) :
    Literal pair.key ∧ IsJson .value pair.value := by
  obtain ⟨name, hname⟩ := h.exists_name
  refine ⟨hname.literal, ?_⟩
  cases h with
  | member hmember hvalue => exact hvalue.isJson
  | foreign h => exact h.2

/-- A pair is read from its quote to the end of its value, and no further. -/
theorem Reads.settles {pair : Pair} {item : Option Setting} (h : Reads pair item)
    {text : List Char} (htext : pair.Written text) (draft : Draft) {rest : List Char}
    (hrest : EndsNumber rest) :
    ∃ behind name value, text ++ rest = '"' :: behind ∧ Takes (readString behind) name value ∧
      Settles (readValue draft name value) rest (draft.take item) := by
  obtain ⟨front, back, hfront, hback, rfl⟩ := htext
  obtain ⟨name, hname⟩ := h.exists_name
  refine ⟨_, name, _, ?_, readString_append hname _,
    h.settles_value hname hfront hback draft hrest⟩
  simp [stringText]

/-- A member begins with the quote before its key. -/
theorem next_member {first : Bool} {lead : List Char} (hlead : Lead first lead)
    (text : List Char) :
    ∃ notLonger, next '}' first (lead ++ '"' :: text) = .ok (.entry '"' text notLonger) :=
  next_entry hlead (by decide) rfl (by decide) text

/-- A key and its value are read, and then the members behind them. -/
theorem readMembers_step {first : Bool} {lead : List Char} (hlead : Lead first lead)
    {draft filled final : Draft} {text key value more rest : List Char}
    (hkey : Takes (readString text) key value)
    (hvalue : Takes (readValue draft key value) filled more)
    (hmore : Takes (readMembers filled false more) final rest) :
    Takes (readMembers draft first (lead ++ '"' :: text)) final rest := by
  obtain ⟨_, hkey⟩ := hkey
  obtain ⟨_, hvalue⟩ := hvalue
  obtain ⟨_, hmore⟩ := hmore
  obtain ⟨_, hnext⟩ := next_member hlead text
  rw [readMembers, hnext]
  simp only [if_true, hkey, hvalue]
  change Takes ((readMembers filled false more).map _) _ _
  rw [hmore]
  exact ⟨_, rfl⟩

/-- What is wrong behind a member is wrong with the whole. -/
theorem readMembers_error {first : Bool} {lead : List Char} (hlead : Lead first lead)
    {draft filled : Draft} {text key value more : List Char} {fault : ReadFault}
    (hkey : Takes (readString text) key value)
    (hvalue : Takes (readValue draft key value) filled more)
    (hmore : readMembers filled false more = .error fault) :
    readMembers draft first (lead ++ '"' :: text) = .error fault := by
  obtain ⟨_, hkey⟩ := hkey
  obtain ⟨_, hvalue⟩ := hvalue
  obtain ⟨_, hnext⟩ := next_member hlead text
  rw [readMembers, hnext]
  simp only [if_true, hkey, hvalue]
  change (readMembers filled false more).map _ = _
  rw [hmore]
  rfl

/-- What is wrong with a member is wrong with the whole. -/
theorem readMembers_refused {first : Bool} {lead : List Char} (hlead : Lead first lead)
    {draft : Draft} {text key value : List Char} {fault : ReadFault}
    (hkey : Takes (readString text) key value)
    (hvalue : readValue draft key value = .error fault) :
    readMembers draft first (lead ++ '"' :: text) = .error fault := by
  obtain ⟨_, hkey⟩ := hkey
  obtain ⟨_, hnext⟩ := next_member hlead text
  rw [readMembers, hnext]
  simp only [if_true, hkey, hvalue]

/-- A text of a pair that is read as `item`. -/
def SpellsItem (item : Option Setting) (text : List Char) : Prop :=
  ∃ pair : Pair, Reads pair item ∧ pair.Written text

/-- The members of an object, read one after the other. -/
theorem readMembers_settles {first : Bool} {entries : List Char} {items : List (Option Setting)}
    (h : Entries '}' SpellsItem first entries items) (draft : Draft) (rest : List Char) :
    Settles (readMembers draft first (entries ++ rest)) rest (items.foldlM Draft.take draft) := by
  induction h generalizing draft with
  | @closed first blanks hblank =>
    have hclose : isBlank '}' = false := rfl
    obtain ⟨_, hnext⟩ := next_close first hblank hclose rest
    rw [List.append_assoc, List.cons_append, List.nil_append, readMembers, hnext]
    exact ⟨_, rfl⟩
  | @entry first lead text more item others hlead htext hmore ih =>
    obtain ⟨pair, hreads, hwritten⟩ := htext
    have hrest : EndsNumber (more ++ rest) :=
      hmore.endsNumber (endsNumber_cons rfl (by decide)) rest
    obtain ⟨behind, name, value, htext, hkey, hvalue⟩ := hreads.settles hwritten draft hrest
    rw [List.append_assoc, List.append_assoc, htext, List.foldlM_cons]
    cases htake : draft.take item with
    | error reason =>
      rw [htake] at hvalue
      exact readMembers_refused hlead hkey hvalue
    | ok filled =>
      rw [htake] at hvalue
      change Settles _ _ (others.foldlM Draft.take filled)
      have hothers := ih filled
      cases hfold : others.foldlM Draft.take filled with
      | error reason =>
        rw [hfold] at hothers
        exact readMembers_error hlead hkey hvalue hothers
      | ok final =>
        rw [hfold] at hothers
        exact readMembers_step hlead hkey hvalue hothers

/-- A text that is an object of entries and nothing else. -/
def ObjectText {α : Type} (spells : α → List Char → Prop) (as : List α) (text : List Char) : Prop :=
  ∃ front entries back, Blank front ∧ Blank back ∧ Entries '}' spells true entries as ∧
    text = front ++ '{' :: (entries ++ back)

/-- An object is read as the configuration of the draft behind its members. -/
theorem parse_object {items : List (Option Setting)} {text : List Char}
    (h : ObjectText SpellsItem items text) :
    parse text = match items.foldlM Draft.take {} with
      | .ok draft => complete .missing draft
      | .error reason => .error (.misfit reason) := by
  obtain ⟨front, entries, back, hfront, hback, hentries, rfl⟩ := h
  have hmembers := readMembers_settles hentries {} back
  cases hfold : items.foldlM Draft.take {} with
  | error reason =>
    rw [hfold] at hmembers
    simp only [parse, readConfig, skipBlank_append hfront (c := '{') rfl, if_true]
    rw [hmembers]
  | ok draft =>
    rw [hfold] at hmembers
    obtain ⟨_, hmembers⟩ := hmembers
    simp only [parse, readConfig, skipBlank_append hfront (c := '{') rfl, if_true, hmembers]
    cases complete .missing draft with
    | error fault => rfl
    | ok config => simp only [Except.map, skipBlank_of_blank hback]

/-! Configurations as they are written, without escapes. -/

/-- A text that spells a list of addresses between brackets. -/
def SpellsAddresses (addresses : List Ipv4) (text : List Char) : Prop :=
  ∃ entries, text = '[' :: entries ∧
    Entries ']' (fun address entry => entry = addressText address) true entries addresses

/-- A text that spells the value that a configuration has for a member. -/
def SpellsValue (config : Config) : Member → List Char → Prop
  | .routers, text => SpellsAddresses config.routers text
  | .dnsServers, text => SpellsAddresses config.dnsServers text
  | m, text => text = config.memberText m

variable {config : Config}

theorem SpellsAddresses.listText {addresses : List Ipv4} {text : List Char}
    (h : SpellsAddresses addresses text) : AddressListText addresses text := by
  obtain ⟨entries, rfl, hentries⟩ := h
  exact ⟨entries, rfl, hentries.mono fun address text htext => htext ▸ addressLiteral_text address⟩

/-- The value that a configuration has for a member. -/
def value (config : Config) : (m : Member) → m.Value
  | .serverAddress => config.serverAddress
  | .subnetMask => config.subnetMask
  | .poolStart => config.poolStart
  | .poolEnd => config.poolEnd
  | .routers => config.routers
  | .dnsServers => config.dnsServers
  | .leaseSeconds => config.leaseSeconds
  | .broadcastAddress => config.broadcastAddress

/-- A member as a configuration has it. -/
def setting (config : Config) (m : Member) : Setting := ⟨m, config.value m⟩

theorem SpellsValue.valueText {m : Member} {text : List Char} (h : SpellsValue config m text) :
    ValueText m (config.value m) text := by
  cases m with
  | serverAddress | subnetMask | poolStart | poolEnd =>
    subst h
    exact addressLiteral_text _
  | routers | dnsServers => exact SpellsAddresses.listText h
  | leaseSeconds => exact h
  | broadcastAddress =>
    subst h
    unfold memberText value
    cases config.broadcastAddress with
    | none => rfl
    | some address => exact addressLiteral_text address

/-- A text that spells a member: its name, a colon and its value. -/
def SpellsMember (config : Config) (m : Member) (text : List Char) : Prop :=
  ∃ front back value, Blank front ∧ Blank back ∧ SpellsValue config m value ∧
    text = stringText m.name.toList ++ (front ++ ':' :: (back ++ value))

theorem SpellsMember.item {m : Member} {text : List Char} (h : SpellsMember config m text) :
    SpellsItem (some (config.setting m)) text := by
  obtain ⟨front, back, value, hfront, hback, hvalue, htext⟩ := h
  exact ⟨⟨m.name.toList, value⟩, .member (spells_of_plain m.plain_name) hvalue.valueText,
    front, back, hfront, hback, htext⟩

/-- A member that the draft has not yet, from the quote before its name to the end of its
value. -/
theorem SpellsMember.takes {m : Member} {text : List Char} (h : SpellsMember config m text)
    {draft : Draft} (hnew : draft.has m = false) {rest : List Char} (hrest : EndsNumber rest) :
    ∃ behind name value, text ++ rest = '"' :: behind ∧ Takes (readString behind) name value ∧
      Takes (readValue draft name value) (draft.put m (config.value m)) rest := by
  obtain ⟨pair, hreads, hwritten⟩ := h.item
  obtain ⟨behind, name, value, htext, hkey, hvalue⟩ := hreads.settles hwritten draft hrest
  have htake : draft.take (some (config.setting m)) = .ok (draft.put m (config.value m)) :=
    Draft.take_eq_ok_iff.mpr ⟨hnew, rfl⟩
  rw [htake] at hvalue
  exact ⟨behind, name, value, htext, hkey, hvalue⟩

end Dhcp.Config
