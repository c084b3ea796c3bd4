import Dhcp.Proofs.AcceptedValues
import Dhcp.Proofs.MemberOrder

/-!
Objects that are refused for their members. An object that is accepted names each of its
members once and lacks none that must be there. A member that is there already may not come
again, and what is reported is the first repetition in the text; of the members that are
missing, the one is reported that is written first in a saved configuration.
-/
namespace Dhcp.Config

open Json

/-- A pair as any object of JSON may have it. -/
def JsonMember (pair : Pair) (text : List Char) : Prop :=
  Literal pair.key ∧ IsJson .value pair.value ∧ pair.Written text

variable {draft final filled : Draft} {items : List (Option Setting)} {pairs : List Pair}
  {text behind rest : List Char} {config : Config}

/-! The pairs of an object that is accepted are read, each as an item. -/

theorem exists_first_of_readMembers {first : Bool} {lead : List Char} (hlead : Lead first lead)
    (h : Takes (readMembers draft first (lead ++ '"' :: text)) final rest) :
    ∃ key value filled more, Takes (readString text) key value ∧
      Takes (readValue draft key value) filled more ∧
        Takes (readMembers filled false more) final rest := by
  obtain ⟨_, hnext⟩ := next_member hlead text
  obtain ⟨_, h⟩ := h
  rw [readMembers, hnext] at h
  simp only [if_true] at h
  cases hkey : readString text with
  | error fault =>
    simp only [hkey] at h
    cases h
  | ok key =>
    simp only [hkey] at h
    cases hvalue : readValue draft key.value key.rest with
    | error fault =>
      simp only [hvalue] at h
      cases h
    | ok value =>
      simp only [hvalue] at h
      obtain ⟨whole, hmore, rfl, rfl⟩ := Takes.of_map ⟨_, h⟩
      exact ⟨key.value, key.rest, value.value, value.rest, ⟨key.shorter, rfl⟩,
        ⟨value.shorter, hvalue⟩, hmore⟩

/-- A key and a value of JSON behind it that are accepted are read as an item. -/
theorem exists_reads_of_readValue {pair : Pair} {name front back : List Char}
    (hname : Spells name pair.key) (hjson : IsJson .value pair.value) (hfront : Blank front)
    (hback : Blank back) (hrest : EndsNumber rest)
    (hread : Takes (readValue draft name (front ++ ':' :: (back ++ (pair.value ++ rest)))) filled
      behind) :
    ∃ item, Reads pair item := by
  by_cases hknown : ∃ m : Member, name = m.name.toList
  · obtain ⟨m, rfl⟩ := hknown
    obtain ⟨_, hcolon⟩ := colon_append hfront (back ++ (pair.value ++ rest))
    obtain ⟨_, hread⟩ := hread
    simp only [readValue, m.ofName?_name, hcolon] at hread
    split at hread
    · cases hread
    · cases hmember : readMember draft m (back ++ (pair.value ++ rest)) with
      | error fault =>
        rw [hmember] at hread
        cases hread
      | ok taken =>
        obtain ⟨v, hv⟩ := exists_valueText_of_readMember hjson hback hrest ⟨taken.shorter, hmember⟩
        exact ⟨some ⟨m, v⟩, .member hname hv⟩
  · exact ⟨none, .foreign ⟨⟨name, hname, not_exists.mp hknown⟩, hjson⟩⟩

theorem exists_reads_of_readMembers {first : Bool} {entries : List Char}
    (h : Entries '}' JsonMember first entries pairs)
    (hread : Takes (readMembers draft first (entries ++ rest)) final behind) :
    ∀ pair ∈ pairs, ∃ item, Reads pair item := by
  induction h generalizing draft with
  | closed hblank => exact nofun
  | @entry first lead text more pair others hlead htext hmore ih =>
    obtain ⟨hkey, hjson, hwritten⟩ := htext
    have hrest : EndsNumber (more ++ rest) :=
      hmore.endsNumber (endsNumber_cons rfl (by decide)) rest
    obtain ⟨front, back, hfront, hback, htext⟩ := id hwritten
    have hquote : lead ++ (text ++ more) ++ rest = lead ++ '"' ::
        (pair.key ++ '"' :: (front ++ ':' :: (back ++ (pair.value ++ (more ++ rest))))) := by
      simp [htext, stringText]
    rw [hquote] at hread
    obtain ⟨name, value, filled, middle, hstring, hvalue, hothers⟩ :=
      exists_first_of_readMembers hlead hread
    have hname := spells_of_readString hkey hstring
    obtain ⟨-, rfl⟩ := hstring.unique (readString_append hname _)
    obtain ⟨item, hreads⟩ := exists_reads_of_readValue hname hjson hfront hback hrest hvalue
    have hsettles := hreads.settles_value hname hfront hback draft hrest
    cases htake : draft.take item with
    | error reason =>
      obtain ⟨_, hvalue⟩ := hvalue
      rw [htake] at hsettles
      cases hsettles.symm.trans hvalue
    | ok taken =>
      rw [htake] at hsettles
      obtain ⟨-, rfl⟩ := hvalue.unique hsettles
      exact List.forall_mem_cons.mpr ⟨⟨item, hreads⟩, ih hothers⟩

/-- The members that must be there, in their order. -/
def Member.required : List Member :=
  [.serverAddress, .subnetMask, .poolStart, .poolEnd, .leaseSeconds]

namespace Draft

/-- Where a member is already there that comes later, it is found to come again, and nothing
before it is. -/
theorem foldlM_take_put {m : Member} (v : m.Value) (h : items.foldlM take draft = .ok final)
    (hm : m ∈ members items) : items.foldlM take (draft.put m v) = .error (.duplicate m) := by
  induction items generalizing draft with
  | nil => cases hm
  | cons item others ih =>
    rw [List.foldlM_cons] at h ⊢
    cases item with
    | none => exact ih h hm
    | some setting =>
      obtain ⟨n, w⟩ := setting
      by_cases hmn : m = n
      · subst hmn
        rw [take, if_pos (has_put_self draft m v)]
        rfl
      · cases htake : draft.take (some ⟨n, w⟩) with
        | error reason =>
          rw [htake] at h
          cases h
        | ok filled =>
          rw [htake] at h
          obtain ⟨hnew, rfl⟩ := take_eq_ok_iff.mp htake
          have hnew' : (draft.put m v).has n = false := by
            rwa [has_put_of_ne draft v (Ne.symm hmn)]
          rw [take_eq_ok_iff.mpr ⟨hnew', rfl⟩, put_comm draft hmn]
          exact ih h ((List.mem_cons.mp hm).resolve_left hmn)

/-- A member that is put among others that have it is found to come again. -/
theorem foldlM_take_insert {before after : List (Option Setting)} {m : Member} (v : m.Value)
    (h : (before ++ after).foldlM take draft = .ok final) (hm : m ∈ members (before ++ after)) :
    (before ++ some ⟨m, v⟩ :: after).foldlM take draft = .error (.duplicate m) := by
  rw [List.foldlM_append] at h ⊢
  cases hbefore : before.foldlM take draft with
  | error reason =>
    rw [hbefore] at h
    cases h
  | ok middle =>
    rw [hbefore] at h
    change (some ⟨m, v⟩ :: after).foldlM take middle = _
    rw [List.foldlM_cons]
    cases hhas : middle.has m with
    | true =>
      rw [take, if_pos hhas]
      rfl
    | false =>
      rw [take_eq_ok_iff.mpr ⟨hhas, rfl⟩]
      refine foldlM_take_put v h ?_
      rw [members, List.filterMap_append, List.mem_append] at hm
      refine hm.resolve_left fun hfront => ?_
      have hthere := (has_of_foldlM_take hbefore m).mpr (.inr hfront)
      rw [hhas] at hthere
      cases hthere

/-- What is reported is the first member in their order that must be there and is not. -/
theorem toConfig_eq_error {m : Member}
    (h : Member.required.find? (fun m => !draft.has m) = some m) : draft.toConfig = .error m := by
  obtain ⟨server, mask, start, stop, routers, dns, lease, broadcast⟩ := draft
  cases server <;> cases mask <;> cases start <;> cases stop <;> cases lease <;>
    first | (obtain rfl := Option.some.inj h; rfl) | cases h

theorem has_of_toConfig {m : Member} (h : draft.toConfig = .ok config) (hm : m ∈ Member.required) :
    draft.has m = true := by
  cases hfind : Member.required.find? (fun m => !draft.has m) with
  | some missing => cases (toConfig_eq_error hfind).symm.trans h
  | none => simpa using List.find?_eq_none.mp hfind m hm

/-- The member that is reported missing is the first of all that are missing. -/
theorem toConfig_of_missing {first : Member} (hfirst : first ∈ Member.required)
    (hnone : draft.has first = false)
    (hleast : ∀ m ∈ Member.required, draft.has m = false → first.index ≤ m.index) :
    draft.toConfig = .error first := by
  have hsorted : Member.required.Pairwise fun a b => a.index < b.index := by decide
  have hsome : (Member.required.find? fun m => !draft.has m).isSome = true :=
    List.find?_isSome.mpr ⟨first, hfirst, by simp [hnone]⟩
  obtain ⟨m, hm⟩ := Option.isSome_iff_exists.mp hsome
  obtain ⟨hmissing, before, after, happend, hbefore⟩ := List.find?_eq_some_iff_append.mp hm
  rw [happend] at hfirst hsorted hleast
  obtain ⟨-, hafter, -⟩ := List.pairwise_append.mp hsorted
  rcases List.mem_append.mp hfirst with hfront | hback
  · have hthere := hbefore first hfront
    simp [hnone] at hthere
  · rcases List.mem_cons.mp hback with rfl | hbehind
    · exact toConfig_eq_error hm
    · have hlt := (List.pairwise_cons.mp hafter).1 first hbehind
      have hle := hleast m (by simp) (by simpa using hmissing)
      omega

end Draft

theorem ObjectText.written (h : ObjectText JsonMember pairs text) :
    ObjectText Pair.Written pairs text := by
  obtain ⟨front, entries, back, hfront, hback, hentries, htext⟩ := h
  exact ⟨front, entries, back, hfront, hback, hentries.mono fun _ _ hmember => hmember.2.2, htext⟩

/-- An object of pairs that are read is an object of JSON. -/
theorem ObjectText.jsonMembers (h : ObjectText Pair.Written pairs text)
    (hreads : ∀ pair ∈ pairs, ∃ item, Reads pair item) : ObjectText JsonMember pairs text := by
  obtain ⟨front, entries, back, hfront, hback, hentries, htext⟩ := h
  have hsame : List.Forall₂ (fun pair same => pair = same ∧ ∃ item, Reads pair item) pairs pairs :=
    List.forall₂_same.mpr fun pair hpair => ⟨rfl, hreads pair hpair⟩
  refine ⟨front, entries, back, hfront, hback, hentries.along hsame ?_, htext⟩
  rintro pair same own hwritten ⟨rfl, item, hread⟩
  exact ⟨hread.isJson.1, hread.isJson.2, hwritten⟩

theorem exists_reads_of_parse (htext : ObjectText JsonMember pairs text)
    (h : parse text = .ok config) : ∀ pair ∈ pairs, ∃ item, Reads pair item := by
  obtain ⟨front, entries, back, hfront, hback, hentries, rfl⟩ := htext
  simp only [parse, readConfig, skipBlank_append hfront (c := '{') rfl, if_true] at h
  cases hread : readMembers {} true (entries ++ back) with
  | error fault =>
    simp only [hread] at h
    cases h
  | ok taken => exact exists_reads_of_readMembers hentries ⟨taken.shorter, hread⟩

/-- The members of an object that is accepted make up a draft that lacks nothing. -/
theorem exists_draft_of_parse (htext : ObjectText Pair.Written pairs text)
    (h : parse text = .ok config) (hreads : List.Forall₂ Reads pairs items) :
    ∃ draft, items.foldlM Draft.take {} = .ok draft ∧ draft.toConfig = .ok config := by
  rw [parse_object (htext.spellsItems hreads)] at h
  cases hfold : items.foldlM Draft.take {} with
  | error reason =>
    rw [hfold] at h
    cases h
  | ok draft =>
    simp only [hfold, complete] at h
    refine ⟨draft, rfl, ?_⟩
    cases hconfig : draft.toConfig with
    | error m =>
      rw [hconfig] at h
      cases h
    | ok found =>
      rw [hconfig] at h
      rw [Except.ok.inj h]

/-- One more pair that names a member which is there already. -/
theorem parse_repeated {before after : List Pair}
    (htext : ObjectText JsonMember (before ++ after) text) (h : parse text = .ok config)
    {m : Member} (hnamed : ∃ pair ∈ before ++ after, pair.Names m) {inserted : Pair} {v : m.Value}
    (hname : inserted.Names m) (hvalue : ValueText m v inserted.value) {longer : List Char}
    (hlonger : ObjectText Pair.Written (before ++ inserted :: after) longer) :
    parse longer = .error (.misfit (.duplicate m)) := by
  obtain ⟨hbefore, hafter⟩ := List.forall_mem_append.mp (exists_reads_of_parse htext h)
  obtain ⟨front, hfront⟩ := exists_items hbefore
  obtain ⟨back, hback⟩ := exists_items hafter
  have hreads : List.Forall₂ Reads (before ++ after) (front ++ back) := List.rel_append hfront hback
  have hrepeated : List.Forall₂ Reads (before ++ inserted :: after)
      (front ++ some ⟨m, v⟩ :: back) :=
    List.rel_append hfront (.cons (.member hname hvalue) hback)
  obtain ⟨draft, hdraft, -⟩ := exists_draft_of_parse htext.written h hreads
  rw [parse_object (hlonger.spellsItems hrepeated),
    Draft.foldlM_take_insert v hdraft ((mem_members_iff_names hreads).mpr hnamed)]

open Classical in
/-- The pairs that name none of the members that are gone. -/
noncomputable def without (gone : Member → Prop) (pairs : List Pair) : List Pair :=
  pairs.filter fun pair => ∀ m, gone m → ¬ pair.Names m

theorem mem_without {gone : Member → Prop} {pair : Pair} :
    pair ∈ without gone pairs ↔ pair ∈ pairs ∧ ∀ m, gone m → ¬ pair.Names m := by
  simp [without]

theorem exists_names_without {gone : Member → Prop} {m : Member} :
    (∃ pair ∈ without gone pairs, pair.Names m) ↔
      (∃ pair ∈ pairs, pair.Names m) ∧ ¬ gone m := by
  constructor
  · rintro ⟨pair, hpair, hname⟩
    obtain ⟨hthere, hstays⟩ := mem_without.mp hpair
    exact ⟨⟨pair, hthere, hname⟩, fun hgone => hstays m hgone hname⟩
  · rintro ⟨⟨pair, hpair, hname⟩, hstays⟩
    refine ⟨pair, mem_without.mpr ⟨hpair, fun n hgone hother => ?_⟩, hname⟩
    obtain rfl := Member.name_inj (Spells.unique hname hother)
    exact hstays hgone

/-- An object without some of the members that must be there. -/
theorem parse_incomplete (htext : ObjectText JsonMember pairs text) (h : parse text = .ok config)
    {gone : Member → Prop} {first : Member} (hfirst : gone first)
    (hgone : ∀ m, gone m → m ∈ Member.required ∧ first.index ≤ m.index) {shorter : List Char}
    (hshorter : ObjectText Pair.Written (without gone pairs) shorter) :
    parse shorter = .error (.misfit (.missing first)) := by
  have hpairs := exists_reads_of_parse htext h
  obtain ⟨items, hreads⟩ := exists_items hpairs
  obtain ⟨draft, hdraft, hconfig⟩ := exists_draft_of_parse htext.written h hreads
  have hstays : ∀ pair ∈ without gone pairs, ∃ item, Reads pair item :=
    fun pair hpair => hpairs pair (mem_without.mp hpair).1
  obtain ⟨kept, hkept⟩ := exists_items hstays
  have honce : NamedOnce pairs :=
    (nodup_members_iff hreads).mp (Draft.exists_foldlM_take_iff.mp ⟨draft, hdraft⟩).2
  obtain ⟨rest, hrest⟩ : ∃ rest, kept.foldlM Draft.take {} = .ok rest :=
    Draft.exists_foldlM_take_iff.mpr
      ⟨fun m _ => Draft.has_empty m, (nodup_members_iff hkept).mpr (honce.filter _)⟩
  have hhas : ∀ m, rest.has m = true ↔ draft.has m = true ∧ ¬ gone m := by
    intro m
    rw [Draft.has_of_foldlM_take hrest, Draft.has_of_foldlM_take hdraft, Draft.has_empty m,
      mem_members_iff_names hkept, mem_members_iff_names hreads, exists_names_without]
    simp
  have hmissing : rest.toConfig = .error first := by
    apply Draft.toConfig_of_missing (hgone first hfirst).1
    · rw [← Bool.not_eq_true, hhas]
      exact fun hthere => hthere.2 hfirst
    · intro m hm hnone
      apply (hgone m _).2
      rw [← Bool.not_eq_true, hhas] at hnone
      exact Classical.not_not.mp fun hkeeps => hnone ⟨Draft.has_of_toConfig hconfig hm, hkeeps⟩
  rw [parse_object (hshorter.spellsItems hkept), hrest]
  simp only [complete, hmissing]

end Dhcp.Config

namespace Dhcp.ConfigFile

open Config Json

/-- Loading fails because of the members of an object, and the report says why. -/
def Refused (file : ConfigFile) (message : String) : Prop :=
  ∃ reason, file.load = .error (.read (.misfit reason)) ∧
    ∀ printed, reason.message printed = message

theorem refused_of_parse {text : List Char} {reason : Misfit} {message : String}
    (h : parse text = .error (.misfit reason))
    (hmessage : ∀ printed, reason.message printed = message) : (ofText text).Refused message := by
  refine ⟨reason, ?_, hmessage⟩
  rw [load_ofText, h]

theorem parse_of_load {text : List Char} {config : Config} (h : (ofText text).load = .ok config) :
    ∃ found, parse text = .ok found := by
  rw [load_ofText] at h
  cases hparse : parse text with
  | error fault =>
    rw [hparse] at h
    cases h
  | ok found => exact ⟨found, rfl⟩

/-- An object that is loaded is refused when it is made ambiguous or incomplete, however it is
laid out. With one more member of a name that is there already, wherever it stands and whatever
value it has of those that the member may have, that name is reported as a duplicate. Without
some of the members that must be there, the one is reported missing that comes first in a saved
configuration, wherever it stood in the text. -/
theorem ambiguous_or_incomplete_refused {pairs : List Pair} {text : List Char}
    (htext : ObjectText JsonMember pairs text) {config : Config}
    (hload : (ofText text).load = .ok config) :
    (∀ before after (inserted : Pair) (m : Member) (v : m.Value) longer,
      pairs = before ++ after → (∃ pair ∈ pairs, pair.Names m) →
      inserted.Names m → ValueText m v inserted.value →
      ObjectText Pair.Written (before ++ inserted :: after) longer →
        (ofText longer).Refused ("duplicate field `" ++ m.name ++ "`")) ∧
    (∀ (gone : Member → Prop) (first : Member) shorter, gone first →
      (∀ m, gone m → m ∈ Member.required ∧ first.index ≤ m.index) →
      ObjectText Pair.Written (without gone pairs) shorter →
        (ofText shorter).Refused ("missing field `" ++ first.name ++ "`")) := by
  obtain ⟨found, hparse⟩ := parse_of_load hload
  constructor
  · rintro before after inserted m v longer rfl hnamed hname hvalue hlonger
    exact refused_of_parse (parse_repeated htext hparse hnamed hname hvalue hlonger) fun _ => rfl
  · intro gone first shorter hfirst hgone hshorter
    exact refused_of_parse (parse_incomplete htext hparse hfirst hgone hshorter) fun _ => rfl

/-- The members of `remarked` but for the start of the pool and the lease time. -/
def shortened : List Pair :=
  remark :: escaped :: [.broadcastAddress, .dnsServers, .poolEnd, .subnetMask].map plainly

theorem without_remarked :
    without (fun m => m = .poolStart ∨ m = .leaseSeconds) remarked = shortened := by
  have hremark : ∀ m, ¬ remark.Names m := by
    intro m hname
    obtain ⟨v, hv⟩ := ((Reads.foreign foreign_remark).names_iff m).mp hname
    cases hv
  have hescaped : ∀ m, escaped.Names m ↔ m = .serverAddress := by
    intro m
    constructor
    · intro hname
      exact Member.name_inj (Spells.unique hname escaped_names)
    · rintro rfl
      exact escaped_names
  have hplainly : ∀ m n, (plainly m).Names n ↔ n = m := by
    intro m n
    rw [(reads_plainly m).names_iff n]
    constructor
    · rintro ⟨v, hv⟩
      exact (congrArg Sigma.fst (Option.some.inj hv)).symm
    · rintro rfl
      exact ⟨_, rfl⟩
  simp [without, remarked, shortened, hremark, hescaped, hplainly]

/-- The object that was loaded is refused with its pool ended once more, by another address, and
is refused without the start of the pool and the lease time, for the start of the pool though it
stood behind the lease time. -/
theorem repeated_end_missing_start_refused :
    (ofText (block '{' '}' 0 (remarked.map compact))).load = .ok alone ∧
    (ofText (block '{' '}' 0 ((⟨"pool_end".toList, addressText (.ofParts 10 0 0 9)⟩ ::
      remarked).map compact))).Refused "duplicate field `pool_end`" ∧
    (ofText (block '{' '}' 0 (shortened.map compact))).Refused "missing field `pool_start`" := by
  have hreads : ∀ pair ∈ remarked, ∃ item, Reads pair item := by
    intro pair hpair
    obtain ⟨item, -, hread⟩ := remarked_describes_alone.exists_reads pair hpair
    exact ⟨item, hread⟩
  have hload : (ofText (block '{' '}' 0 (remarked.map compact))).load = .ok alone := by
    rw [load_ofText, parse_described remarked_describes_alone (objectText_compact remarked)]
    rfl
  have hrefused := ambiguous_or_incomplete_refused
    ((objectText_compact remarked).jsonMembers hreads) hload
  refine ⟨hload, ?_, ?_⟩
  · have hname : ∀ value, Pair.Names ⟨Member.poolEnd.name.toList, value⟩ .poolEnd :=
      fun _ => spells_of_plain (Member.plain_name .poolEnd)
    have hnamed : ∃ pair ∈ remarked, pair.Names .poolEnd :=
      ⟨plainly .poolEnd, by simp [remarked], hname _⟩
    exact hrefused.1 [] remarked ⟨"pool_end".toList, addressText (.ofParts 10 0 0 9)⟩ .poolEnd
      (.ofParts 10 0 0 9) _ rfl hnamed (hname _) (addressLiteral_text _) (objectText_compact _)
  · refine hrefused.2 (fun m => m = .poolStart ∨ m = .leaseSeconds) .poolStart _ (.inl rfl) ?_ ?_
    · rintro m (rfl | rfl) <;> decide
    · rw [without_remarked]
      exact objectText_compact shortened

end Dhcp.ConfigFile
