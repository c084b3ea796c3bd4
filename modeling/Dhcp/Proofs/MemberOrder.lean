import Dhcp.Proofs.SavedConfig

/-!
Which configuration an object describes. What is read from the members of an object is for
each member of a configuration the one value given for it, so neither their order nor members
of other names among them matter, and a member may be left out where leaving it out says the
same as giving it.
-/
namespace Dhcp.Config

open Json

namespace Draft

variable {draft final : Draft} {m : Member}

theorem value?_empty (m : Member) : ({} : Draft).value? m = none := by
  cases m <;> rfl

theorem has_empty (m : Member) : ({} : Draft).has m = false := by
  cases m <;> rfl

/-- A draft behind members knows what it knew before them and what they say. -/
theorem value?_of_foldlM_take {items : List (Option Setting)}
    (h : items.foldlM take draft = .ok final) (m : Member) (v : m.Value) :
    final.value? m = some v ↔ draft.value? m = some v ∨ some ⟨m, v⟩ ∈ items := by
  induction items generalizing draft with
  | nil =>
    obtain rfl := Except.ok.inj h
    simp
  | cons item others ih =>
    rw [List.foldlM_cons] at h
    cases item with
    | none =>
      rw [ih h]
      simp
    | some setting =>
      obtain ⟨n, w⟩ := setting
      cases htake : draft.take (some ⟨n, w⟩) with
      | error reason =>
        rw [htake] at h
        cases h
      | ok filled =>
        rw [htake] at h
        obtain ⟨hnew, rfl⟩ := take_eq_ok_iff.mp htake
        rw [ih h]
        by_cases hmn : m = n
        · subst hmn
          have hnone : draft.value? m = none := by
            rwa [has_eq_isSome, Option.isSome_eq_false_iff, Option.isNone_iff_eq_none] at hnew
          simp [value?_put_self, hnone, eq_comm]
        · have hne : (⟨m, v⟩ : Setting) ≠ ⟨n, w⟩ := fun heq => hmn (congrArg Sigma.fst heq)
          simp [value?_put_of_ne draft w hmn, hne]

end Draft

/-- The members that are given values, in the order in which they come. -/
def members (items : List (Option Setting)) : List Member :=
  items.filterMap fun item => item.map Sigma.fst

variable {config : Config} {pairs : List Pair} {items : List (Option Setting)} {m : Member}

theorem mem_members : m ∈ members items ↔ ∃ v : m.Value, some ⟨m, v⟩ ∈ items := by
  rw [members, List.mem_filterMap]
  constructor
  · rintro ⟨item, hitem, hfst⟩
    obtain ⟨⟨n, v⟩, rfl, rfl⟩ := Option.map_eq_some_iff.mp hfst
    exact ⟨v, hitem⟩
  · rintro ⟨v, hitem⟩
    exact ⟨some ⟨m, v⟩, hitem, rfl⟩

namespace Draft

variable {draft final : Draft}

theorem has_of_foldlM_take (h : items.foldlM take draft = .ok final) (m : Member) :
    final.has m = true ↔ draft.has m = true ∨ m ∈ members items := by
  simp only [has_eq_isSome, Option.isSome_iff_exists, mem_members, value?_of_foldlM_take h,
    exists_or]

/-- Members are taken when none of them is there already and none comes twice. -/
theorem exists_foldlM_take_iff : (∃ final, items.foldlM take draft = .ok final) ↔
    (∀ m ∈ members items, draft.has m = false) ∧ (members items).Nodup := by
  induction items generalizing draft with
  | nil => simp [members, pure, Except.pure]
  | cons item others ih =>
    rw [List.foldlM_cons]
    cases item with
    | none => exact ih
    | some setting =>
      obtain ⟨m, v⟩ := setting
      have hmembers : members (some ⟨m, v⟩ :: others) = m :: members others := rfl
      rw [hmembers, List.forall_mem_cons, List.nodup_cons]
      cases htake : draft.take (some ⟨m, v⟩) with
      | error reason =>
        have hthere : ¬ draft.has m = false := fun hnew => by
          rw [take_eq_ok_iff.mpr ⟨hnew, rfl⟩] at htake
          cases htake
        constructor
        · rintro ⟨_, h⟩
          cases h
        · rintro ⟨⟨hnew, -⟩, -⟩
          exact absurd hnew hthere
      | ok filled =>
        obtain ⟨hnew, rfl⟩ := take_eq_ok_iff.mp htake
        have hput : ∀ n, n ≠ m → (draft.put m v).has n = draft.has n :=
          fun n hne => has_put_of_ne draft v hne
        refine ih.trans ?_
        constructor
        · rintro ⟨hothers, hnodup⟩
          have hm : m ∉ members others := by
            intro hmem
            have hself := hothers m hmem
            rw [has_put_self] at hself
            cases hself
          refine ⟨⟨hnew, fun n hn => ?_⟩, hm, hnodup⟩
          rw [← hput n fun heq => hm (heq ▸ hn)]
          exact hothers n hn
        · rintro ⟨⟨-, hothers⟩, hm, hnodup⟩
          refine ⟨fun n hn => ?_, hnodup⟩
          rw [hput n fun heq => hm (heq ▸ hn)]
          exact hothers n hn

end Draft

theorem Member.name_inj {m n : Member} (h : m.name.toList = n.name.toList) : m = n := by
  have hname := m.ofName?_name
  rw [h, n.ofName?_name] at hname
  exact (Option.some.inj hname).symm

/-- A pair names the member that it is read as, and no other. -/
theorem Reads.names_iff {pair : Pair} {item : Option Setting} (h : Reads pair item) (m : Member) :
    pair.Names m ↔ ∃ v : m.Value, item = some ⟨m, v⟩ := by
  cases h with
  | @member n v hname hvalue =>
    constructor
    · intro h
      obtain rfl := Member.name_inj (h.unique hname)
      exact ⟨v, rfl⟩
    · rintro ⟨w, heq⟩
      obtain rfl : n = m := congrArg Sigma.fst (Option.some.inj heq)
      exact hname
  | foreign h =>
    obtain ⟨⟨name, hname, hother⟩, -⟩ := h
    constructor
    · intro h
      exact absurd (hname.unique h) (hother m)
    · rintro ⟨w, heq⟩
      cases heq

theorem exists_items {stands : Pair → Option Setting → Prop}
    (h : ∀ pair ∈ pairs, ∃ item, stands pair item) : ∃ items, List.Forall₂ stands pairs items := by
  induction pairs with
  | nil => exact ⟨[], .nil⟩
  | cons pair others ih =>
    obtain ⟨⟨item, hitem⟩, hothers⟩ := List.forall_mem_cons.mp h
    obtain ⟨items, hitems⟩ := ih hothers
    exact ⟨item :: items, .cons hitem hitems⟩

/-- Pairs that are read make up an object of what they are read as. -/
theorem ObjectText.spellsItems {text : List Char} (h : ObjectText Pair.Written pairs text)
    (hreads : List.Forall₂ Reads pairs items) : ObjectText SpellsItem items text := by
  obtain ⟨front, entries, back, hfront, hback, hentries, htext⟩ := h
  exact ⟨front, entries, back, hfront, hback,
    hentries.along hreads fun hwritten hread => ⟨_, hread, hwritten⟩, htext⟩

theorem mem_members_iff_names (h : List.Forall₂ Reads pairs items) :
    m ∈ members items ↔ ∃ pair ∈ pairs, pair.Names m := by
  induction h with
  | nil => simp [members]
  | @cons pair item pairs items hreads h ih =>
    rw [mem_members] at ih ⊢
    rw [List.exists_mem_cons_iff, hreads.names_iff m, ← ih, ← exists_or]
    simp only [List.mem_cons, eq_comm]

/-- No two pairs name the same member. -/
def NamedOnce (pairs : List Pair) : Prop :=
  pairs.Pairwise fun pair later => ∀ m : Member, pair.Names m → ¬ later.Names m

theorem nodup_members_iff (h : List.Forall₂ Reads pairs items) :
    (members items).Nodup ↔ NamedOnce pairs := by
  induction h with
  | nil => exact ⟨fun _ => List.Pairwise.nil, fun _ => List.nodup_nil⟩
  | @cons pair item pairs items hreads h ih =>
    rw [NamedOnce, List.pairwise_cons]
    cases item with
    | none =>
      have hnone : ∀ m, ¬ pair.Names m := by
        intro m hname
        obtain ⟨v, hv⟩ := (hreads.names_iff m).mp hname
        cases hv
      exact ih.trans ⟨fun hrest => ⟨fun _ _ m hname => absurd hname (hnone m), hrest⟩, And.right⟩
    | some setting =>
      obtain ⟨m, v⟩ := setting
      have hmembers : members (some ⟨m, v⟩ :: items) = m :: members items := rfl
      rw [hmembers, List.nodup_cons, mem_members_iff_names h, ih]
      refine and_congr_left fun _ => ?_
      constructor
      · intro hnone later hlater n hname hagain
        obtain ⟨w, hw⟩ := (hreads.names_iff n).mp hname
        obtain rfl : m = n := congrArg Sigma.fst (Option.some.inj hw)
        exact hnone ⟨later, hlater, hagain⟩
      · rintro hnone ⟨later, hlater, hagain⟩
        exact hnone later hlater m ((hreads.names_iff m).mpr ⟨v, rfl⟩) hagain

/-- A member that says the same when it is left out. -/
def Omissible (config : Config) : Member → Prop
  | .routers => config.routers = []
  | .dnsServers => config.dnsServers = []
  | .broadcastAddress => config.broadcastAddress = none
  | _ => False

/-- The members of an object describe a configuration: those that it names have the values of
the configuration, none is named twice, and none is missing that may not be left out. -/
structure DescribedBy (config : Config) (pairs : List Pair) : Prop where
  pair : ∀ pair ∈ pairs,
    (∃ m, pair.Names m ∧ ValueText m (config.value m) pair.value) ∨ pair.Foreign
  once : NamedOnce pairs
  named : ∀ m, (∃ pair ∈ pairs, pair.Names m) ∨ config.Omissible m

/-- A pair is read as nothing or with the value that the configuration has. -/
theorem DescribedBy.exists_reads (h : config.DescribedBy pairs) :
    ∀ pair ∈ pairs, ∃ item,
      (∀ m (v : m.Value), item = some ⟨m, v⟩ → v = config.value m) ∧ Reads pair item := by
  intro pair hpair
  rcases h.pair pair hpair with ⟨m, hname, hvalue⟩ | hforeign
  · refine ⟨some (config.setting m), fun n v heq => ?_, .member hname hvalue⟩
    obtain ⟨rfl, heq⟩ := Sigma.mk.inj (Option.some.inj heq)
    exact (eq_of_heq heq).symm
  · exact ⟨none, nofun, .foreign hforeign⟩

theorem DescribedBy.exists_items (h : config.DescribedBy pairs) :
    ∃ items, List.Forall₂ Reads pairs items ∧
      ∀ m (v : m.Value), some ⟨m, v⟩ ∈ items → v = config.value m := by
  obtain ⟨items, hitems⟩ := Config.exists_items h.exists_reads
  obtain ⟨hvalues, hreads⟩ := (List.forall₂_and_left items pairs).mp (List.Forall₂.flip hitems)
  exact ⟨items, hreads.flip, fun m v hmem => hvalues _ hmem m v rfl⟩

/-- A draft that knows every member but those that may be left out. -/
theorem Draft.toConfig_eq_ok {draft : Draft}
    (h : ∀ m, draft.value? m = some (config.value m) ∨
      draft.value? m = none ∧ config.Omissible m) : draft.toConfig = .ok config := by
  have hrequired : ∀ m, ¬ config.Omissible m → draft.value? m = some (config.value m) :=
    fun m hm => (h _).resolve_right fun hnone => hm hnone.2
  have hserver : draft.serverAddress = some config.serverAddress := hrequired .serverAddress id
  have hmask : draft.subnetMask = some config.subnetMask := hrequired .subnetMask id
  have hstart : draft.poolStart = some config.poolStart := hrequired .poolStart id
  have hend : draft.poolEnd = some config.poolEnd := hrequired .poolEnd id
  have hlease : draft.leaseSeconds = some config.leaseSeconds := hrequired .leaseSeconds id
  have hrouters : draft.routers.getD [] = config.routers := by
    rcases h .routers with hsome | ⟨hnone, hempty⟩
    · exact congrArg (Option.getD · []) hsome
    · exact (congrArg (Option.getD · []) hnone).trans hempty.symm
  have hdns : draft.dnsServers.getD [] = config.dnsServers := by
    rcases h .dnsServers with hsome | ⟨hnone, hempty⟩
    · exact congrArg (Option.getD · []) hsome
    · exact (congrArg (Option.getD · []) hnone).trans hempty.symm
  have hbroadcast : draft.broadcastAddress.getD none = config.broadcastAddress := by
    rcases h .broadcastAddress with hsome | ⟨hnone, hopen⟩
    · exact congrArg (Option.getD · none) hsome
    · exact (congrArg (Option.getD · none) hnone).trans hopen.symm
  rw [toConfig, hserver, hmask, hstart, hend, hlease, hrouters, hdns, hbroadcast]
  rfl

/-- An object whose members describe a configuration is read as that configuration. -/
theorem parse_described (h : config.DescribedBy pairs) {text : List Char}
    (htext : ObjectText Pair.Written pairs text) : parse text = .ok config := by
  obtain ⟨items, hreads, hvalues⟩ := h.exists_items
  obtain ⟨draft, hdraft⟩ : ∃ draft, items.foldlM Draft.take {} = .ok draft :=
    Draft.exists_foldlM_take_iff.mpr
      ⟨fun m _ => Draft.has_empty m, (nodup_members_iff hreads).mpr h.once⟩
  have hknown : ∀ m (v : m.Value), draft.value? m = some v ↔ some ⟨m, v⟩ ∈ items := by
    intro m v
    rw [Draft.value?_of_foldlM_take hdraft, Draft.value?_empty]
    simp
  have hconfig : draft.toConfig = .ok config := by
    apply Draft.toConfig_eq_ok
    intro m
    by_cases hm : m ∈ members items
    · obtain ⟨v, hv⟩ := mem_members.mp hm
      obtain rfl := hvalues m v hv
      exact .inl ((hknown m _).mpr hv)
    · right
      refine ⟨?_, (h.named m).resolve_left fun hnamed =>
        hm ((mem_members_iff_names hreads).mpr hnamed)⟩
      rw [Option.eq_none_iff_forall_ne_some]
      intro v hv
      exact hm (mem_members.mpr ⟨v, (hknown m v).mp hv⟩)
  rw [parse_object (htext.spellsItems hreads), hdraft]
  simp only [complete, hconfig]

end Dhcp.Config

namespace Dhcp.ConfigFile

open Config Json

/-- An object is loaded for what its members of known names say: in whatever order they come,
whatever members of other names stand among them, and with whatever blanks between the tokens,
a configuration that they describe is loaded when it meets the rules, and is refused for the
rule that it breaks otherwise. -/
theorem described_config_loads (config : Config) {pairs : List Pair}
    (h : config.DescribedBy pairs) {text : List Char}
    (htext : ObjectText Pair.Written pairs text) :
    (∀ valid, config.validate = .ok valid → (ofText text).load = .ok config) ∧
    (∀ broken, config.validate = .error broken → (ofText text).load = .error (.config broken)) := by
  have hload : (ofText text).load = config.validate.mapError .config := by
    rw [load_ofText, parse_described h htext]
  rw [hload]
  constructor
  · intro valid hvalid
    obtain ⟨-, rfl⟩ := validate_eq_ok_iff.mp hvalid
    rw [hvalid]
    rfl
  · intro broken hbroken
    rw [hbroken]
    rfl

/-- The text of a pair without blanks. -/
def compact (pair : Pair) : List Char := stringText pair.key ++ ':' :: pair.value

theorem objectText_compact (pairs : List Pair) :
    ObjectText Pair.Written pairs (block '{' '}' 0 (pairs.map compact)) := by
  have hwritten : ∀ pair ∈ pairs, Pair.Written pair (compact pair) :=
    fun pair _ => ⟨[], [], blank_nil, blank_nil, rfl⟩
  obtain ⟨entries, htext, hentries⟩ := exists_entries_block '{' 0 hwritten
  exact ⟨[], entries, [], blank_nil, blank_nil, hentries,
    by rw [htext, List.append_nil, List.nil_append]⟩

/-- A configuration without routers and name servers. -/
def alone : Config := { standard with
  routers := []
  dnsServers := [] }

/-- A member of a name of its own, with brackets inside its value. -/
def remark : Pair :=
  ⟨['n', 'o', 't', 'e'], ['{', '"', 'a', '"', ':', '[', '"', '}', '"', ']', '}']⟩

/-- The first member, with a code unit for the first character of its name. -/
def escaped : Pair :=
  ⟨'\\' :: 'u' :: (['0', '0', '7', '3'] ++ "erver_ip".toList), alone.memberText .serverAddress⟩

def plainly (m : Member) : Pair := ⟨m.name.toList, alone.memberText m⟩

/-- The members of a configuration but for the routers, and a remark. -/
def remarked : List Pair :=
  remark :: escaped ::
    [.broadcastAddress, .leaseSeconds, .dnsServers, .poolEnd, .poolStart, .subnetMask].map plainly

/-- What the members of `remarked` are read as. -/
def remarkedItems : List (Option Setting) :=
  none :: some (alone.setting .serverAddress) ::
    [.broadcastAddress, .leaseSeconds, .dnsServers, .poolEnd, .poolStart, .subnetMask].map
      fun m => some (alone.setting m)

theorem foreign_remark : remark.Foreign := by
  have hlist : IsJson .value ['[', '"', '}', '"', ']'] :=
    @IsJson.bracketed .list _ (@IsJson.further .list true [] ['"', '}', '"'] [']']
      (.first blank_nil) (.element (.string (.plain (by decide) .nil)))
        (@IsJson.closed .list false [] blank_nil))
  have hplain : ∀ c ∈ ['n', 'o', 't', 'e'], Plain c := by
    simp [Plain]
  refine ⟨⟨['n', 'o', 't', 'e'], spells_of_plain hplain, fun m => by cases m <;> decide⟩, ?_⟩
  exact @IsJson.bracketed .object _ (@IsJson.further .object true [] _ ['}'] (.first blank_nil)
    (@IsJson.member ['a'] [] [] _ (.plain (by decide) .nil) blank_nil blank_nil hlist)
      (@IsJson.closed .object false [] blank_nil))

theorem escaped_names : escaped.Names .serverAddress := by
  have hunit : CodeUnit (((0 * 16 + 0) * 16 + 7) * 16 + 3) ['0', '0', '7', '3'] :=
    .four ⟨by decide, .inl rfl⟩ ⟨by decide, .inl rfl⟩ ⟨by decide, .inl rfl⟩ ⟨by decide, .inl rfl⟩
  exact .unit hunit (spells_of_plain fun c hc =>
    Member.serverAddress.plain_name c (List.mem_cons_of_mem 's' hc))

theorem reads_plainly (m : Member) : Reads (plainly m) (some (alone.setting m)) :=
  .member (spells_of_plain m.plain_name) (spells_memberText m).valueText

theorem reads_remarked : List.Forall₂ Reads remarked remarkedItems := by
  refine .cons (.foreign foreign_remark)
    (.cons (.member escaped_names (spells_memberText _).valueText) ?_)
  rw [List.forall₂_map_left_iff, List.forall₂_map_right_iff, List.forall₂_same]
  exact fun m _ => reads_plainly m

theorem remarked_describes_alone : alone.DescribedBy remarked where
  pair := by
    intro pair hpair
    simp only [remarked, List.mem_cons, List.mem_map] at hpair
    rcases hpair with rfl | rfl | ⟨m, -, rfl⟩
    · exact .inr foreign_remark
    · exact .inl ⟨.serverAddress, escaped_names, (spells_memberText _).valueText⟩
    · exact .inl ⟨m, spells_of_plain m.plain_name, (spells_memberText m).valueText⟩
  once := (nodup_members_iff reads_remarked).mp (by decide)
  named := by
    intro m
    rw [← mem_members_iff_names reads_remarked]
    by_cases hm : m = .routers
    · subst hm
      exact .inr rfl
    · left
      revert hm
      cases m <;> decide

/-- The configuration is loaded though its members come in another order, one of them with its
name escaped, one of them not at all, and behind a remark with brackets inside a string. -/
theorem remarked_loads_alone :
    alone.DescribedBy remarked ∧ alone.validate = .ok alone ∧
      (ofText (block '{' '}' 0 (remarked.map compact))).load = .ok alone := by
  have hvalid : alone.validate = .ok alone := rfl
  have hload := described_config_loads alone remarked_describes_alone (objectText_compact remarked)
  exact ⟨remarked_describes_alone, hvalid, hload.1 alone hvalid⟩

end Dhcp.ConfigFile
