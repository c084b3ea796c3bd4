import Dhcp.Config.File
import Dhcp.Proofs.ConfigGrammar
import Dhcp.Proofs.TextOctets

/-!
A configuration that is saved and loaded. What is written between brackets are entries as
they are read, whatever is written for each of them, so a saved configuration is an object
of all its members. Only its rules can keep it from being loaded.
-/
namespace Dhcp.Config

open Json

theorem blank_line (depth : Nat) : Blank ('\n' :: indentation depth) := by
  intro c hc
  rcases List.mem_cons.mp hc with rfl | hc
  · rfl
  · rw [List.eq_of_mem_replicate hc]
    rfl

section

variable {α : Type} {closing : Char} {spells : α → List Char → Prop} {write : α → List Char}

/-- Entries on lines of their own, up to the line of the bracket that closes them. Others may
stand before the first of them. -/
theorem entries_lines (depth : Nat) {a : α} {others : List α}
    (h : ∀ b ∈ a :: others, spells b (write b)) {first : Bool} {lead : List Char}
    (hlead : Lead first (lead ++ indentation (depth + 1))) :
    Entries closing spells first
      (lead ++ (List.intercalate [',', '\n']
        ((a :: others).map fun b => indentation (depth + 1) ++ write b) ++
          ('\n' :: indentation depth ++ [closing]))) (a :: others) := by
  have ha : spells a (write a) := h a List.mem_cons_self
  induction others generalizing a first lead with
  | nil =>
    have hclosed : Entries closing spells false ('\n' :: indentation depth ++ [closing]) [] :=
      .closed (blank_line depth)
    simpa using Entries.entry hlead ha hclosed
  | cons b more ih =>
    have hcomma : Lead false ([',', '\n'] ++ indentation (depth + 1)) :=
      .later blank_nil (blank_line (depth + 1))
    have hmore : ∀ c ∈ b :: more, spells c (write c) :=
      fun c hc => h c (List.mem_cons_of_mem a hc)
    have hentries := ih hmore hcomma (hmore b List.mem_cons_self)
    simpa using Entries.entry hlead ha hentries

/-- What is written between brackets is read as entries. -/
theorem exists_entries_block (opening : Char) (depth : Nat) {as : List α}
    (h : ∀ a ∈ as, spells a (write a)) :
    ∃ entries, block opening closing depth (as.map write) = opening :: entries ∧
      Entries closing spells true entries as := by
  cases as with
  | nil => exact ⟨[closing], rfl, .closed blank_nil⟩
  | cons a others =>
    have hlead : Lead true (['\n'] ++ indentation (depth + 1)) := .first (blank_line (depth + 1))
    refine ⟨_, ?_, entries_lines depth h hlead⟩
    simp [block, Function.comp_def]

end

variable {config : Config}

theorem spells_addressesText (addresses : List Ipv4) :
    SpellsAddresses addresses (addressesText addresses) :=
  exists_entries_block '[' 1 fun _ _ => rfl

theorem spells_memberText (m : Member) : SpellsValue config m (config.memberText m) := by
  cases m with
  | routers => exact spells_addressesText config.routers
  | dnsServers => exact spells_addressesText config.dnsServers
  | _ => rfl

/-- A saved configuration is an object of all members in their order. -/
theorem exists_entries_text (config : Config) :
    ∃ entries, config.text = '{' :: entries ∧
      Entries '}' (SpellsMember config) true entries Member.all := by
  apply exists_entries_block
  intro m _
  have hspace : Blank [' '] := by
    intro c hc
    rw [List.eq_of_mem_singleton hc]
    rfl
  refine ⟨[], [' '], config.memberText m, blank_nil, hspace, spells_memberText m, ?_⟩
  simp

/-- The text of a saved configuration reads as that configuration. -/
theorem parse_text (config : Config) : parse config.text = .ok config := by
  obtain ⟨entries, htext, hentries⟩ := config.exists_entries_text
  have hitems := hentries.map (fun m => some (config.setting m)) fun _ _ h => h.item
  exact parse_object
    ⟨[], entries, [], blank_nil, blank_nil, hitems, by rw [htext, List.append_nil, List.nil_append]⟩

end Dhcp.Config

namespace Dhcp.ConfigFile

open Config

/-- A file is loaded for its text, and under the rules. -/
theorem load_ofText (text : List Char) : (ofText text).load = match parse text with
    | .error fault => .error (.read fault)
    | .ok config => config.validate.mapError .config := by
  rewrite [ofText, load, Utf8.decode?_encode]
  rfl

/-- Loading a saved configuration applies its rules and does nothing else. -/
theorem load_ofText_text (config : Config) :
    (ofText config.text).load = config.validate.mapError .config := by
  rw [load_ofText, parse_text]

/-- A file that was made by loading is loaded like the file that was not there. -/
theorem load_afterLoad (file : ConfigFile) : file.afterLoad.load = file.load := by
  cases file with
  | absent =>
    have hvalid : standard.validate = .ok standard := rfl
    change (ofText standard.text).load = .ok standard
    rw [load_ofText_text, hvalid]
    rfl
  | unwritable | unreadable | content _ => rfl

/-- A configuration that meets the rules is loaded as it was saved, and saving what was loaded
gives the same file. A configuration that breaks a rule is read as well, and is refused for
the rule that it breaks. -/
theorem saved_config_loads_back (config : Config) :
    (∀ valid, config.validate = .ok valid →
      (ofText config.text).load = .ok config ∧
        ∀ loaded, (ofText config.text).load = .ok loaded →
          ofText loaded.text = ofText config.text) ∧
    (∀ broken, config.validate = .error broken →
      (ofText config.text).load = .error (.config broken)) := by
  rw [load_ofText_text]
  constructor
  · intro valid hvalid
    obtain ⟨-, rfl⟩ := validate_eq_ok_iff.mp hvalid
    rw [hvalid]
    refine ⟨rfl, ?_⟩
    intro loaded hloaded
    rw [Except.ok.inj hloaded]
  · intro broken hbroken
    rw [hbroken]
    rfl

/-- A configuration without routers, with a broadcast address of its own and the longest
lease time there is. -/
def longest : Config := { standard with
  routers := []
  leaseSeconds := 4294967295
  broadcastAddress := some (.ofParts 192 168 1 255) }

/-- The longest lease time is loaded as it was saved; a lease time of zero is refused for
what it is. -/
theorem longest_lease_loaded_zero_refused :
    longest.validate = .ok longest ∧ (ofText longest.text).load = .ok longest ∧
    (ofText { longest with leaseSeconds := 0 }.text).load = .error (.config .noLeaseTime) := by
  have hvalid : longest.validate = .ok longest := rfl
  have hbroken : { longest with leaseSeconds := 0 }.validate = .error .noLeaseTime := rfl
  obtain ⟨hloaded, -⟩ := (saved_config_loads_back longest).1 longest hvalid
  have hrefused :=
    (saved_config_loads_back { longest with leaseSeconds := 0 }).2 .noLeaseTime hbroken
  exact ⟨hvalid, hloaded, hrefused⟩

end Dhcp.ConfigFile
