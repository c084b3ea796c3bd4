import Dhcp.Proofs.TornText

/-!
A configuration file that was not written to its end. Saved configurations are ASCII, so a
cut between two octets of the file is a cut between two characters of the text.
-/
namespace Dhcp.Config

open Json

variable {config : Config} {blanks : List Char}

theorem ascii_of_isDigit {c : Char} (h : c.isDigit = true) : c.val.toNat ≤ 127 := by
  rw [Char.isDigit, Bool.and_eq_true, decide_eq_true_eq, decide_eq_true_eq] at h
  have hle : c.val.toNat ≤ 57 := UInt32.le_iff_toNat_le.mp h.2
  omega

theorem ascii_addressText (address : Ipv4) : Utf8.Ascii (addressText address) := by
  have htext : Utf8.Ascii address.text := by
    intro c hc
    rcases Ipv4.isDigit_or_point_of_mem_text hc with hdigit | rfl
    · exact ascii_of_isDigit hdigit
    · decide
  have hquote : Utf8.Ascii ['"'] := by
    simp [Utf8.Ascii]
  exact Utf8.ascii_append.mpr ⟨Utf8.ascii_append.mpr ⟨hquote, htext⟩, hquote⟩

theorem ascii_of_blank (h : Blank blanks) : Utf8.Ascii blanks := by
  intro c hc
  have hblank : isBlank c = true := h c hc
  simp only [isBlank, Bool.or_eq_true, beq_iff_eq] at hblank
  rcases hblank with ((rfl | rfl) | rfl) | rfl <;> decide

theorem ascii_of_lead {first : Bool} {lead : List Char} (h : Lead first lead) :
    Utf8.Ascii lead := by
  cases h with
  | first h => exact ascii_of_blank h
  | later h hmore =>
    exact Utf8.ascii_append.mpr
      ⟨ascii_of_blank h, Utf8.ascii_cons.mpr ⟨by decide, ascii_of_blank hmore⟩⟩

theorem ascii_of_entries {α : Type} {close : Char} {spells : α → List Char → Prop} {first : Bool}
    {entries : List Char} {as : List α} (hclose : close.val.toNat ≤ 127)
    (hspells : ∀ a text, spells a text → Utf8.Ascii text)
    (h : Entries close spells first entries as) : Utf8.Ascii entries := by
  induction h with
  | closed h =>
    have hlast : Utf8.Ascii [close] := Utf8.ascii_cons.mpr ⟨hclose, List.forall_mem_nil _⟩
    exact Utf8.ascii_append.mpr ⟨ascii_of_blank h, hlast⟩
  | entry hlead h hmore ih =>
    exact Utf8.ascii_append.mpr
      ⟨ascii_of_lead hlead, Utf8.ascii_append.mpr ⟨hspells _ _ h, ih⟩⟩

theorem ascii_of_spellsAddresses {addresses : List Ipv4} {text : List Char}
    (h : SpellsAddresses addresses text) : Utf8.Ascii text := by
  obtain ⟨entries, rfl, hentries⟩ := h
  refine Utf8.ascii_cons.mpr ⟨by decide, ascii_of_entries (by decide) ?_ hentries⟩
  rintro address text rfl
  exact ascii_addressText address

theorem ascii_of_spellsValue {m : Member} {value : List Char} (h : SpellsValue config m value) :
    Utf8.Ascii value := by
  cases m with
  | serverAddress | subnetMask | poolStart | poolEnd =>
    subst h
    exact ascii_addressText _
  | routers | dnsServers => exact ascii_of_spellsAddresses h
  | leaseSeconds =>
    subst h
    exact fun c hc => ascii_of_isDigit (isDigit_of_mem_toDigits hc)
  | broadcastAddress =>
    subst h
    unfold memberText
    cases config.broadcastAddress with
    | some address => exact ascii_addressText address
    | none => simp [Utf8.Ascii]

theorem ascii_of_spellsMember {m : Member} {text : List Char} (h : SpellsMember config m text) :
    Utf8.Ascii text := by
  obtain ⟨front, back, value, hfront, hback, hvalue, rfl⟩ := h
  have hname : Utf8.Ascii (stringText m.name.toList) := by
    have hall : (stringText m.name.toList).all (fun c => c.val.toNat ≤ 127) = true := by
      cases m <;> rfl
    simpa [Utf8.Ascii] using hall
  refine Utf8.ascii_append.mpr ⟨hname, Utf8.ascii_append.mpr ⟨ascii_of_blank hfront, ?_⟩⟩
  exact Utf8.ascii_cons.mpr ⟨by decide,
    Utf8.ascii_append.mpr ⟨ascii_of_blank hback, ascii_of_spellsValue hvalue⟩⟩

theorem ascii_text (config : Config) : Utf8.Ascii config.text := by
  obtain ⟨entries, htext, hentries⟩ := config.exists_entries_text
  rw [htext]
  refine Utf8.ascii_cons.mpr ⟨by decide, ascii_of_entries (by decide) ?_ hentries⟩
  intro m text h
  exact ascii_of_spellsMember h

end Dhcp.Config

namespace Dhcp.ConfigFile

open Config

/-- A file to which only the first octets of a saved configuration were written is never
loaded, whatever the configuration is and wherever the writing stopped: the text is found to
end too soon, and nothing else is found wrong with it. With the last octet it is loaded under
the rules. -/
theorem load_take_saved (config : Config) (n : Nat) :
    (content ((Utf8.encode config.text).take n)).load =
      if n < (Utf8.encode config.text).length then .error (.read (.json .truncated))
      else config.validate.mapError .config := by
  split
  · next hshort =>
    rw [Utf8.length_encode_of_ascii config.ascii_text] at hshort
    rw [Utf8.take_encode config.ascii_text, load, Utf8.decode?_encode]
    simp only [parse_torn_text hshort]
  · next hwhole =>
    rw [List.take_of_length_le (Nat.not_lt.mp hwhole)]
    exact load_ofText_text config

end Dhcp.ConfigFile
