import Dhcp.Proofs.Codec
import Dhcp.Proofs.Eligible
import Dhcp.Proofs.TextOctets
import Mathlib.Data.List.DropRight

/-!
Host names, from the octets of an option to the lease they are recorded with. Characters are
read off as they were written, a single octet that begins none is replaced, and NULs at the
end go last. Only an octet of zero is read as NUL, so a name is left whenever there is any
other octet.
-/
namespace Dhcp

namespace Utf8

variable {bytes : List UInt8}

theorem decodeLossy_encode_append (text : List Char) (rest : List UInt8) :
    decodeLossy (encode text ++ rest) = text ++ decodeLossy rest := by
  rw [decodeLossy, scan_encode_append, List.map_append, List.map_map, ← decodeLossy]
  exact congrArg (· ++ decodeLossy rest) text.map_id

theorem decodeLossy_nil : decodeLossy [] = [] := by
  rw [decodeLossy, scan, List.map_nil]

theorem decodeLossy_encode (text : List Char) : decodeLossy (encode text) = text := by
  have h := decodeLossy_encode_append text []
  rwa [List.append_nil, decodeLossy_nil, List.append_nil] at h

/-- No character begins with an octet from F5 on, so only that octet is passed over. -/
theorem decodeLossy_cons_of_le {b : UInt8} (h : 0xF5 ≤ b) (rest : List UInt8) :
    decodeLossy (b :: rest) = '\uFFFD' :: decodeLossy rest := by
  have hb : 245 ≤ b.toNat := UInt8.le_iff_toNat_le.mp h
  have hlead : lead? b = none := by
    cases hlead : lead? b with
    | none => rfl
    | some lead => rcases lead?_cases hlead with h | h | h <;> omega
  have hascii : ¬ b < 0x80 := by
    rw [UInt8.lt_iff_toNat_lt]
    exact Nat.not_lt.mpr (Nat.le_trans (by decide) hb)
  have hstep : step b rest = (none, rest) := by
    unfold step
    simp only [if_neg hascii, hlead]
  rw [decodeLossy, scan, hstep, List.map_cons, ← decodeLossy]
  rfl

theorem encode_replicate_nul (k : Nat) : encode (List.replicate k '\x00') = List.replicate k 0 := by
  rw [encode, List.flatMap_replicate]
  exact List.flatten_replicate_singleton

/-- Only zeros are read as NULs. -/
theorem eq_nul_of_mem_decodeLossy_iff :
    (∀ c ∈ decodeLossy bytes, c = '\x00') ↔ ∀ b ∈ bytes, b = 0 := by
  constructor
  · intro h
    induction bytes using scan.induct with
    | case1 => exact List.forall_mem_nil _
    | case2 first rest ih =>
      rw [decodeLossy, scan, List.map_cons, ← decodeLossy, List.forall_mem_cons] at h
      obtain ⟨hfirst, hothers⟩ := h
      cases hstep : step first rest with
      | mk read behind =>
        rw [hstep] at hfirst hothers ih
        cases read with
        | none =>
          have hreplaced : '\uFFFD' ≠ '\x00' := by decide
          exact absurd hfirst hreplaced
        | some c =>
          obtain rfl : c = '\x00' := hfirst
          obtain ⟨rfl, rfl⟩ := List.cons.inj (step_eq_some_iff.mp hstep)
          exact List.forall_mem_cons.mpr ⟨rfl, ih hothers⟩
  · intro h
    rw [List.eq_replicate_of_mem h, ← encode_replicate_nul, decodeLossy_encode]
    exact fun c hc => List.eq_of_mem_replicate hc

end Utf8

namespace OptionArea

variable {area : OptionArea} {field : OptionField} {name : String}

theorem trimNuls_eq_rdropWhile (text : List Char) :
    trimNuls text = text.rdropWhile fun c => c == '\x00' := rfl

theorem getLast?_trimNuls (text : List Char) : (trimNuls text).getLast? ≠ some '\x00' := by
  intro h
  have hne : text.rdropWhile (fun c => c == '\x00') ≠ [] := by
    intro hnil
    rw [trimNuls_eq_rdropWhile, hnil] at h
    cases h
  have hlast := List.rdropWhile_last_not (fun c => c == '\x00') text hne
  rw [(List.getLast_eq_iff_getLast?_eq_some hne).mpr h] at hlast
  exact hlast rfl

theorem trimNuls_eq_nil_iff {text : List Char} : trimNuls text = [] ↔ ∀ c ∈ text, c = '\x00' := by
  simp only [trimNuls_eq_rdropWhile, List.rdropWhile_eq_nil_iff, beq_iff_eq]

theorem trimNuls_append_replicate {text : List Char} (h : text.getLast? ≠ some '\x00') (k : Nat) :
    trimNuls (text ++ List.replicate k '\x00') = text := by
  rw [trimNuls_eq_rdropWhile]
  induction k with
  | zero =>
    rw [List.replicate_zero, List.append_nil, List.rdropWhile_eq_self_iff]
    intro hne hlast
    exact h ((List.getLast_eq_iff_getLast?_eq_some hne).mp (beq_iff_eq.mp hlast))
  | succ k ih =>
    rw [List.replicate_succ', ← List.append_assoc]
    rw [List.rdropWhile_concat_pos _ _ _ rfl, ih]

/-- A text is what is left of it with some NULs behind. -/
theorem exists_eq_trimNuls_append (text : List Char) :
    ∃ k, text = trimNuls text ++ List.replicate k '\x00' := by
  have hnuls : ∀ c ∈ text.rtakeWhile fun c => c == '\x00', c = '\x00' := by
    intro c hc
    rw [List.rtakeWhile, List.mem_reverse] at hc
    simpa using List.mem_takeWhile_imp hc
  refine ⟨(text.rtakeWhile fun c => c == '\x00').length, ?_⟩
  rw [← List.eq_replicate_of_mem hnuls, trimNuls_eq_rdropWhile, List.rdropWhile_append_rtakeWhile]

theorem hostname_of_get? (h : area.get? 12 = some field) :
    area.hostname = if trimNuls (Utf8.decodeLossy field.data) = [] then none
      else some (String.ofList (trimNuls (Utf8.decodeLossy field.data))) := by
  have hget : area.get? OptionCode.hostname.toUInt8 = some field := h
  simp only [hostname, hget]
  cases trimNuls (Utf8.decodeLossy field.data) with
  | nil => rfl
  | cons c rest => rfl

theorem hostname_of_get?_eq_none (h : area.get? 12 = none) : area.hostname = none := by
  have hget : area.get? OptionCode.hostname.toUInt8 = none := h
  simp only [hostname, hget]

theorem of_hostname_eq_some (h : area.hostname = some name) :
    name ≠ "" ∧ name.toList.getLast? ≠ some '\x00' := by
  cases hget : area.get? 12 with
  | none =>
    rw [hostname_of_get?_eq_none hget] at h
    cases h
  | some field =>
    rw [hostname_of_get? hget] at h
    split at h
    · cases h
    · next hne =>
      cases h
      rw [String.toList_ofList]
      refine ⟨fun hempty => hne ?_, getLast?_trimNuls _⟩
      rw [← String.toList_inj, String.toList_ofList] at hempty
      exact hempty

theorem hostname_eq_none_iff :
    area.hostname = none ↔ area.get? 12 = none ∨
      ∃ field, area.get? 12 = some field ∧ ∀ b ∈ field.data, b = 0 := by
  cases hget : area.get? 12 with
  | none => simp [hostname_of_get?_eq_none hget]
  | some field =>
    have hzeros : trimNuls (Utf8.decodeLossy field.data) = [] ↔ ∀ b ∈ field.data, b = 0 :=
      trimNuls_eq_nil_iff.trans Utf8.eq_nul_of_mem_decodeLossy_iff
    simp [hostname_of_get? hget, hzeros]

/-- The host name in an option that reads as a text with NULs behind it. -/
theorem hostname_of_decodeLossy (hget : area.get? 12 = some field) {text : List Char} {k : Nat}
    (hdata : Utf8.decodeLossy field.data = text ++ List.replicate k '\x00') (hne : text ≠ [])
    (hlast : text.getLast? ≠ some '\x00') : area.hostname = some (String.ofList text) := by
  rw [hostname_of_get? hget, hdata, trimNuls_append_replicate hlast, if_neg hne]

theorem hostname_of_encode (hget : area.get? 12 = some field) {k : Nat}
    (hdata : field.data = Utf8.encode name.toList ++ List.replicate k 0) (hne : name ≠ "")
    (hlast : name.toList.getLast? ≠ some '\x00') : area.hostname = some name := by
  have hread : Utf8.decodeLossy field.data = name.toList ++ List.replicate k '\x00' := by
    rw [hdata, Utf8.decodeLossy_encode_append, ← Utf8.encode_replicate_nul, Utf8.decodeLossy_encode]
  have hnil : name.toList ≠ [] := fun h => hne (String.toList_inj.mp h)
  rw [hostname_of_decodeLossy hget hread hnil hlast, String.ofList_toList]

theorem hostname_of_encode_cons_encode (hget : area.get? 12 = some field) {front back : String}
    {b : UInt8} (hb : 0xF5 ≤ b)
    (hdata : field.data = Utf8.encode front.toList ++ b :: Utf8.encode back.toList) :
    ∃ kept k, back.toList = kept ++ List.replicate k '\x00' ∧ kept.getLast? ≠ some '\x00' ∧
      area.hostname = some (String.ofList (front.toList ++ '\uFFFD' :: kept)) := by
  obtain ⟨k, hback⟩ := exists_eq_trimNuls_append back.toList
  have hkept := getLast?_trimNuls back.toList
  refine ⟨trimNuls back.toList, k, hback, hkept, ?_⟩
  have hread : Utf8.decodeLossy field.data =
      (front.toList ++ '\uFFFD' :: trimNuls back.toList) ++ List.replicate k '\x00' := by
    rw [hdata, Utf8.decodeLossy_encode_append, Utf8.decodeLossy_cons_of_le hb,
      Utf8.decodeLossy_encode, List.append_assoc, List.cons_append, ← hback]
  have hlast : (front.toList ++ '\uFFFD' :: trimNuls back.toList).getLast? ≠ some '\x00' := by
    have hreplaced : some '\uFFFD' ≠ some '\x00' := by decide
    cases hcases : trimNuls back.toList with
    | nil => rwa [List.getLast?_concat]
    | cons c rest =>
      rw [hcases] at hkept
      rwa [List.getLast?_append_of_ne_nil _ (List.cons_ne_nil _ _), List.getLast?_cons_cons]
  have hne : front.toList ++ '\uFFFD' :: trimNuls back.toList ≠ [] :=
    List.append_ne_nil_of_right_ne_nil _ (List.cons_ne_nil _ _)
  exact hostname_of_decodeLossy hget hread hne hlast

end OptionArea

/-- The lease made for a newcomer has the host name that its datagram gives. -/
theorem Arrival.hostname_of_newcomer {arrival : Arrival} {packet : Packet} {pool : Pool}
    (h : arrival.eligible? = some packet) (hnone : pool.leaseOf packet.header.chaddr = none)
    (hfree : pool.freeCount ≠ 0) :
    ∃ lease, (Server.respond pool arrival.bytes arrival.source arrival.now).pool.leaseOf
        packet.header.chaddr = some lease ∧ lease.hostname = packet.options.hostname := by
  rcases respond_newcomer h hnone with ⟨hfull, -, -⟩ | ⟨grant, hnext, hpool, -⟩
  · exact absurd hfull hfree
  · have hgranted := Pool.granted_of_nextLease hnext
    refine ⟨grant.lease, hpool ▸ hgranted.leaseOf_self, ?_⟩
    rw [hgranted.lease_eq]
    rfl

namespace OptionArea

/-- A host name is a text with something in it that does not end in NUL, and there is one
unless the first option 12 is missing or holds zeros only. A text that does not end in NUL is
given back from its octets whatever number of zeros stands behind them, and an octet from F5 on
between two texts is replaced and spoils neither of them. The lease made for a client has the
host name of the datagram that it was made for. -/
theorem hostnames_survive_decoding (area : OptionArea) :
    (∀ name, area.hostname = some name → name ≠ "" ∧ name.toList.getLast? ≠ some '\x00') ∧
    (area.hostname = none ↔ area.get? 12 = none ∨
      ∃ field, area.get? 12 = some field ∧ ∀ b ∈ field.data, b = 0) ∧
    (∀ (field : OptionField) (name : String) (k : Nat), area.get? 12 = some field →
      field.data = Utf8.encode name.toList ++ List.replicate k 0 → name ≠ "" →
      name.toList.getLast? ≠ some '\x00' → area.hostname = some name) ∧
    (∀ (field : OptionField) (front back : String) (b : UInt8), area.get? 12 = some field →
      0xF5 ≤ b → field.data = Utf8.encode front.toList ++ b :: Utf8.encode back.toList →
      ∃ kept k, back.toList = kept ++ List.replicate k '\x00' ∧ kept.getLast? ≠ some '\x00' ∧
        area.hostname = some (String.ofList (front.toList ++ '\uFFFD' :: kept))) ∧
    ∀ (pool : Pool) (arrival : Arrival) (packet : Packet), arrival.eligible? = some packet →
      packet.options = area → pool.leaseOf packet.header.chaddr = none → pool.freeCount ≠ 0 →
      ∃ lease, (Server.respond pool arrival.bytes arrival.source arrival.now).pool.leaseOf
          packet.header.chaddr = some lease ∧ lease.hostname = area.hostname := by
  refine ⟨fun name h => of_hostname_eq_some h, hostname_eq_none_iff, ?_, ?_, ?_⟩
  · intro field name k hget hdata hne hlast
    exact hostname_of_encode hget hdata hne hlast
  · intro field front back b hget hb hdata
    exact hostname_of_encode_cons_encode hget hb hdata
  · intro pool arrival packet heligible harea hnone hfree
    rw [← harea]
    exact Arrival.hostname_of_newcomer heligible hnone hfree

/-- An area with the option of the host name and nothing else. -/
def named (data : List UInt8) (h : data.length ≤ 255) : OptionArea := ⟨[.named .hostname data h]⟩

/-- A discovery from a client that is called "laptop", with a zero behind its name. -/
def laptopDiscovery : Packet where
  header := { op := 1 }
  options := named [108, 97, 112, 116, 111, 112, 0] (by decide)

/-- The name is read without the zero and recorded; an octet that belongs to no character is
replaced; and zeros only are no name. -/
theorem laptop_read_and_recorded :
    laptopDiscovery.options.hostname = some "laptop" ∧
    (named [97, 0xFF, 98, 0] (by decide)).hostname = some "a\uFFFDb" ∧
    (named [0, 0] (by decide)).hostname = none ∧
    ∃ lease, (Server.respond (Pool.create .standard) laptopDiscovery.encode ⟨.unspecified, 68⟩
        ⟨0⟩).pool.leaseOf .zero = some lease ∧ lease.hostname = some "laptop" := by
  obtain ⟨-, -, hread, -, hrecorded⟩ := hostnames_survive_decoding laptopDiscovery.options
  obtain ⟨-, -, -, hreplaced, -⟩ := hostnames_survive_decoding (named [97, 0xFF, 98, 0] (by decide))
  obtain ⟨-, hnone, -⟩ := hostnames_survive_decoding (named [0, 0] (by decide))
  have hlaptop : laptopDiscovery.options.hostname = some "laptop" :=
    hread _ "laptop" 1 rfl (by decide) (by decide) (by decide)
  refine ⟨hlaptop, ?_, hnone.mpr (.inr ⟨_, rfl, by simp [OptionField.named]⟩), ?_⟩
  · obtain ⟨kept, k, hback, hlast, hname⟩ :=
      hreplaced _ "a" "b\x00" 0xFF rfl (by decide) (by decide)
    have hkept : trimNuls "b\x00".toList = kept := by
      rw [hback, trimNuls_append_replicate hlast]
    rw [hname, ← hkept]
    decide
  · have heligible : Arrival.eligible? ⟨laptopDiscovery.encode, ⟨.unspecified, 68⟩, ⟨0⟩⟩ =
        some laptopDiscovery :=
      Arrival.eligible?_eq_some_iff.mpr ⟨rfl, Packet.parse_encode rfl, .inl rfl⟩
    have hclient : laptopDiscovery.header.chaddr = .zero := rfl
    have hfree : (Pool.create .standard).freeCount ≠ 0 := by decide +kernel
    have hlease := hrecorded (Pool.create .standard) _ _ heligible rfl (Pool.leaseOf_create _ _)
      hfree
    rwa [hclient, hlaptop] at hlease

end OptionArea

end Dhcp
