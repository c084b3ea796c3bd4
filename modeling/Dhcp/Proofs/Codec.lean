import Dhcp.Packet.Basic

/-!
Writing a datagram and reading it again. The fixed part stands at fixed offsets and
each option carries its own length, so the octets of a datagram name it whole. Only
the check of the fixed part can refuse them. Padding and whatever else stands behind
the end mark is never taken for options.
-/
namespace Dhcp

namespace Header

theorem ofNat_littleEndian_uint32 (n : UInt32) :
    UInt32.ofNat (Octets.littleEndian 4 n.toNat).toNatLittle = n := by
  rw [Octets.toNatLittle_littleEndian]
  change UInt32.ofNat (n.toNat % 4294967296) = n
  rw [Nat.mod_eq_of_lt n.toNat_lt, UInt32.ofNat_toNat]

theorem ofNat_littleEndian_uint16 (n : UInt16) :
    UInt16.ofNat (Octets.littleEndian 2 n.toNat).toNatLittle = n := by
  rw [Octets.toNatLittle_littleEndian]
  change UInt16.ofNat (n.toNat % 65536) = n
  rw [Nat.mod_eq_of_lt n.toNat_lt, UInt16.ofNat_toNat]

theorem littleEndian_ofNat_uint32 (word : Octets 4) :
    Octets.littleEndian 4 (UInt32.ofNat word.toNatLittle).toNat = word := by
  have hlt : word.toNatLittle < 2 ^ 32 := word.toNatLittle_lt
  rw [UInt32.toNat_ofNat', Nat.mod_eq_of_lt hlt, Octets.littleEndian_toNatLittle]

theorem littleEndian_ofNat_uint16 (word : Octets 2) :
    Octets.littleEndian 2 (UInt16.ofNat word.toNatLittle).toNat = word := by
  have hlt : word.toNatLittle < 2 ^ 16 := word.toNatLittle_lt
  rw [UInt16.toNat_ofNat', Nat.mod_eq_of_lt hlt, Octets.littleEndian_toNatLittle]

/-- Every field is read from the offset at which it was written. -/
theorem ofBytes_encode_append (header : Header) (rest : List UInt8)
    (h : size ≤ (header.encode ++ rest).length) : ofBytes (header.encode ++ rest) h = header := by
  simp only [ofBytes, encode, List.append_assoc, List.cons_append, List.nil_append,
    List.getElem_cons_zero, List.getElem_cons_succ, Octets.slice_cons_succ]
  -- A field is reached by passing over the blocks before it, one after the other.
  simp (disch := decide) only [Octets.slice_append_of_le, Nat.reduceSub,
    Octets.slice_toList_append]
  simp only [ofNat_littleEndian_uint32, ofNat_littleEndian_uint16, Ipv4.ofOctets_octets]

/-- What the check of the fixed part finds wrong first. -/
def fault? (header : Header) : Option PacketFault :=
  if header.htype ≠ ethernet then some (.hardwareType header.htype)
  else if header.hlen ≠ ethernetLength then some (.hardwareLength header.hlen)
  else if header.cookie ≠ magicCookie then some .wrongCookie
  else none

theorem fault?_eq_none_iff {header : Header} :
    header.fault? = none ↔
      header.htype = 1 ∧ header.hlen = 6 ∧ header.cookie.toList = [99, 130, 83, 99] := by
  have hcookie : header.cookie = magicCookie ↔ header.cookie.toList = [99, 130, 83, 99] :=
    Octets.ext_iff
  change _ ↔ header.htype = ethernet ∧ header.hlen = ethernetLength ∧ _
  rw [← hcookie, fault?]
  by_cases htype : header.htype = ethernet
  · by_cases hlen : header.hlen = ethernetLength
    · by_cases hsame : header.cookie = magicCookie
      · simp [htype, hlen, hsame]
      · simp [htype, hlen, hsame]
    · simp [htype, hlen]
  · simp [htype]

theorem parse_of_le {bytes : List UInt8} (h : size ≤ bytes.length) :
    parse bytes = match (ofBytes bytes h).fault? with
      | none => .ok (ofBytes bytes h)
      | some fault => .error fault := by
  simp only [parse, dif_pos h, fault?]
  split
  · rfl
  · split
    · rfl
    · split
      · rfl
      · rfl

theorem parse_encode_append (header : Header) (rest : List UInt8) :
    parse (header.encode ++ rest) = match header.fault? with
      | none => .ok header
      | some fault => .error fault := by
  have h : size ≤ (header.encode ++ rest).length := by
    rw [List.length_append, length_encode]
    omega
  rw [parse_of_le h, ofBytes_encode_append]

theorem parse_eq_ok_iff {bytes : List UInt8} {header : Header} :
    parse bytes = .ok header ↔
      (∃ h : size ≤ bytes.length, header = ofBytes bytes h) ∧ header.fault? = none := by
  by_cases hsize : size ≤ bytes.length
  · rw [parse_of_le hsize]
    cases hfault : (ofBytes bytes hsize).fault? with
    | none =>
      constructor
      · rintro ⟨⟩
        exact ⟨⟨hsize, rfl⟩, hfault⟩
      · rintro ⟨⟨h, rfl⟩, -⟩
        rfl
    | some fault =>
      constructor
      · rintro ⟨⟩
      · rintro ⟨⟨h, rfl⟩, hnone⟩
        rw [hfault] at hnone
        cases hnone
  · rw [parse, dif_neg hsize]
    constructor
    · rintro ⟨⟩
    · rintro ⟨⟨h, -⟩, -⟩
      exact absurd h hsize

end Header

namespace OptionArea

/-- One option at the front of the octets is read off whole. -/
theorem parseFields_encode_append (field : OptionField) (rest : List UInt8) :
    parseFields (field.encode ++ rest) = (parseFields rest).map (field :: ·) := by
  have hlength := field.toNat_length
  have hdrop : (field.data ++ rest).drop field.length.toNat = rest := by
    rw [hlength, List.drop_left]
  have htake : (field.data ++ rest).take field.length.toNat = field.data := by
    rw [hlength, List.take_left]
  have hle : field.length.toNat ≤ (field.data ++ rest).length := by
    rw [hlength, List.length_append]
    omega
  rw [OptionField.encode, List.cons_append, List.cons_append,
    parseFields_field field.code_ne_pad field.code_ne_end hle]
  simp only [hdrop, htake]

/-- Reading stops at the end mark, so what stands behind it is never taken for options. -/
theorem parseFields_flatMap_encode (fields : List OptionField) (rest : List UInt8) :
    parseFields (fields.flatMap OptionField.encode ++ OptionCode.endOfOptions.toUInt8 :: rest) =
      .ok fields := by
  induction fields with
  | nil => exact parseFields_end rest
  | cons field others ih =>
    rw [List.flatMap_cons, List.append_assoc, parseFields_encode_append, ih]
    rfl

/-- Every area is one that reading gives. -/
theorem parse_encode_append (area : OptionArea) (rest : List UInt8) :
    parse (area.encode ++ rest) = .ok area := by
  rw [parse, encode, List.append_assoc, List.singleton_append, parseFields_flatMap_encode]
  rfl

theorem length_encode (area : OptionArea) :
    area.encode.length = (area.fields.flatMap OptionField.encode).length + 1 := by
  rw [encode, List.length_append, List.length_singleton]

end OptionArea

namespace Packet

theorem parse_header_append (header : Header) (rest : List UInt8) :
    parse (header.encode ++ rest) = match header.fault? with
      | none => (OptionArea.parse rest).map (⟨header, ·⟩)
      | some fault => .error fault := by
  have hdrop : (header.encode ++ rest).drop Header.size = rest := by
    rw [← header.length_encode, List.drop_left]
  rw [parse, Header.parse_encode_append, hdrop]
  cases header.fault? with
  | none => cases OptionArea.parse rest <;> rfl
  | some fault => rfl

/-- Whether a written datagram is refused depends on its fixed part only. -/
theorem parse_encode_append (packet : Packet) (rest : List UInt8) :
    parse (packet.encode ++ rest) = match packet.header.fault? with
      | none => .ok packet
      | some fault => .error fault := by
  rw [encode, body, List.append_assoc, List.append_assoc, parse_header_append,
    OptionArea.parse_encode_append]
  rfl

theorem parse_encode {packet : Packet} (h : packet.header.fault? = none) :
    parse packet.encode = .ok packet := by
  have hread := parse_encode_append packet []
  rwa [List.append_nil, h] at hread

theorem parse_eq_ok_iff {bytes : List UInt8} {packet : Packet} :
    parse bytes = .ok packet ↔ Header.parse bytes = .ok packet.header ∧
      OptionArea.parse (bytes.drop Header.size) = .ok packet.options := by
  obtain ⟨header, options⟩ := packet
  unfold parse
  cases Header.parse bytes with
  | error fault => simp [bind, Except.bind]
  | ok first => cases OptionArea.parse (bytes.drop Header.size) <;>
      simp [bind, Except.bind, pure, Except.pure]

theorem fault?_header_of_parse {bytes : List UInt8} {packet : Packet}
    (h : parse bytes = .ok packet) : packet.header.fault? = none :=
  (Header.parse_eq_ok_iff.mp (parse_eq_ok_iff.mp h).1).2

theorem length_body (packet : Packet) : packet.body.length =
    241 + (packet.options.fields.flatMap OptionField.encode).length := by
  rw [body, List.length_append, Header.length_encode, OptionArea.length_encode, Header.size]
  omega

/-- A datagram is written as the fixed part, the options with a measure of each, the
end mark, and zeros up to 300 octets. The measure is exact, as no payload is longer
than an octet can count. What was written reads as the same datagram, whatever follows
it, exactly when the fixed part speaks of ethernet and carries the cookie; the fault is
that of the fixed part otherwise. So what was read once can be written and read again. -/
theorem datagram_round_trip (packet : Packet) :
    let header := packet.header
    let options := packet.options.fields.flatMap fun field =>
      field.code :: UInt8.ofNat field.data.length :: field.data
    let accepted := header.htype = 1 ∧ header.hlen = 6 ∧ header.cookie.toList = [99, 130, 83, 99]
    (∀ rest, parse (packet.encode ++ rest) = .ok packet ↔ accepted) ∧
    (¬accepted → ∃ fault, header.fault? = some fault ∧
      ∀ rest, parse (packet.encode ++ rest) = .error fault) ∧
    (packet.encode =
        header.encode ++ options ++ [255] ++ List.replicate (300 - (241 + options.length)) 0 ∧
      header.encode.length = 240 ∧
      ∀ field ∈ packet.options.fields,
        (UInt8.ofNat field.data.length).toNat = field.data.length) ∧
    ∀ bytes, parse bytes = .ok packet → parse packet.encode = .ok packet := by
  intro header options accepted
  have haccepted : header.fault? = none ↔ accepted := Header.fault?_eq_none_iff
  have hread : accepted → ∀ rest, parse (packet.encode ++ rest) = .ok packet := by
    intro h rest
    rw [parse_encode_append, haccepted.mpr h]
  have hrefused : ¬accepted → ∃ fault, header.fault? = some fault ∧
      ∀ rest, parse (packet.encode ++ rest) = .error fault := by
    intro h
    obtain ⟨fault, hfault⟩ := Option.ne_none_iff_exists'.mp (mt haccepted.mp h)
    refine ⟨fault, hfault, ?_⟩
    intro rest
    rw [parse_encode_append, hfault]
  refine ⟨?_, hrefused, ⟨?_, header.length_encode, ?_⟩, ?_⟩
  · intro rest
    refine ⟨?_, fun h => hread h rest⟩
    intro hok
    apply haccepted.mp
    cases hfault : header.fault? with
    | none => rfl
    | some fault =>
      rw [parse_encode_append, hfault] at hok
      cases hok
  · rw [encode, length_body, body, OptionArea.encode, ← List.append_assoc]
    rfl
  · intro field _
    exact field.toNat_length
  · intro bytes h
    have hok := hread (haccepted.mp (fault?_header_of_parse h)) []
    rwa [List.append_nil] at hok

/-- A datagram of a hardware type, with a message type option and an empty host name. -/
def discovery (type : UInt8) : Packet where
  header := { op := 1, htype := type }
  options := ⟨[⟨53, [1], by decide, by decide, by decide⟩, ⟨12, [], by decide, by decide, by decide⟩]⟩

theorem discovery_reads_back_on_ethernet :
    parse ((discovery 1).encode ++ [7]) = .ok (discovery 1) ∧
      ∃ fault, (discovery 6).header.fault? = some fault ∧
        ∀ rest, parse ((discovery 6).encode ++ rest) = .error fault :=
  ⟨((datagram_round_trip (discovery 1)).1 [7]).mpr (by decide),
    (datagram_round_trip (discovery 6)).2.1 (by decide)⟩

end Packet

end Dhcp
