import Dhcp.Proofs.Codec

/-!
The fixed part of a datagram, octet by octet. Its fields are laid out side by side
over the first 240 octets without a gap, so what was read is written back as it stood.
The four checks are made in a fixed order, each on octets of its own, and nothing else
is ever refused.
-/
namespace Dhcp.Header

theorem take_append_slice (bytes : List UInt8) (offset n : Nat) (h : offset + n ≤ bytes.length) :
    bytes.take offset ++ (Octets.slice bytes offset n h).toList = bytes.take (offset + n) := by
  rw [Octets.slice, List.take_add]

/-- The fields cover the octets they were read from, one behind the other. -/
theorem encode_ofBytes {bytes : List UInt8} (h : size ≤ bytes.length) :
    (ofBytes bytes h).encode = bytes.take size := by
  have hlength : 240 ≤ bytes.length := h
  have hfront : [bytes[0], bytes[1], bytes[2], bytes[3]] = bytes.take 4 := by
    rcases bytes with _ | ⟨_, _ | ⟨_, _ | ⟨_, _ | ⟨_, _⟩⟩⟩⟩
    · simp at hlength
    · simp at hlength
    · simp at hlength
    · simp at hlength
    · rfl
  simp only [encode, ofBytes, littleEndian_ofNat_uint32, littleEndian_ofNat_uint16,
    Ipv4.octets_ofOctets, hfront, take_append_slice, Nat.reduceAdd]
  exact take_append_slice bytes 236 4 h

/-- Octets that are refused, and what there is to say about them. Each check is made
only where the ones before it were met. -/
inductive Refused (bytes : List UInt8) : String → Prop
  | tooShort (short : bytes.length < 240) :
    Refused bytes ("Packet too short: " ++ toString bytes.length ++ " bytes (minimum 240)")
  | hardwareType {type : UInt8} (long : 240 ≤ bytes.length) (read : bytes[1]? = some type)
      (other : type ≠ 1) :
    Refused bytes ("Only type 1 (ethernet) supported, not " ++ toString type.toNat)
  | hardwareLength {length : UInt8} (long : 240 ≤ bytes.length) (ethernet : bytes[1]? = some 1)
      (read : bytes[2]? = some length) (other : length ≠ 6) :
    Refused bytes ("Only 6 byte hardware addresses supported, not " ++ toString length.toNat)
  | wrongCookie (long : 240 ≤ bytes.length) (ethernet : bytes[1]? = some 1)
      (six : bytes[2]? = some 6) (other : (bytes.drop 236).take 4 ≠ [99, 130, 83, 99]) :
    Refused bytes "Invalid magic cookie"

/-- Octets that every check lets pass. -/
def Accepted (bytes : List UInt8) : Prop :=
  240 ≤ bytes.length ∧ bytes[1]? = some 1 ∧ bytes[2]? = some 6 ∧
    (bytes.drop 236).take 4 = [99, 130, 83, 99]

variable {bytes : List UInt8} {header : Header} {text : String}

theorem accepted_or_refused (bytes : List UInt8) :
    Accepted bytes ∨ ∃ text, Refused bytes text := by
  by_cases hlong : 240 ≤ bytes.length
  · have htype : bytes[1]? = some bytes[1] := List.getElem?_eq_getElem _
    have hlen : bytes[2]? = some bytes[2] := List.getElem?_eq_getElem _
    by_cases hethernet : bytes[1] = 1
    · rw [hethernet] at htype
      by_cases hsix : bytes[2] = 6
      · rw [hsix] at hlen
        by_cases hcookie : (bytes.drop 236).take 4 = [99, 130, 83, 99]
        · exact .inl ⟨hlong, htype, hlen, hcookie⟩
        · exact .inr ⟨_, .wrongCookie hlong htype hlen hcookie⟩
      · exact .inr ⟨_, .hardwareLength hlong htype hlen hsix⟩
    · exact .inr ⟨_, .hardwareType hlong htype hethernet⟩
  · exact .inr ⟨_, .tooShort (Nat.not_le.mp hlong)⟩

theorem htype_ofBytes {type : UInt8} (hlong : size ≤ bytes.length) (h : bytes[1]? = some type) :
    (ofBytes bytes hlong).htype = type := by
  obtain ⟨_, hread⟩ := List.getElem?_eq_some_iff.mp h
  exact hread

theorem hlen_ofBytes {length : UInt8} (hlong : size ≤ bytes.length)
    (h : bytes[2]? = some length) : (ofBytes bytes hlong).hlen = length := by
  obtain ⟨_, hread⟩ := List.getElem?_eq_some_iff.mp h
  exact hread

theorem parse_of_accepted (h : Accepted bytes) :
    ∃ header, parse bytes = .ok header ∧ header.encode = bytes.take 240 := by
  obtain ⟨hlong, htype, hlen, hcookie⟩ := h
  have hnone : (ofBytes bytes hlong).fault? = none :=
    fault?_eq_none_iff.mpr ⟨htype_ofBytes hlong htype, hlen_ofBytes hlong hlen, hcookie⟩
  exact ⟨ofBytes bytes hlong, parse_eq_ok_iff.mpr ⟨⟨hlong, rfl⟩, hnone⟩, encode_ofBytes hlong⟩

theorem parse_of_fault? {fault : PacketFault} (hlong : size ≤ bytes.length)
    (h : (ofBytes bytes hlong).fault? = some fault) : parse bytes = .error fault := by
  rw [parse_of_le hlong, h]

theorem parse_of_refused (h : Refused bytes text) :
    ∃ fault, parse bytes = .error fault ∧ fault.reason = text := by
  cases h with
  | tooShort short =>
    refine ⟨.tooShort bytes.length, ?_, rfl⟩
    exact dif_neg (Nat.not_le.mpr short)
  | @hardwareType type long read other =>
    refine ⟨.hardwareType type, parse_of_fault? long ?_, rfl⟩
    rw [fault?, htype_ofBytes long read]
    exact if_pos other
  | @hardwareLength length long ethernet read other =>
    refine ⟨.hardwareLength length, parse_of_fault? long ?_, rfl⟩
    have htype : (ofBytes bytes long).htype = Header.ethernet := htype_ofBytes long ethernet
    rw [fault?, if_neg (not_not_intro htype), hlen_ofBytes long read]
    exact if_pos other
  | wrongCookie long ethernet six other =>
    refine ⟨.wrongCookie, parse_of_fault? long ?_, rfl⟩
    have htype : (ofBytes bytes long).htype = Header.ethernet := htype_ofBytes long ethernet
    have hlen : (ofBytes bytes long).hlen = ethernetLength := hlen_ofBytes long six
    have hother : (ofBytes bytes long).cookie ≠ magicCookie :=
      fun heq => other (congrArg Octets.toList heq)
    rw [fault?, if_neg (not_not_intro htype), if_neg (not_not_intro hlen), if_pos hother]

/-- Octets are read exactly when each check lets them pass, and what was read is written
as the first 240 of them. Otherwise the report is about the first check that failed. A
fixed part takes 240 octets and is read back from them whatever follows, exactly when it
speaks of ethernet and carries the cookie. -/
theorem reading_and_writing_are_inverse (bytes : List UInt8) (header : Header)
    (tail : List UInt8) :
    ((∃ read, parse bytes = .ok read) ↔ Accepted bytes) ∧
    (∀ read, parse bytes = .ok read → read.encode = bytes.take 240) ∧
    (∀ text, (∃ fault, parse bytes = .error fault ∧ fault.reason = text) ↔ Refused bytes text) ∧
    header.encode.length = 240 ∧
    (parse (header.encode ++ tail) = .ok header ↔
      header.htype = 1 ∧ header.hlen = 6 ∧ header.cookie.toList = [99, 130, 83, 99]) ∧
    (¬ (header.htype = 1 ∧ header.hlen = 6 ∧ header.cookie.toList = [99, 130, 83, 99]) →
      ∃ fault, parse (header.encode ++ tail) = .error fault) := by
  rw [← fault?_eq_none_iff, parse_encode_append]
  refine ⟨⟨?_, ?_⟩, ?_, ?_, header.length_encode, ⟨?_, ?_⟩, ?_⟩
  · rintro ⟨read, hok⟩
    rcases accepted_or_refused bytes with haccepted | ⟨text, hrefused⟩
    · exact haccepted
    · obtain ⟨fault, hfault, -⟩ := parse_of_refused hrefused
      rw [hok] at hfault
      cases hfault
  · intro haccepted
    obtain ⟨read, hok, -⟩ := parse_of_accepted haccepted
    exact ⟨read, hok⟩
  · intro read hok
    obtain ⟨⟨hlong, rfl⟩, -⟩ := parse_eq_ok_iff.mp hok
    exact encode_ofBytes hlong
  · intro text
    constructor
    · rintro ⟨fault, hfault, rfl⟩
      rcases accepted_or_refused bytes with haccepted | ⟨text, hrefused⟩
      · obtain ⟨read, hok, -⟩ := parse_of_accepted haccepted
        rw [hfault] at hok
        cases hok
      · obtain ⟨other, hother, rfl⟩ := parse_of_refused hrefused
        rw [hfault] at hother
        cases hother
        exact hrefused
    · exact parse_of_refused
  · intro hok
    cases hfault : header.fault? with
    | none => rfl
    | some fault =>
      rw [hfault] at hok
      cases hok
  · intro hnone
    rw [hnone]
  · intro hsome
    obtain ⟨fault, hfault⟩ := Option.ne_none_iff_exists'.mp hsome
    exact ⟨fault, by rw [hfault]⟩

/-- The fixed part of a discovery over ethernet is written as it was read, and one over
another hardware is refused. -/
theorem ethernet_rewritten_other_refused :
    (∃ read, parse (Packet.discovery 1).encode = .ok read ∧
      read.encode = (Packet.discovery 1).encode.take 240) ∧
    ∃ fault, parse ((Packet.discovery 6).header.encode ++ [7]) = .error fault := by
  obtain ⟨haccepted, hwritten, -, -, -, hrefused⟩ :=
    reading_and_writing_are_inverse (Packet.discovery 1).encode (Packet.discovery 6).header [7]
  obtain ⟨read, hread⟩ := haccepted.mpr
    ⟨by decide +kernel, by decide +kernel, by decide +kernel, by decide +kernel⟩
  exact ⟨⟨read, hread, hwritten read hread⟩, hrefused (by decide)⟩

end Dhcp.Header
