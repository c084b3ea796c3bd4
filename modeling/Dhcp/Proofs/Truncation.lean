import Dhcp.Proofs.FixedPart
import Dhcp.Proofs.OptionGrammar

/-!
Datagrams that were cut off. A cut either falls strictly inside a unit of the option area,
and then the reader runs out of octets there, or it falls between units, in the padding or
behind the end mark, and then the units before it are read as they were. So no cut makes
the reader see an option that the whole datagram does not have.
-/
namespace Dhcp

namespace OptionArea

theorem Lists.append {front more : List UInt8} {units others : List (UInt8 × List UInt8)}
    (h : Lists front units) (hmore : Lists more others) :
    Lists (front ++ more) (units ++ others) := by
  induction h with
  | nil => exact hmore
  | pad _ ih => exact ih.pad
  | unit pad last measure _ ih =>
    rw [List.cons_append, List.cons_append, List.append_assoc]
    exact .unit pad last measure ih

/-- One unit by itself is a listing. -/
theorem lists_unit {code length : UInt8} {payload : List UInt8} (pad : code ≠ 0)
    (last : code ≠ 255) (measure : payload.length = length.toNat) :
    Lists (code :: length :: payload) [(code, payload)] := by
  have h := Lists.unit pad last measure .nil
  rwa [List.append_nil] at h

theorem Ends.take {tail : List UInt8} (h : Ends tail) (n : Nat) : Ends (tail.take n) := by
  rcases h with hnil | hend
  · left
    rw [hnil, List.take_nil]
  · cases n with
    | zero => exact .inl List.take_zero
    | succ n =>
      right
      cases tail with
      | nil => cases hend
      | cons first rest => exact hend

/-- The cut falls behind the first octet of a listed unit and before its last one. -/
def CutInside (units : List (UInt8 × List UInt8)) (bytes : List UInt8) (cut : Nat) : Prop :=
  ∃ before earlier code length payload after later,
    bytes = before ++ code :: length :: (payload ++ after) ∧
    units = earlier ++ (code, payload) :: later ∧
    Lists before earlier ∧ code ≠ 0 ∧ code ≠ 255 ∧ payload.length = length.toNat ∧
    before.length < cut ∧ cut < before.length + 2 + payload.length

/-- Some first units stand before the cut, with nothing of another one. -/
def CutBetween (units : List (UInt8 × List UInt8)) (bytes : List UInt8) (cut : Nat) : Prop :=
  ∃ front earlier tail, bytes.take cut = front ++ tail ∧ earlier <+: units ∧
    Lists front earlier ∧ Ends tail

variable {units new : List (UInt8 × List UInt8)} {bytes pre front tail : List UInt8} {cut : Nat}

theorem cutBetween_zero : CutBetween units bytes 0 :=
  ⟨[], [], [], List.take_zero, List.nil_prefix, .nil, .inl rfl⟩

theorem CutInside.behind (hpre : Lists pre new) (h : CutInside units bytes cut) :
    CutInside (new ++ units) (pre ++ bytes) (pre.length + cut) := by
  obtain ⟨before, earlier, code, length, payload, after, later, hbytes, hunits, hlists, pad, last,
    measure, hstart, hstop⟩ := h
  refine ⟨pre ++ before, new ++ earlier, code, length, payload, after, later, ?_, ?_,
    hpre.append hlists, pad, last, measure, ?_, ?_⟩
  · rw [hbytes, List.append_assoc]
  · rw [hunits, List.append_assoc]
  · rw [List.length_append]
    omega
  · rw [List.length_append]
    omega

theorem CutBetween.behind (hpre : Lists pre new) (h : CutBetween units bytes cut) :
    CutBetween (new ++ units) (pre ++ bytes) (pre.length + cut) := by
  obtain ⟨front, earlier, tail, htake, hprefix, hlists, hends⟩ := h
  refine ⟨pre ++ front, new ++ earlier, tail, ?_, ?_, hpre.append hlists, hends⟩
  · rw [List.take_length_add_append, htake, List.append_assoc]
  · exact (List.prefix_append_right_inj new).mpr hprefix

/-- Every cut falls inside a unit or between units. The induction goes along the listing,
and what the cut leaves of it is passed over. -/
theorem Lists.cut_cases (h : Lists front units) (hends : Ends tail) (cut : Nat) :
    CutInside units (front ++ tail) cut ∨ CutBetween units (front ++ tail) cut := by
  induction h generalizing cut with
  | nil =>
    exact .inr ⟨[], [], tail.take cut, rfl, List.nil_prefix, .nil, hends.take cut⟩
  | @pad bytes units _ ih =>
    cases cut with
    | zero => exact .inr cutBetween_zero
    | succ cut =>
      have hpre : Lists [0] [] := .pad .nil
      have hcut : cut + 1 = [(0 : UInt8)].length + cut := Nat.add_comm cut 1
      rw [hcut]
      rcases ih cut with hinside | hbetween
      · exact .inl (hinside.behind hpre)
      · exact .inr (hbetween.behind hpre)
  | @unit code length payload bytes units pad last measure _ ih =>
    have hpre := lists_unit pad last measure
    have hbytes : code :: length :: (payload ++ bytes) ++ tail =
        (code :: length :: payload) ++ (bytes ++ tail) := by
      simp
    by_cases hstart : cut = 0
    · rw [hstart]
      exact .inr cutBetween_zero
    · by_cases hstop : cut < 2 + payload.length
      · refine .inl ⟨[], [], code, length, payload, bytes ++ tail, units, ?_, rfl, .nil, pad, last,
          measure, Nat.pos_of_ne_zero hstart, ?_⟩
        · simp
        · rw [List.length_nil]
          omega
      · obtain ⟨beyond, hcut⟩ : ∃ beyond, cut = (code :: length :: payload).length + beyond := by
          apply Nat.exists_eq_add_of_le
          simp only [List.length_cons]
          omega
        rw [hbytes, hcut]
        rcases ih beyond with hinside | hbetween
        · exact .inl (hinside.behind hpre)
        · exact .inr (hbetween.behind hpre)

/-- The front of a unit without its end is a unit cut short. -/
theorem cutShort_take {code length : UInt8} {payload : List UInt8} (after : List UInt8)
    (pad : code ≠ 0) (last : code ≠ 255) (measure : payload.length = length.toNat)
    (hstart : 0 < cut) (hstop : cut < 2 + payload.length) :
    ∃ text, CutShort ((code :: length :: (payload ++ after)).take cut) text := by
  rcases cut with _ | _ | kept
  · cases hstart
  · exact ⟨_, .lengthMissing pad last⟩
  · refine ⟨_, .payloadCut pad last ?_⟩
    rw [List.length_take]
    omega

theorem parse_take_of_cutInside (h : CutInside units bytes cut) :
    ∃ fault, parse (bytes.take cut) = .error fault := by
  obtain ⟨before, earlier, code, length, payload, after, later, rfl, -, hlists, pad, last, measure,
    hstart, hstop⟩ := h
  obtain ⟨kept, rfl⟩ := Nat.exists_eq_add_of_le (Nat.le_of_lt hstart)
  obtain ⟨text, hshort⟩ : ∃ text,
      CutShort ((code :: length :: (payload ++ after)).take kept) text :=
    cutShort_take after pad last measure (by omega) (by omega)
  obtain ⟨fault, hfault, -⟩ := parse_of_cutShort hlists hshort
  rw [List.take_length_add_append]
  exact ⟨fault, hfault⟩

theorem parse_take_of_cutBetween (h : CutBetween units bytes cut) :
    ∃ shorter, parse (bytes.take cut) = .ok shorter ∧ shorter.units <+: units := by
  obtain ⟨front, earlier, tail, htake, hprefix, hlists, hends⟩ := h
  obtain ⟨shorter, hread, hunits⟩ := parse_of_ends hlists hends
  exact ⟨shorter, htake ▸ hread, hunits ▸ hprefix⟩

/-- What is left of an area by a cut is read exactly if the cut is not inside a unit. -/
theorem parse_take_cases {area : OptionArea} (h : parse bytes = .ok area) (cut : Nat) :
    (CutInside area.units bytes cut ∧ ∃ fault, parse (bytes.take cut) = .error fault) ∨
    (¬ CutInside area.units bytes cut ∧ ∃ shorter, parse (bytes.take cut) = .ok shorter ∧
      shorter.fields <+: area.fields) := by
  by_cases hinside : CutInside area.units bytes cut
  · exact .inl ⟨hinside, parse_take_of_cutInside hinside⟩
  · have hbetween : CutBetween area.units bytes cut := by
      obtain ⟨front, units, tail, rfl, hlists, hends | ⟨text, hshort⟩⟩ := exists_listing bytes
      · obtain ⟨read, hread, hunits⟩ := parse_of_ends hlists hends
        rw [h] at hread
        cases hread
        exact (hunits ▸ hlists.cut_cases hends cut).resolve_left hinside
      · obtain ⟨fault, hfault, -⟩ := parse_of_cutShort hlists hshort
        rw [h] at hfault
        cases hfault
    obtain ⟨shorter, hread, hprefix⟩ := parse_take_of_cutBetween hbetween
    exact .inr ⟨hinside, shorter, hread,
      (List.prefix_map_iff_of_injective unit_injective).mp hprefix⟩

/-- A look-up finds in the first options what it finds in all of them, or nothing. -/
theorem get?_of_prefix {area shorter : OptionArea} (h : shorter.fields <+: area.fields)
    (code : UInt8) : shorter.get? code = none ∨ shorter.get? code = area.get? code := by
  cases hget : shorter.get? code with
  | none => exact .inl rfl
  | some field =>
    right
    exact (h.find?_eq_some hget).symm

end OptionArea

namespace Packet

variable {bytes front : List UInt8} {packet : Packet} {cut : Nat}

theorem parse_of_length_lt (h : bytes.length < 240) :
    parse bytes = .error (.tooShort bytes.length) := by
  have hshort : ¬ Header.size ≤ bytes.length := Nat.not_le.mpr h
  rw [parse, Header.parse, dif_neg hshort]
  rfl

/-- A cut behind the fixed part leaves the fixed part alone. -/
theorem parse_take_of_le (h : parse bytes = .ok packet) (hcut : 240 ≤ cut) :
    parse (bytes.take cut) = (OptionArea.parse ((bytes.drop 240).take (cut - 240))).map
      (⟨packet.header, ·⟩) := by
  obtain ⟨⟨hlong, hheader⟩, -⟩ := Header.parse_eq_ok_iff.mp (parse_eq_ok_iff.mp h).1
  have hfixed : packet.header.encode = bytes.take 240 := by
    rw [hheader]
    exact Header.encode_ofBytes hlong
  have hsplit : bytes.take cut =
      packet.header.encode ++ (bytes.drop 240).take (cut - 240) := by
    rw [hfixed, ← List.take_add, Nat.add_sub_cancel' hcut]
  rw [hsplit, parse_header_append, fault?_header_of_parse h]

/-- The front of a datagram is refused or has the fixed part of the datagram and the first
ones of its options; so a look-up by code finds nothing there or what it finds in the whole.
It is accepted exactly if it keeps the fixed part and does not end strictly inside a unit
of the option area. -/
theorem front_says_nothing_else (bytes front : List UInt8) (packet : Packet)
    (hwhole : parse bytes = .ok packet) (hfront : front <+: bytes) :
    ((∃ fault, parse front = .error fault) ∨
      ∃ shorter, parse front = .ok shorter ∧ shorter.header = packet.header ∧
        shorter.options.fields <+: packet.options.fields ∧
        ∀ code, shorter.options.get? code = none ∨
          shorter.options.get? code = packet.options.get? code) ∧
    ((∃ shorter, parse front = .ok shorter) ↔ 240 ≤ front.length ∧
      ¬ OptionArea.CutInside packet.options.units (bytes.drop 240) (front.length - 240)) := by
  by_cases hlong : 240 ≤ front.length
  · have hoptions : OptionArea.parse (bytes.drop 240) = .ok packet.options :=
      (parse_eq_ok_iff.mp hwhole).2
    have hread := parse_take_of_le hwhole hlong
    rw [← List.prefix_iff_eq_take.mp hfront] at hread
    rcases OptionArea.parse_take_cases hoptions (front.length - 240) with
      ⟨hinside, fault, hfault⟩ | ⟨hbetween, shorter, hshorter, hprefix⟩
    · have hrefused : parse front = .error fault := by
        rw [hread, hfault]
        rfl
      refine ⟨.inl ⟨fault, hrefused⟩, ?_⟩
      simp only [hrefused, reduceCtorEq, exists_false, false_iff, not_and]
      exact fun _ => not_not_intro hinside
    · have haccepted : parse front = .ok ⟨packet.header, shorter⟩ := by
        rw [hread, hshorter]
        rfl
      refine ⟨.inr ⟨_, haccepted, rfl, hprefix, OptionArea.get?_of_prefix hprefix⟩, ?_⟩
      exact ⟨fun _ => ⟨hlong, hbetween⟩, fun _ => ⟨_, haccepted⟩⟩
  · have hrefused := parse_of_length_lt (Nat.not_le.mp hlong)
    refine ⟨.inl ⟨_, hrefused⟩, ?_⟩
    simp [hrefused, hlong]

/-- A discovery cut behind its message type keeps that option and says nothing else; cut
inside of it, it is refused. -/
theorem discovery_cut_behind_and_inside_option :
    (∃ shorter, parse ((discovery 1).encode.take 243) = .ok shorter ∧
      shorter.header = (discovery 1).header ∧
      shorter.options.fields <+: (discovery 1).options.fields) ∧
    ¬ ∃ shorter, parse ((discovery 1).encode.take 242) = .ok shorter := by
  have hwhole : parse (discovery 1).encode = .ok (discovery 1) := parse_encode rfl
  obtain ⟨hbehind, -⟩ := front_says_nothing_else _ _ _ hwhole (List.take_prefix 243 _)
  obtain ⟨-, hinside⟩ := front_says_nothing_else _ _ _ hwhole (List.take_prefix 242 _)
  refine ⟨?_, ?_⟩
  · rcases hbehind with ⟨fault, hfault⟩ | ⟨shorter, hread, hheader, hprefix, -⟩
    · have hok : (parse ((discovery 1).encode.take 243)).isOk := by decide +kernel
      rw [hfault] at hok
      cases hok
    · exact ⟨shorter, hread, hheader, hprefix⟩
  · rw [hinside]
    rintro ⟨-, hnot⟩
    apply hnot
    refine ⟨[], [], 53, 1, [1], 12 :: 0 :: 255 :: List.replicate 54 0, [(12, [])], ?_, rfl, .nil,
      by decide, by decide, rfl, ?_⟩
    · decide +kernel
    · rw [List.length_take, length_encode]
      decide +kernel

end Packet

end Dhcp
