import Dhcp.Proofs.Codec
import Dhcp.Request

/-!
Options that override the fixed part of a datagram. The type and the client address that
count come from the first option of their code, and its length is looked at only then:
an option of another length hides those behind it. To pass over options of another length
would give the same exactly where none of them hides an option that says something else.
-/
namespace Dhcp

namespace OptionArea

/-- The first option that meets a condition has this payload. -/
def First (area : OptionArea) (p : OptionField → Prop) (data : List UInt8) : Prop :=
  ∃ before field after, area.fields = before ++ field :: after ∧ p field ∧ field.data = data ∧
    ∀ other ∈ before, ¬ p other

/-- The options of a code. -/
def Coded (code : UInt8) (field : OptionField) : Prop := field.code = code

/-- The options of a code whose payload has a certain length. -/
def Fitting (code : UInt8) (n : Nat) (field : OptionField) : Prop :=
  field.code = code ∧ field.data.length = n

/-- A value that an option overrides: what the first option that meets a condition says,
or else what the fixed part says. -/
def Overridden {α : Type} (area : OptionArea) (p : OptionField → Prop)
    (read : List UInt8 → Option α) (fixed value : α) : Prop :=
  (∃ data, area.First p data ∧ read data = some value) ∨
    (∀ data, area.First p data → read data = none) ∧ value = fixed

instance (code : UInt8) : DecidablePred (Coded code) :=
  fun field => inferInstanceAs (Decidable (field.code = code))

instance (code : UInt8) (n : Nat) : DecidablePred (Fitting code n) :=
  fun field => inferInstanceAs (Decidable (field.code = code ∧ field.data.length = n))

variable {area : OptionArea} {data : List UInt8}

theorem first_iff {p : OptionField → Prop} [DecidablePred p] :
    area.First p data ↔
      (area.fields.find? fun field => p field).map OptionField.data = some data := by
  rw [Option.map_eq_some_iff]
  constructor
  · rintro ⟨before, field, after, hfields, hp, hdata, hbefore⟩
    refine ⟨field, ?_, hdata⟩
    apply List.find?_eq_some_iff_append.mpr
    refine ⟨decide_eq_true hp, before, after, hfields, ?_⟩
    intro other hother
    simp [hbefore other hother]
  · rintro ⟨field, hfind, hdata⟩
    obtain ⟨hp, before, after, hfields, hbefore⟩ := List.find?_eq_some_iff_append.mp hfind
    refine ⟨before, field, after, hfields, of_decide_eq_true hp, hdata, ?_⟩
    intro other hother
    simpa using hbefore other hother

theorem First.unique {p : OptionField → Prop} [DecidablePred p] {other : List UInt8}
    (h : area.First p data) (hother : area.First p other) : data = other := by
  rw [first_iff] at h hother
  rw [h] at hother
  exact Option.some.inj hother

/-- The first option of a code is the first that fits, when it fits. -/
theorem First.fitting {code : UInt8} {n : Nat} (h : area.First (Coded code) data)
    (hlength : data.length = n) : area.First (Fitting code n) data := by
  obtain ⟨before, field, after, hfields, hcode, hdata, hbefore⟩ := h
  refine ⟨before, field, after, hfields, ⟨hcode, hdata ▸ hlength⟩, hdata, ?_⟩
  rintro other hother ⟨hsame, -⟩
  exact hbefore other hother hsame

variable {α : Type} {read : List UInt8 → Option α} {fixed value : α}

/-- The value of the first option that can be read, or else the fixed one. -/
theorem overridden_getD (p : OptionField → Prop) [DecidablePred p] :
    area.Overridden p read fixed
      ((((area.fields.find? fun field => p field).map OptionField.data).bind read).getD fixed) := by
  cases hfirst : (area.fields.find? fun field => p field).map OptionField.data with
  | none =>
    refine .inr ⟨?_, rfl⟩
    intro data h
    rw [first_iff, hfirst] at h
    cases h
  | some data =>
    have h : area.First p data := first_iff.mpr hfirst
    cases hread : read data with
    | some a => exact .inl ⟨data, h, by simp [hread]⟩
    | none =>
      refine .inr ⟨?_, by simp [hread]⟩
      intro other hother
      rw [← h.unique hother, hread]

/-- To look for the first option that fits makes no difference exactly if it is the first
of its code or says what stands in the fixed part. -/
theorem overridden_fitting_iff {code : UInt8} {n : Nat}
    (hread : ∀ data, (read data).isSome ↔ data.length = n)
    (h : area.Overridden (Coded code) read fixed value) :
    area.Overridden (Fitting code n) read fixed value ↔
      ∀ data, area.First (Fitting code n) data →
        area.First (Coded code) data ∨ read data = some fixed := by
  have hlength : ∀ {data a}, read data = some a → data.length = n := by
    intro data a hsome
    exact (hread data).mp (Option.isSome_iff_exists.mpr ⟨a, hsome⟩)
  have hfits : ∀ {data}, area.First (Fitting code n) data → read data ≠ none := by
    rintro data ⟨-, field, -, -, ⟨-, hn⟩, rfl, -⟩
    exact Option.isSome_iff_ne_none.mp ((hread field.data).mpr hn)
  constructor
  · rintro (⟨data, hfirst, hvalue⟩ | ⟨hnone, -⟩) other hother
    · rcases hfirst.unique hother
      rcases h with ⟨front, hfront, hsame⟩ | ⟨-, rfl⟩
      · rcases (hfront.fitting (hlength hsame)).unique hfirst
        exact .inl hfront
      · exact .inr hvalue
    · exact absurd (hnone other hother) (hfits hother)
  · intro hcases
    rcases h with ⟨data, hfirst, hvalue⟩ | ⟨hnone, rfl⟩
    · exact .inl ⟨data, hfirst.fitting (hlength hvalue), hvalue⟩
    · by_cases hexists : ∃ data, area.First (Fitting code n) data
      · obtain ⟨data, hfirst⟩ := hexists
        rcases hcases data hfirst with hfront | hvalue
        · exact absurd (hnone data hfront) (hfits hfirst)
        · exact .inl ⟨data, hfirst, hvalue⟩
      · refine .inr ⟨?_, rfl⟩
        intro data hfirst
        exact absurd ⟨data, hfirst⟩ hexists

end OptionArea

namespace Request

/-- The octet of a payload of one. -/
def octet? : List UInt8 → Option UInt8
  | [o] => some o
  | _ => none

/-- The address of a payload of four octets. -/
def address? (data : List UInt8) : Option Ipv4 := (Octets.ofList? 4 data).map Ipv4.ofOctets

theorem isSome_octet?_iff (data : List UInt8) : (octet? data).isSome ↔ data.length = 1 := by
  rcases data with _ | ⟨o, _ | ⟨_, _⟩⟩
  · simp [octet?]
  · simp [octet?]
  · simp [octet?]

theorem isSome_address?_iff (data : List UInt8) : (address? data).isSome ↔ data.length = 4 := by
  rw [address?, Option.isSome_map, Octets.ofList?]
  split
  · next h => simp [h]
  · next h => simp [h]

variable {packet : Packet} {source : Endpoint}

theorem overridden_type : packet.options.Overridden (OptionArea.Coded 53) octet? packet.header.op
    (ofPacket packet source).type := by
  have htype : packet.options.messageType =
      ((packet.options.get? 53).map OptionField.data).bind octet? := by
    have hcode : OptionCode.messageType.toUInt8 = 53 := rfl
    rw [OptionArea.messageType, hcode]
    cases (packet.options.get? 53).map OptionField.data with
    | none => rfl
    | some data => rcases data with _ | ⟨o, _ | ⟨_, _⟩⟩ <;> rfl
  rw [ofPacket, htype]
  exact OptionArea.overridden_getD (OptionArea.Coded 53)

theorem overridden_clientAddress : packet.options.Overridden (OptionArea.Coded 50) address?
    packet.header.ciaddr (ofPacket packet source).clientAddress := by
  have haddress : packet.options.requestedAddress =
      ((packet.options.get? 50).map OptionField.data).bind address? := by
    rw [OptionArea.requestedAddress, Option.bind_map]
    rfl
  rw [ofPacket, haddress]
  exact OptionArea.overridden_getD (OptionArea.Coded 50)

/-- The rule that options of another length are passed over, wherever they stand. -/
def FollowsFitting (request : Request) : Prop :=
  request.packet.options.Overridden (OptionArea.Fitting 53 1) octet? request.packet.header.op
    request.type ∧
  request.packet.options.Overridden (OptionArea.Fitting 50 4) address?
    request.packet.header.ciaddr request.clientAddress

/-- In an accepted datagram the first option 53 gives the type if it has one octet, and the
first option 50 the client address if it has four; the fixed part gives what they do not.
The datagram is kept as it was read. It makes a difference that the length is looked at
last exactly if an option of another length stands before the first one that fits, and
that one says something else than the fixed part. -/
theorem first_option_of_code_overrides (bytes : List UInt8) (source : Endpoint)
    (request : Request) (h : parse bytes source = .ok request) :
    Packet.parse bytes = .ok request.packet ∧
    request.packet.options.Overridden (OptionArea.Coded 53) octet? request.packet.header.op
      request.type ∧
    request.packet.options.Overridden (OptionArea.Coded 50) address?
      request.packet.header.ciaddr request.clientAddress ∧
    (request.FollowsFitting ↔
      (∀ data, request.packet.options.First (OptionArea.Fitting 53 1) data →
        request.packet.options.First (OptionArea.Coded 53) data ∨
          octet? data = some request.packet.header.op) ∧
      (∀ data, request.packet.options.First (OptionArea.Fitting 50 4) data →
        request.packet.options.First (OptionArea.Coded 50) data ∨
          address? data = some request.packet.header.ciaddr)) := by
  obtain ⟨-, packet, hparse, rfl⟩ := parse_eq_ok_iff.mp h
  refine ⟨hparse, overridden_type, overridden_clientAddress, ?_⟩
  exact and_congr (OptionArea.overridden_fitting_iff isSome_octet?_iff overridden_type)
    (OptionArea.overridden_fitting_iff isSome_address?_iff overridden_clientAddress)

theorem parse_encode_eq_ok (packet : Packet) (h : packet.header.fault? = none) :
    parse packet.encode ⟨.unspecified, 68⟩ = .ok (ofPacket packet ⟨.unspecified, 68⟩) :=
  parse_eq_ok_iff.mpr ⟨rfl, packet, Packet.parse_encode h, rfl⟩

/-- The message type option of a discovery is the first of its code and fits. -/
theorem discovery_follows_fitting :
    parse (Packet.discovery 1).encode ⟨.unspecified, 68⟩ =
        .ok (ofPacket (.discovery 1) ⟨.unspecified, 68⟩) ∧
      (ofPacket (.discovery 1) ⟨.unspecified, 68⟩).FollowsFitting := by
  have hparse := parse_encode_eq_ok (.discovery 1) rfl
  obtain ⟨-, -, -, hrule⟩ := first_option_of_code_overrides _ _ _ hparse
  refine ⟨hparse, hrule.mpr ⟨?_, ?_⟩⟩
  · intro data hfirst
    have htype : (Packet.discovery 1).options.First (OptionArea.Fitting 53 1) [1] :=
      OptionArea.first_iff.mpr (by decide)
    rcases hfirst.unique htype
    exact .inl (OptionArea.first_iff.mpr (by decide))
  · intro data hfirst
    have hnone : (Packet.discovery 1).options.fields.find?
        (fun field => OptionArea.Fitting 50 4 field) = none := by decide
    rw [OptionArea.first_iff, ofPacket, hnone] at hfirst
    cases hfirst

/-- A datagram of operation 2 with a message type option of two octets before one of a
single octet. -/
def hidden : Packet where
  header := { op := 2 }
  options := ⟨[OptionField.create 53 [1, 1], OptionField.create 53 [3]].filterMap Except.toOption⟩

/-- An option of another length is not passed over: it hides the one behind it. -/
theorem hidden_option_not_followed :
    parse hidden.encode ⟨.unspecified, 68⟩ = .ok (ofPacket hidden ⟨.unspecified, 68⟩) ∧
      (ofPacket hidden ⟨.unspecified, 68⟩).type = 2 ∧
      hidden.options.First (OptionArea.Fitting 53 1) [3] ∧
      ¬ (ofPacket hidden ⟨.unspecified, 68⟩).FollowsFitting := by
  have hfirst : hidden.options.First (OptionArea.Fitting 53 1) [3] :=
    OptionArea.first_iff.mpr (by decide)
  refine ⟨parse_encode_eq_ok hidden rfl, rfl, hfirst, ?_⟩
  rintro ⟨⟨data, hdata, hvalue⟩ | ⟨hnone, -⟩, -⟩
  · rcases hdata.unique hfirst
    revert hvalue
    decide
  · cases hnone [3] hfirst

end Request

end Dhcp
