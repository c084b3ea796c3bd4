import Dhcp.Options.Field
import Dhcp.Packet.Fault
import Dhcp.Wire.Utf8

/-!
The option area of a datagram: options in order of arrival, a code possibly more
than once. Reading passes over pad octets and stops at the end mark or at the end
of the octets. A look-up by code finds the first option of that code, and setting
a code replaces that option or appends a new one.
-/
namespace Dhcp

structure OptionArea where
  fields : List OptionField
  deriving DecidableEq

namespace OptionArea

def empty : OptionArea := ⟨[]⟩

instance : Inhabited OptionArea := ⟨empty⟩

theorem length_take_octet_le (length : UInt8) (bytes : List UInt8) :
    (bytes.take length.toNat).length ≤ 255 := by
  have := length.toNat_lt
  rw [List.length_take]
  omega

def parseFields : List UInt8 → Except PacketFault (List OptionField)
  | [] => .ok []
  | code :: rest =>
    if pad : code = OptionCode.pad.toUInt8 then parseFields rest
    else if last : code = OptionCode.endOfOptions.toUInt8 then .ok []
    else match rest with
      | [] => .error (.lengthMissing code)
      | length :: tail =>
        if length.toNat ≤ tail.length then
          (parseFields (tail.drop length.toNat)).map fun fields =>
            ⟨code, tail.take length.toNat, pad, last, length_take_octet_le length tail⟩ :: fields
        else .error (.payloadCut code length tail.length)
termination_by bytes => bytes.length
decreasing_by
  · exact Nat.lt_succ_self _
  · simp only [List.length_drop, List.length_cons]
    omega

theorem parseFields_pad (rest : List UInt8) :
    parseFields (OptionCode.pad.toUInt8 :: rest) = parseFields rest := by
  rw [parseFields, dif_pos rfl]

theorem parseFields_end (rest : List UInt8) :
    parseFields (OptionCode.endOfOptions.toUInt8 :: rest) = .ok [] := by
  rw [parseFields, dif_neg (by decide), dif_pos rfl]

section

variable {code length : UInt8} {tail : List UInt8} (pad : code ≠ OptionCode.pad.toUInt8)
  (last : code ≠ OptionCode.endOfOptions.toUInt8)

include pad last

theorem parseFields_lengthMissing : parseFields [code] = .error (.lengthMissing code) := by
  rw [parseFields, dif_neg pad, dif_neg last]

theorem parseFields_payloadCut (h : ¬ length.toNat ≤ tail.length) :
    parseFields (code :: length :: tail) = .error (.payloadCut code length tail.length) := by
  rw [parseFields, dif_neg pad, dif_neg last]
  exact if_neg h

theorem parseFields_field (h : length.toNat ≤ tail.length) :
    parseFields (code :: length :: tail) = (parseFields (tail.drop length.toNat)).map fun fields =>
      ⟨code, tail.take length.toNat, pad, last, length_take_octet_le length tail⟩ :: fields := by
  rw [parseFields, dif_neg pad, dif_neg last]
  exact if_pos h

end

/-- The area that a string of octets lists. -/
def parse (bytes : List UInt8) : Except PacketFault OptionArea := do
  return ⟨← parseFields bytes⟩

/-- The options one after the other, then the end mark. -/
def encode (area : OptionArea) : List UInt8 :=
  area.fields.flatMap OptionField.encode ++ [OptionCode.endOfOptions.toUInt8]

def get? (area : OptionArea) (code : UInt8) : Option OptionField :=
  area.fields.find? fun field => field.code == code

/-- Puts an option in the place of the first with its code, or at the end. -/
def putField (field : OptionField) : List OptionField → List OptionField
  | [] => [field]
  | first :: rest =>
    if first.code = field.code then field :: rest else first :: putField field rest

theorem putField_of_absent {field : OptionField} {fields : List OptionField}
    (h : ∀ other ∈ fields, other.code ≠ field.code) : putField field fields = fields ++ [field] := by
  induction fields with
  | nil => rfl
  | cons first rest ih =>
    simp only [List.mem_cons, forall_eq_or_imp] at h
    rw [putField, if_neg h.1, ih h.2, List.cons_append]

/-- Puts an option in the place of the first with its code, or at the end. -/
def put (area : OptionArea) (field : OptionField) : OptionArea := ⟨putField field area.fields⟩

def set (area : OptionArea) (code : UInt8) (data : List UInt8) : Except OptionFault OptionArea := do
  return area.put (← OptionField.create code data)

/-- The octet of the first message type option, when its payload is one octet. -/
def messageType (area : OptionArea) : Option UInt8 :=
  match (area.get? OptionCode.messageType.toUInt8).map OptionField.data with
  | some [type] => some type
  | _ => none

/-- The address of the first requested address option, when its payload is four octets. -/
def requestedAddress (area : OptionArea) : Option Ipv4 :=
  (area.get? OptionCode.requestedAddress.toUInt8).bind OptionField.address?

/-- A text without the NUL characters at its end. -/
def trimNuls (text : List Char) : List Char :=
  (text.reverse.dropWhile fun c => c == '\x00').reverse

/-- The text of the first host name option without trailing NULs, when any is left. -/
def hostname (area : OptionArea) : Option String :=
  match area.get? OptionCode.hostname.toUInt8 with
  | none => none
  | some field =>
    match trimNuls (Utf8.decodeLossy field.data) with
    | [] => none
    | name => some (String.ofList name)

end OptionArea

end Dhcp
