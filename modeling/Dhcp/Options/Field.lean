import Dhcp.Address.Ipv4
import Dhcp.Options.Code

/-!
A single option: a code and a payload that one octet can measure. The octets 0
and 255 stand between options and are the code of none.
-/
namespace Dhcp

/-- An option as it stands in a datagram. -/
structure OptionField where
  code : UInt8
  data : List UInt8
  code_ne_pad : code ≠ OptionCode.pad.toUInt8
  code_ne_end : code ≠ OptionCode.endOfOptions.toUInt8
  length_le : data.length ≤ 255
  deriving DecidableEq

inductive OptionFault
  | reservedCode (code : UInt8)
  | tooLong (code : UInt8) (length : Nat)
  deriving DecidableEq

def OptionFault.message : OptionFault → String
  | reservedCode code => "Option code " ++ toString code.toNat ++ " is reserved"
  | tooLong code length =>
    "Option " ++ toString code.toNat ++ " payload of " ++ toString length ++ " bytes exceeds 255"

namespace OptionField

/-- The option of a named code that may begin one. -/
def named (code : OptionCode) (data : List UInt8) (h : data.length ≤ 255)
    (pad : code ≠ .pad := by decide) (last : code ≠ .endOfOptions := by decide) : OptionField where
  code := code.toUInt8
  data := data
  code_ne_pad := mt OptionCode.toUInt8_inj.mp pad
  code_ne_end := mt OptionCode.toUInt8_inj.mp last
  length_le := h

/-- The option of a code and a payload. A reserved code is reported before a long payload. -/
def create (code : UInt8) (data : List UInt8) : Except OptionFault OptionField :=
  if reserved : code = OptionCode.pad.toUInt8 ∨ code = OptionCode.endOfOptions.toUInt8 then
    .error (.reservedCode code)
  else if length_le : data.length ≤ 255 then
    .ok ⟨code, data, fun h => reserved (.inl h), fun h => reserved (.inr h), length_le⟩
  else .error (.tooLong code data.length)

theorem create_eq_ok {code : UInt8} {data : List UInt8} (pad : code ≠ OptionCode.pad.toUInt8)
    (last : code ≠ OptionCode.endOfOptions.toUInt8) (h : data.length ≤ 255) :
    create code data = .ok ⟨code, data, pad, last, h⟩ := by
  rw [create, dif_neg (not_or.mpr ⟨pad, last⟩), dif_pos h]

theorem create_eq_tooLong {code : UInt8} {data : List UInt8} (pad : code ≠ OptionCode.pad.toUInt8)
    (last : code ≠ OptionCode.endOfOptions.toUInt8) (h : 255 < data.length) :
    create code data = .error (.tooLong code data.length) := by
  rw [create, dif_neg (not_or.mpr ⟨pad, last⟩), dif_neg (Nat.not_le.mpr h)]

/-- The octet that measures the payload. -/
def length (field : OptionField) : UInt8 := UInt8.ofNat field.data.length

theorem toNat_length (field : OptionField) : field.length.toNat = field.data.length := by
  have := field.length_le
  rw [length, UInt8.toNat_ofNat']
  omega

/-- A payload of four octets read as an address. -/
def address? (field : OptionField) : Option Ipv4 :=
  (Octets.ofList? 4 field.data).map Ipv4.ofOctets

/-- The option in order of transmission: code, length, payload. -/
def encode (field : OptionField) : List UInt8 := field.code :: field.length :: field.data

end OptionField

/-- A list of addresses as the payload of one option. -/
def encodeAddresses (addresses : List Ipv4) : List UInt8 :=
  addresses.flatMap fun a => a.octets.toList

theorem length_encodeAddresses (addresses : List Ipv4) :
    (encodeAddresses addresses).length = 4 * addresses.length := by
  induction addresses with
  | nil => rfl
  | cons a rest ih =>
    rw [encodeAddresses, List.flatMap_cons, List.length_append, a.octets.length_toList,
      ← encodeAddresses, ih, List.length_cons]
    omega

end Dhcp
