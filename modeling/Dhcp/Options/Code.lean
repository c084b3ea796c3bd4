/-!
The option codes that this server names. Every other code is carried as a bare
number.
-/
namespace Dhcp

/-- Pad and end are single octets between options; the others begin an option. -/
inductive OptionCode
  | pad
  | subnetMask
  | router
  | dnsServer
  | hostname
  | requestedAddress
  | leaseTime
  | messageType
  | serverIdentifier
  | endOfOptions
  deriving DecidableEq

namespace OptionCode

def toUInt8 : OptionCode → UInt8
  | pad => 0
  | subnetMask => 1
  | router => 3
  | dnsServer => 6
  | hostname => 12
  | requestedAddress => 50
  | leaseTime => 51
  | messageType => 53
  | serverIdentifier => 54
  | endOfOptions => 255

def all : List OptionCode :=
  [pad, subnetMask, router, dnsServer, hostname, requestedAddress, leaseTime, messageType,
    serverIdentifier, endOfOptions]

def ofUInt8? (value : UInt8) : Option OptionCode := all.find? fun code => code.toUInt8 == value

theorem ofUInt8?_toUInt8 (code : OptionCode) : ofUInt8? code.toUInt8 = some code := by
  cases code <;> rfl

theorem toUInt8_of_ofUInt8? {value : UInt8} {code : OptionCode} (h : ofUInt8? value = some code) :
    code.toUInt8 = value := by
  simpa using List.find?_some h

theorem toUInt8_inj {code other : OptionCode} : code.toUInt8 = other.toUInt8 ↔ code = other := by
  constructor
  · intro h
    have hsome := ofUInt8?_toUInt8 code
    rw [h, ofUInt8?_toUInt8] at hsome
    exact (Option.some.inj hsome).symm
  · rintro rfl
    rfl

end OptionCode

end Dhcp
