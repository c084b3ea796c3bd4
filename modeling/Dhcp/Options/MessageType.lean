/-!
The message types a datagram can carry. The server acts on two of them; the
others are named so that they can be reported.
-/
namespace Dhcp

inductive MessageType
  | discover
  | offer
  | request
  | decline
  | ack
  | nak
  | release
  | inform
  deriving DecidableEq

namespace MessageType

def toUInt8 : MessageType → UInt8
  | discover => 1
  | offer => 2
  | request => 3
  | decline => 4
  | ack => 5
  | nak => 6
  | release => 7
  | inform => 8

def all : List MessageType :=
  [discover, offer, request, decline, ack, nak, release, inform]

def ofUInt8? (value : UInt8) : Option MessageType := all.find? fun type => type.toUInt8 == value

/-- The name used in reports. -/
def text : MessageType → String
  | discover => "DHCPDISCOVER"
  | offer => "DHCPOFFER"
  | request => "DHCPREQUEST"
  | decline => "DHCPDECLINE"
  | ack => "DHCPACK"
  | nak => "DHCPNAK"
  | release => "DHCPRELEASE"
  | inform => "DHCPINFORM"

instance : ToString MessageType := ⟨text⟩

theorem ofUInt8?_toUInt8 (type : MessageType) : ofUInt8? type.toUInt8 = some type := by
  cases type <;> rfl

theorem toUInt8_of_ofUInt8? {value : UInt8} {type : MessageType}
    (h : ofUInt8? value = some type) : type.toUInt8 = value := by
  simpa using List.find?_some h

theorem ofUInt8?_eq_some_iff {value : UInt8} {type : MessageType} :
    ofUInt8? value = some type ↔ value = type.toUInt8 := by
  constructor
  · intro h
    exact (toUInt8_of_ofUInt8? h).symm
  · rintro rfl
    exact ofUInt8?_toUInt8 type

end MessageType

end Dhcp
