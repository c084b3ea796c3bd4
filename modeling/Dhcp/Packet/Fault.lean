/-!
The reasons for which received octets are no datagram of this protocol.
-/
namespace Dhcp

inductive PacketFault
  | tooShort (size : Nat)
  | hardwareType (type : UInt8)
  | hardwareLength (length : UInt8)
  | wrongCookie
  | lengthMissing (code : UInt8)
  /-- An option of `wanted` octets of which only `remaining` are there. -/
  | payloadCut (code : UInt8) (wanted : UInt8) (remaining : Nat)
  deriving DecidableEq

namespace PacketFault

def reason : PacketFault → String
  | tooShort size => "Packet too short: " ++ toString size ++ " bytes (minimum 240)"
  | hardwareType type =>
    "Only type 1 (ethernet) supported, not " ++ toString type.toNat
  | hardwareLength length =>
    "Only 6 byte hardware addresses supported, not " ++ toString length.toNat
  | wrongCookie => "Invalid magic cookie"
  | lengthMissing code => "Option " ++ toString code.toNat ++ " length missing"
  | payloadCut code wanted remaining =>
    "Option " ++ toString code.toNat ++ " wants " ++ toString wanted.toNat ++ " bytes, " ++
      toString remaining ++ " remain"

def message (fault : PacketFault) : String := "Invalid DHCP packet: " ++ fault.reason

end PacketFault

end Dhcp
