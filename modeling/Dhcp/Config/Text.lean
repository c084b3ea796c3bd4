import Dhcp.Config.Member

/-!
The text of a configuration: a JSON object of all eight members in their order,
one to a line, with two spaces for each level. An empty list takes no lines.
-/
namespace Dhcp.Config

/-- The spaces before a line inside `depth` brackets. -/
def indentation (depth : Nat) : List Char := List.replicate (2 * depth) ' '

/-- Entries between brackets, each on a line of its own. -/
def block (opening closing : Char) (depth : Nat) (entries : List (List Char)) : List Char :=
  if entries = [] then [opening, closing]
  else
    [opening, '\n'] ++
      List.intercalate [',', '\n'] (entries.map fun entry => indentation (depth + 1) ++ entry) ++
      ['\n'] ++ indentation depth ++ [closing]

/-- A text without quotes and backslashes between quotes. -/
def stringText (text : List Char) : List Char := ['"'] ++ text ++ ['"']

def addressText (a : Ipv4) : List Char := stringText a.text

def addressesText (addresses : List Ipv4) : List Char :=
  block '[' ']' 1 (addresses.map addressText)

def memberText (config : Config) : Member → List Char
  | .serverAddress => addressText config.serverAddress
  | .subnetMask => addressText config.subnetMask
  | .poolStart => addressText config.poolStart
  | .poolEnd => addressText config.poolEnd
  | .routers => addressesText config.routers
  | .dnsServers => addressesText config.dnsServers
  | .leaseSeconds => Nat.toDigits 10 config.leaseSeconds.toNat
  | .broadcastAddress =>
    match config.broadcastAddress with
    | some a => addressText a
    | none => ['n', 'u', 'l', 'l']

/-- A configuration as it is saved. -/
def text (config : Config) : List Char :=
  block '{' '}' 0 (Member.all.map fun m =>
    stringText m.name.toList ++ [':', ' '] ++ config.memberText m)

end Dhcp.Config
