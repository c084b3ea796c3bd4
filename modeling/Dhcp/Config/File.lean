import Dhcp.Config.Reading
import Dhcp.Config.Rules
import Dhcp.Config.Text

/-!
The file that holds a configuration. A file that is not there is made with the
standard configuration; a file that is there has to hold one that meets the rules.
-/
namespace Dhcp

/-- What is found where the file should be. A file that is absent can be made; where that
cannot be done the place is unwritable. What is no file is unreadable. -/
inductive ConfigFile
  | absent
  | unwritable
  | unreadable
  | content (bytes : List UInt8)
  deriving DecidableEq

inductive LoadFault
  | io
  | read (fault : Config.ReadFault)
  | config (fault : ConfigFault)
  deriving DecidableEq

namespace ConfigFile

def ofText (text : List Char) : ConfigFile := .content (Utf8.encode text)

/-- The configuration that a file holds or is made with. -/
def load : ConfigFile → Except LoadFault Config
  | absent => .ok Config.standard
  | unwritable | unreadable => .error .io
  | content bytes =>
    match Utf8.decode? bytes with
    | none => .error .io
    | some text =>
      match Config.parse text with
      | .error fault => .error (.read fault)
      | .ok config => config.validate.mapError .config

def afterLoad : ConfigFile → ConfigFile
  | absent => ofText Config.standard.text
  | file => file

def text? : ConfigFile → Option (List Char)
  | content bytes => Utf8.decode? bytes
  | _ => none

end ConfigFile

end Dhcp
