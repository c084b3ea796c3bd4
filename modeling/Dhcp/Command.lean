import Dhcp.Config.File

/-!
The command that shows the configuration in effect, with the number of addresses
and the broadcast address that follow from it.
-/
namespace Dhcp.Command

structure Outcome where
  exitCode : UInt32
  output : String
  errorOutput : String
  deriving DecidableEq

/-- What the command line asks for. -/
inductive Action
  | showConfig (path : String)
  deriving DecidableEq

def defaultPath : String := "config.json"

/-- What the arguments ask for, when they make sense. -/
def parse : List String → Option Action
  | ["show-config"] => some (.showConfig defaultPath)
  | ["--config", path, "show-config"] | ["-c", path, "show-config"] => some (.showConfig path)
  | _ => none

def usage : String := "usage: [--config PATH] show-config\n"

/-- What a command says last that has no configuration. Of a file that could not be
read only the kind of fault is told here: the words of the system or of the JSON
reader stand behind it, in parentheses. -/
def report : LoadFault → String
  | .io => "Error: Io"
  | .read _ => "Error: Json"
  | .config fault =>
    "Error: InvalidConfig(" ++ String.ofList (Text.quoted fault.reason.toList) ++ ")\n"

def showConfig (file : ConfigFile) : Outcome :=
  match file.load with
  | .error fault => ⟨1, "", report fault⟩
  | .ok config =>
    let shown := String.ofList config.text ++ "\n\n"
    match config.poolSize with
    | .error fault => ⟨101, shown, fault.message ++ "\n"⟩
    | .ok size =>
      ⟨0, shown ++ "Pool size: " ++ toString size ++ " addresses\nBroadcast: " ++
        toString config.broadcast ++ "\n", ""⟩

end Dhcp.Command
