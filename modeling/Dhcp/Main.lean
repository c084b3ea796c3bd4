import Dhcp.Command

/-!
The command line. It looks for the configuration file, makes it where it is
missing, and writes out what the command leaves behind.
-/
namespace Dhcp.Main

/-- What is found at a path. -/
def find (path : String) : IO ConfigFile := do
  try
    return .content (← IO.FS.readBinFile path).toList
  catch
    | .noFileOrDirectory .. => return .absent
    | _ => return .unreadable

/-- Makes a missing file, as far as that can be done. -/
def create (path : String) (file : ConfigFile) : IO ConfigFile := do
  match file, file.afterLoad with
  | .absent, .content bytes =>
    try
      IO.FS.writeBinFile path bytes.toByteArray
      return .absent
    catch _ => return .unwritable
  | file, _ => return file

end Dhcp.Main

def main (arguments : List String) : IO UInt32 := do
  match Dhcp.Command.parse arguments with
  | none =>
    (← IO.getStderr).putStr Dhcp.Command.usage
    return 2
  | some (.showConfig path) =>
    let file ← Dhcp.Main.create path (← Dhcp.Main.find path)
    let outcome := Dhcp.Command.showConfig file
    (← IO.getStdout).putStr outcome.output
    (← IO.getStderr).putStr outcome.errorOutput
    return outcome.exitCode
