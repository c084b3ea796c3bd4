import Dhcp.Text.Unprintable

/-!
Text in double quotes for a report. Quotes, backslashes and the common controls
have escapes of two characters; whatever else has no glyph of its own is given by
its number in hexadecimal.
-/
namespace Dhcp.Text

def quotedChar (c : Char) : List Char :=
  match c with
  | '\x00' => ['\\', '0']
  | '\t' => ['\\', 't']
  | '\r' => ['\\', 'r']
  | '\n' => ['\\', 'n']
  | '"' => ['\\', '"']
  | '\\' => ['\\', '\\']
  | c =>
    if isUnprintable c then
      ['\\', 'u', '\x7b'] ++ Nat.toDigits 16 c.toNat ++ ['\x7d']
    else [c]

def quoted (text : List Char) : List Char := ['"'] ++ text.flatMap quotedChar ++ ['"']

end Dhcp.Text
