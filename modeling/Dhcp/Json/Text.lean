import Dhcp.Json.Reader
import Dhcp.Wire.Utf8

/-!
JSON strings. A string that counts is decoded, and then its escapes must name
characters: a code unit of the upper surrogate range must be followed by one of
the lower range. A string that is passed over needs well formed escapes only.
Strings are taken from behind their opening quote, escapes from behind their
backslash.
-/
namespace Dhcp.Json

def hexValue? (c : Char) : Option Nat :=
  if '0' ≤ c ∧ c ≤ '9' then some (c.toNat - '0'.toNat)
  else if 'a' ≤ c ∧ c ≤ 'f' then some (c.toNat - 'a'.toNat + 10)
  else if 'A' ≤ c ∧ c ≤ 'F' then some (c.toNat - 'A'.toNat + 10)
  else none

/-- The code unit of four hexadecimal digits. A text with fewer than four octets
left is truncated whatever they are. -/
def codeUnit : (s : List Char) → Except Fault (Taken s Nat)
  | a :: b :: c :: d :: rest =>
    match hexValue? a, hexValue? b, hexValue? c, hexValue? d with
    | some w, some x, some y, some z =>
      let unit := Taken.one d rest (((w * 16 + x) * 16 + y) * 16 + z)
      .ok (((unit.behind c).behind b).behind a)
    | _, _, _, _ => .error .malformed
  | s => if (Utf8.encode s).length < 4 then .error .truncated else .error .malformed

def simpleEscape? (c : Char) : Option Char :=
  match c with
  | '"' => some '"'
  | '\\' => some '\\'
  | '/' => some '/'
  | 'b' => some '\x08'
  | 'f' => some '\x0c'
  | 'n' => some '\n'
  | 'r' => some '\r'
  | 't' => some '\t'
  | _ => none

/-- The lower half of a surrogate pair, spelled with its own backslash. -/
def lowerSurrogate : (s : List Char) → Except Fault (Taken s Nat)
  | [] => .error .truncated
  | '\\' :: rest =>
    match rest with
    | [] => .error .truncated
    | 'u' :: tail =>
      match codeUnit tail with
      | .error fault => .error fault
      | .ok lower =>
        if 0xDC00 ≤ lower.value ∧ lower.value ≤ 0xDFFF then .ok ((lower.behind 'u').behind '\\')
        else .error .malformed
    | _ => .error .malformed
  | _ => .error .malformed

/-- The character of a code unit outside the surrogate ranges, or of a surrogate
pair whose second half is spelled behind it. -/
def unicodeEscape (s : List Char) : Except Fault (Taken s Char) :=
  match codeUnit s with
  | .error fault => .error fault
  | .ok upper =>
    if upper.value < 0xD800 ∨ 0xDFFF < upper.value then .ok (upper.map Char.ofNat)
    else if 0xDC00 ≤ upper.value then .error .malformed
    else (lowerSurrogate upper.rest).map fun lower =>
      (upper.andThen lower).map fun half =>
        Char.ofNat (0x10000 + (upper.value - 0xD800) * 0x400 + (half - 0xDC00))

def escape : (s : List Char) → Except Fault (Taken s Char)
  | [] => .error .truncated
  | c :: rest =>
    match simpleEscape? c with
    | some plain => .ok (.one c rest plain)
    | none =>
      if c = 'u' then (unicodeEscape rest).map fun character => character.behind c
      else .error .malformed

def readString : (s : List Char) → Except Fault (Taken s (List Char))
  | [] => .error .truncated
  | c :: rest =>
    if c = '"' then .ok (.one c rest [])
    else if c = '\\' then
      match escape rest with
      | .error fault => .error fault
      | .ok character =>
        (readString character.rest).map fun text =>
          ((character.andThen text).map fun t => character.value :: t).behind c
    else if c < ' ' then .error .malformed
    else (readString rest).map fun text => (text.map fun t => c :: t).behind c
termination_by s => s.length
decreasing_by
  · exact character.shorter_cons c
  · exact Nat.lt_succ_self _

def skipEscape : (s : List Char) → Except Fault (Taken s Unit)
  | [] => .error .truncated
  | c :: rest =>
    if (simpleEscape? c).isSome then .ok (.one c rest ())
    else if c = 'u' then (codeUnit rest).map fun unit => (unit.map fun _ => ()).behind c
    else .error .malformed

def skipString : (s : List Char) → Except Fault (Taken s Unit)
  | [] => .error .truncated
  | c :: rest =>
    if c = '"' then .ok (.one c rest ())
    else if c = '\\' then
      match skipEscape rest with
      | .error fault => .error fault
      | .ok passed =>
        (skipString passed.rest).map fun text => (passed.andThen text).behind c
    else if c < ' ' then .error .malformed
    else (skipString rest).map fun text => text.behind c
termination_by s => s.length
decreasing_by
  · exact passed.shorter_cons c
  · exact Nat.lt_succ_self _

end Dhcp.Json
