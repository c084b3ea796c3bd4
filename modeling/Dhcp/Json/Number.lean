import Dhcp.Json.Reader

/-!
JSON numbers. Scanning separates the parts of a number and reading gives it a
value: an integer that fits 64 bits, or a mere floating point number. A number
whose nearest binary floating point number would be infinite is malformed. What a
reader does about missing digits is given by `missing`: in a number that counts
they are a fault of their own kind where the text stops, in one that is passed
over they are not.
-/
namespace Dhcp.Json

/-- The spelling of a number. The power of ten has a sign of its own. -/
structure Numeral where
  negative : Bool
  whole : List Char
  fraction : List Char
  exponent : Option (Bool × List Char)
  deriving DecidableEq

/-- The value of a number. A floating point number is known by its spelling. -/
inductive Number
  | integer (value : Int)
  | floating (numeral : Numeral)
  deriving DecidableEq

def missingDigits (rest : List Char) : Fault :=
  if rest.isEmpty then .truncated else .malformed

def digits (missing : List Char → Fault) : (s : List Char) → Except Fault (Taken s (List Char))
  | [] => .error (missing [])
  | c :: rest =>
    if c.isDigit then
      let more : Rest rest (List Char) :=
        ⟨c :: rest.takeWhile Char.isDigit, rest.dropWhile Char.isDigit,
          length_dropWhile_le Char.isDigit rest⟩
      .ok (more.behind c)
    else .error (missing (c :: rest))

def exponent (missing : List Char → Fault) : (s : List Char) →
    Except Fault (Taken s (Bool × List Char))
  | '+' :: rest => (digits missing rest).map fun ds => (ds.map fun t => (false, t)).behind '+'
  | '-' :: rest => (digits missing rest).map fun ds => (ds.map fun t => (true, t)).behind '-'
  | s => (digits missing s).map fun ds => ds.map fun t => (false, t)

def exponent? (missing : List Char → Fault) : (s : List Char) →
    Except Fault (Rest s (Option (Bool × List Char)))
  | [] => .ok (.whole [] none)
  | c :: rest =>
    if c = 'e' ∨ c = 'E' then
      (exponent missing rest).map fun power => ((power.map some).behind c).toRest
    else .ok (.whole (c :: rest) none)

def fraction? (missing : List Char → Fault) : (s : List Char) →
    Except Fault (Rest s (List Char))
  | [] => .ok (.whole [] [])
  | c :: rest =>
    if c = '.' then (digits missing rest).map fun ds => (ds.behind c).toRest
    else .ok (.whole (c :: rest) [])

/-- The parts of a number without its sign. A leading zero stands alone. -/
def unsigned (missing : List Char → Fault) (negative : Bool) (s : List Char) :
    Except Fault (Taken s Numeral) :=
  match digits missing s with
  | .error fault => .error fault
  | .ok whole =>
    if whole.value.head? = some '0' ∧ whole.value.length ≠ 1 then .error .malformed
    else match fraction? missing whole.rest with
      | .error fault => .error fault
      | .ok fraction =>
        let front := whole.andPerhaps fraction
        (exponent? missing front.rest).map fun power =>
          (front.andPerhaps power).map fun exponent =>
            ⟨negative, whole.value, fraction.value, exponent⟩

def numeral (missing : List Char → Fault) : (s : List Char) → Except Fault (Taken s Numeral)
  | '-' :: rest => (unsigned missing true rest).map fun n => n.behind '-'
  | s => unsigned missing false s

/-- Adds digits to the significand `m` while it stays below `2 ^ 64`, and counts the
digits left over from the first that does not fit. -/
def significand (m : Nat) : List Char → Nat × Nat
  | [] => (m, 0)
  | c :: rest =>
    if m * 10 + (c.toNat - '0'.toNat) < UInt64.size then
      significand (m * 10 + (c.toNat - '0'.toNat)) rest
    else (m, rest.length + 1)

/-- The number of 53 significant bits nearest to `n`, the even one of two. -/
def round53 (n : Nat) : Nat :=
  if n < Nat.pow 2 53 then n
  else
    let unit := Nat.pow 2 (n.log2 - 52)
    let rest := n % unit
    if unit < 2 * rest ∨ 2 * rest = unit ∧ n / unit % 2 = 1 then (n / unit + 1) * unit
    else n / unit * unit

/-- Whether `m * 10 ^ power` is too large for a binary floating point number: the
factors are rounded to 53 bits and their product rounds to infinity. -/
def isInfinite (m : Nat) (power : Int) : Bool :=
  m ≠ 0 && 0 ≤ power &&
    (308 < power ||
      Nat.pow 2 1024 - Nat.pow 2 970 ≤ round53 m * round53 (Nat.pow 10 power.toNat))

namespace Numeral

def power (n : Numeral) : Int :=
  match n.exponent with
  | none => 0
  | some (negative, ds) =>
    if negative then - (Nat.ofDigitChars 10 ds 0 : Int) else Nat.ofDigitChars 10 ds 0

/-- The value of a whole number with the significand `m`. Negative zero and what lies
below the signed range are floating. -/
def wholeNumber (n : Numeral) (m : Nat) : Number :=
  if n.negative then
    if m = 0 ∨ UInt64.size / 2 < m then .floating n else .integer (-(m : Int))
  else .integer m

/-- The value of a number, unless it is out of range. Every number with a point, a
power of ten or more than 64 bits is floating. -/
def value? (n : Numeral) : Option Number :=
  let (m, left) := significand 0 n.whole
  if left = 0 ∧ n.fraction = [] ∧ n.exponent = none then some (n.wholeNumber m)
  else
    let (m, cut) := significand m n.fraction
    let shift : Int := left - (n.fraction.length - cut : Nat)
    if isInfinite m (shift + n.power) then none else some (.floating n)

end Numeral

def readNumber (s : List Char) : Except Fault (Taken s Number) :=
  match numeral missingDigits s with
  | .error fault => .error fault
  | .ok n =>
    match n.value.value? with
    | some number => .ok (n.map fun _ => number)
    | none => .error .malformed

def skipNumber (s : List Char) : Except Fault (Taken s Unit) :=
  (numeral (fun _ => .malformed) s).map fun n => n.map fun _ => ()

end Dhcp.Json
