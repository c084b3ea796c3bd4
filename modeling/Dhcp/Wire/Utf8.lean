/-!
Text in octets. One step takes a character off the front of a nonempty string of
octets, or finds that the octets there cannot begin one; in that case it passes
over the longest stretch that a longer text could have continued, and over one
octet at least. Strict decoding refuses such a stretch and lenient decoding puts
one replacement character in its place.
-/
namespace Dhcp.Utf8

/-- What the first octet of a character settles: the payload bits it carries, the
range of the second octet, and how many octets follow the second. -/
structure Lead where
  payload : Nat
  low : UInt8
  high : UInt8
  more : Nat

/-- The octets from C2 to F4 begin characters of two to four octets. The narrow
ranges leave out spellings that are too long, surrogates, and numbers past 10FFFF. -/
def lead? (b : UInt8) : Option Lead :=
  if b < 0xC2 then none
  else if b < 0xE0 then some ⟨b.toNat - 0xC0, 0x80, 0xBF, 0⟩
  else if b < 0xF0 then
    some ⟨b.toNat - 0xE0, if b = 0xE0 then 0xA0 else 0x80, if b = 0xED then 0x9F else 0xBF, 1⟩
  else if b < 0xF5 then
    some ⟨b.toNat - 0xF0, if b = 0xF0 then 0x90 else 0x80, if b = 0xF4 then 0x8F else 0xBF, 2⟩
  else none

/-- Takes `more` continuation octets after the number read so far. -/
def continuation : Nat → Nat → List UInt8 → Option Char × List UInt8
  | 0, number, bytes => (some (Char.ofNat number), bytes)
  | _ + 1, _, [] => (none, [])
  | more + 1, number, b :: rest =>
    if 0x80 ≤ b ∧ b ≤ 0xBF then continuation more (number * 64 + (b.toNat - 0x80)) rest
    else (none, b :: rest)

/-- Takes one character, or one stretch that is none, off `first :: rest`. -/
def step (first : UInt8) (rest : List UInt8) : Option Char × List UInt8 :=
  if first < 0x80 then (some (Char.ofNat first.toNat), rest)
  else match lead? first, rest with
    | some lead, b :: tail =>
      if lead.low ≤ b ∧ b ≤ lead.high then
        continuation lead.more (lead.payload * 64 + (b.toNat - 0x80)) tail
      else (none, rest)
    | _, _ => (none, rest)

theorem length_continuation_le (more number : Nat) (bytes : List UInt8) :
    (continuation more number bytes).2.length ≤ bytes.length := by
  induction more generalizing number bytes with
  | zero => simp [continuation]
  | succ more ih =>
    cases bytes with
    | nil => simp [continuation]
    | cons b rest =>
      simp only [continuation]
      split
      · have := ih (number * 64 + (b.toNat - 0x80)) rest
        simp only [List.length_cons]
        omega
      · exact Nat.le_refl _

theorem length_step_le (first : UInt8) (rest : List UInt8) :
    (step first rest).2.length ≤ rest.length := by
  unfold step
  split
  · exact Nat.le_refl _
  · split
    · next b tail _ =>
      split
      · refine Nat.le_trans (length_continuation_le _ _ tail) ?_
        simp
      · exact Nat.le_refl _
    · exact Nat.le_refl _

/-- The characters of a text, with `none` for each stretch that is no character. -/
def scan : List UInt8 → List (Option Char)
  | [] => []
  | first :: rest => (step first rest).1 :: scan (step first rest).2
termination_by bytes => bytes.length
decreasing_by
  have := length_step_le first rest
  simp only [List.length_cons]
  omega

/-- The text when every octet belongs to a character. -/
def decode? (bytes : List UInt8) : Option (List Char) := (scan bytes).mapM id

/-- The text with U+FFFD for each stretch that is no character. -/
def decodeLossy (bytes : List UInt8) : List Char :=
  (scan bytes).map fun c => c.getD '\uFFFD'

def encode (text : List Char) : List UInt8 := text.flatMap String.utf8EncodeChar

end Dhcp.Utf8
