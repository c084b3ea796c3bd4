import Dhcp.Json.Number
import Dhcp.Json.Text

/-!
Passing over a JSON value of any nesting. The lists and objects that are still
open form a stack, and one step consumes a token and says what must come next, so
the depth of a text costs no more than its length.
-/
namespace Dhcp.Json

inductive Frame
  | list
  | object
  deriving DecidableEq

/-- What must come next inside the innermost open frame. -/
inductive Expect
  | value
  | key
  | colon
  /-- The first entry of a frame just opened, or its end. -/
  | opened
  | after
  deriving DecidableEq

namespace Frame

def close : Frame → Char
  | list => ']'
  | object => '}'

def entry : Frame → Expect
  | list => .value
  | object => .key

theorem entry_ne_opened (frame : Frame) : frame.entry ≠ .opened := by
  cases frame <;> simp [entry]

theorem entry_ne_after (frame : Frame) : frame.entry ≠ .after := by
  cases frame <;> simp [entry]

end Frame

def skipScalar (c : Char) (rest : List Char) : Except Fault (Taken (c :: rest) Unit) :=
  if c = '"' then (skipString rest).map fun text => text.behind c
  else if c = '-' ∨ c.isDigit then skipNumber (c :: rest)
  else if c = 'n' then (literal ['u', 'l', 'l'] rest).map fun word => word.behind c
  else if c = 't' then (literal ['r', 'u', 'e'] rest).map fun word => word.behind c
  else if c = 'f' then (literal ['a', 'l', 's', 'e'] rest).map fun word => word.behind c
  else .error .malformed

/-- Passes over the tokens that `expect` and the open frames ask for, and returns
the text behind the value that the outermost frame belongs to. -/
def skipFrom (expect : Expect) (frames : List Frame) (s : List Char) : Except Fault (List Char) :=
  match expect, frames, s with
  | .after, [], s => .ok s
  | _, _, [] => .error .truncated
  | expect, frames, c :: rest =>
    if isBlank c then skipFrom expect frames rest
    else match expect, frames with
      | .opened, frame :: outer =>
        if c = frame.close then skipFrom .after outer rest
        else skipFrom frame.entry (frame :: outer) (c :: rest)
      | .after, frame :: outer =>
        if c = ',' then skipFrom frame.entry (frame :: outer) rest
        else if c = frame.close then skipFrom .after outer rest
        else .error .malformed
      | .key, frames =>
        if c = '"' then
          match skipString rest with
          | .ok t => skipFrom .colon frames t.rest
          | .error fault => .error fault
        else .error .malformed
      | .colon, frames => if c = ':' then skipFrom .value frames rest else .error .malformed
      | _, frames =>
        if c = '[' then skipFrom .opened (.list :: frames) rest
        else if c = '{' then skipFrom .opened (.object :: frames) rest
        else
          match skipScalar c rest with
          | .ok t => skipFrom .after frames t.rest
          | .error fault => .error fault
termination_by 2 * s.length + if expect = .opened then 1 else 0
decreasing_by
  all_goals
    simp only [List.length_cons, Frame.entry_ne_opened, if_true, if_false]
    grind

/-- Nothing is put back, and whatever must come next is taken, except where a
value may be all there is. -/
theorem length_skipFrom {expect : Expect} {frames : List Frame} {s r : List Char}
    (h : skipFrom expect frames s = .ok r) :
    r.length ≤ s.length ∧ (expect ≠ .after → r.length < s.length) := by
  fun_induction skipFrom expect frames s <;> grind [Frame.entry_ne_after]

def skipValue (s : List Char) : Except Fault (Taken s Unit) :=
  match h : skipFrom .value [] s with
  | .ok rest => .ok ⟨(), rest, (length_skipFrom h).2 (by decide)⟩
  | .error fault => .error fault

end Dhcp.Json
