/-!
Reading JSON text from the front. A reader returns a value and the rest of the
text, which is shorter than the text it was given; repeated reading therefore
ends. The two ways in which a text is not JSON are kept apart: it may stop too
early, or it may go on with a character that no JSON text has there.
-/
namespace Dhcp.Json

inductive Fault
  | truncated
  | malformed
  deriving DecidableEq

/-- A value taken off the front of `s` and the rest behind it. -/
structure Taken (s : List Char) (α : Type) where
  value : α
  rest : List Char
  shorter : rest.length < s.length

grind_pattern Taken.shorter => self.rest.length

/-- A value for which nothing need be taken off the front of `s`, and the rest. -/
structure Rest (s : List Char) (α : Type) where
  value : α
  rest : List Char
  notLonger : rest.length ≤ s.length

namespace Rest

variable {s : List Char} {α : Type}

def whole (s : List Char) (value : α) : Rest s α := ⟨value, s, Nat.le_refl _⟩

def behind (c : Char) (r : Rest s α) : Taken (c :: s) α :=
  ⟨r.value, r.rest, Nat.lt_succ_of_le r.notLonger⟩

end Rest

namespace Taken

variable {s t : List Char} {α β : Type}

def one (c : Char) (rest : List Char) (value : α) : Taken (c :: rest) α :=
  ⟨value, rest, Nat.lt_succ_self _⟩

def map (f : α → β) (taken : Taken s α) : Taken s β := ⟨f taken.value, taken.rest, taken.shorter⟩

def behind (c : Char) (taken : Taken s α) : Taken (c :: s) α :=
  ⟨taken.value, taken.rest, Nat.lt_succ_of_lt taken.shorter⟩

/-- The same off a text that is at least as long. -/
def within (taken : Taken s α) (h : s.length ≤ t.length) : Taken t α :=
  ⟨taken.value, taken.rest, Nat.lt_of_lt_of_le taken.shorter h⟩

/-- What is taken off the rest, taken off the whole. -/
def andThen (taken : Taken s α) (next : Taken taken.rest β) : Taken s β :=
  ⟨next.value, next.rest, Nat.lt_trans next.shorter taken.shorter⟩

def andPerhaps (taken : Taken s α) (next : Rest taken.rest β) : Taken s β :=
  ⟨next.value, next.rest, Nat.lt_of_le_of_lt next.notLonger taken.shorter⟩

def toRest (taken : Taken s α) : Rest s α := ⟨taken.value, taken.rest, Nat.le_of_lt taken.shorter⟩

theorem shorter_cons (taken : Taken s α) (c : Char) : taken.rest.length < (c :: s).length :=
  Nat.lt_succ_of_lt taken.shorter

end Taken

/-- Space, line feed, tabulator and carriage return may stand between tokens. -/
def isBlank (c : Char) : Bool := c == ' ' || c == '\n' || c == '\t' || c == '\r'

theorem length_dropWhile_le {α : Type} (p : α → Bool) (l : List α) :
    (l.dropWhile p).length ≤ l.length :=
  (List.dropWhile_suffix p).length_le

/-- The text from its first character that is not blank. -/
def skipBlank (s : List Char) : { r : List Char // r.length ≤ s.length } :=
  ⟨s.dropWhile isBlank, length_dropWhile_le isBlank s⟩

def literal : List Char → (s : List Char) → Except Fault (Rest s Unit)
  | [], s => .ok (.whole s ())
  | _ :: _, [] => .error .truncated
  | expected :: word, c :: rest =>
    if c = expected then (literal word rest).map fun r => (r.behind c).toRest
    else .error .malformed

def colon (s : List Char) : Except Fault (Taken s Unit) :=
  match skipBlank s with
  | ⟨[], _⟩ => .error .truncated
  | ⟨c :: rest, h⟩ => if c = ':' then .ok ⟨(), rest, h⟩ else .error .malformed

/-- Where a reader stands inside a list or an object. -/
inductive Next (s : List Char)
  | closed (rest : List Char) (shorter : rest.length < s.length)
  | entry (first : Char) (rest : List Char) (notLonger : (first :: rest).length ≤ s.length)

def Next.within {s t : List Char} (h : s.length ≤ t.length) : Next s → Next t
  | closed rest shorter => .closed rest (Nat.lt_of_lt_of_le shorter h)
  | entry first rest notLonger => .entry first rest (Nat.le_trans notLonger h)

/-- The entry behind a comma. The closing bracket may not stand there. -/
def entryBehindComma (close : Char) (s : List Char) : Except Fault (Next s) :=
  match skipBlank s with
  | ⟨[], _⟩ => .error .truncated
  | ⟨c :: rest, h⟩ => if c = close then .error .malformed else .ok (.entry c rest h)

/-- Takes the closing bracket, or the comma that all entries but the first need
before them. -/
def next (close : Char) (first : Bool) (s : List Char) : Except Fault (Next s) :=
  match skipBlank s with
  | ⟨[], _⟩ => .error .truncated
  | ⟨c :: rest, h⟩ =>
    if c = close then .ok (.closed rest h)
    else if first then .ok (.entry c rest h)
    else if c = ',' then
      (entryBehindComma close rest).map fun n => n.within (Nat.le_of_lt h)
    else .error .malformed

end Dhcp.Json
