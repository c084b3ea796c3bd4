import Dhcp.Config.Member
import Dhcp.Json.Skip
import Dhcp.Text.Quoted

/-!
Reading a configuration from JSON text: an object of its members in any order, or
a list of them in the order in which they are written. Members of other names are
passed over. Whatever is wrong is reported where reading first meets it.
-/
namespace Dhcp.Config

open Json

inductive Kind
  | integer (value : Int)
  | floating (numeral : Numeral)
  | string (text : List Char)
  | boolean (value : Bool)
  | null
  | list
  | object
  deriving DecidableEq

inductive Expected
  | config
  | address
  | seconds
  | list
  deriving DecidableEq

inductive Misfit
  | missing (member : Member)
  | duplicate (member : Member)
  /-- A list that ends after `count` members. -/
  | tooShort (count : Nat)
  | addressSyntax
  /-- A number of seconds that 32 bits do not hold. -/
  | secondsRange (value : Int)
  | kind (found : Kind) (expected : Expected)
  deriving DecidableEq

inductive ReadFault
  | json (fault : Fault)
  | misfit (reason : Misfit)
  deriving DecidableEq

/-- How a value is named in a report. `printed` is how the floating point number is
printed that a numeral stands for. -/
def Kind.text (printed : Numeral → String) : Kind → String
  | integer value => "integer `" ++ toString value ++ "`"
  | floating numeral => "floating point `" ++ printed numeral ++ "`"
  | string text => "string " ++ String.ofList (Text.quoted text)
  | boolean value => "boolean `" ++ toString value ++ "`"
  | null => "null"
  | list => "sequence"
  | object => "map"

def Expected.text : Expected → String
  | config => "struct Config"
  | address => "IPv4 address"
  | seconds => "u32"
  | list => "a sequence"

/-- What is wrong, without the line and the column that stand behind it in a report. -/
def Misfit.message (printed : Numeral → String) : Misfit → String
  | missing member => "missing field `" ++ member.name ++ "`"
  | duplicate member => "duplicate field `" ++ member.name ++ "`"
  | tooShort count =>
    "invalid length " ++ toString count ++ ", expected struct Config with 8 elements"
  | addressSyntax => "invalid IPv4 address syntax"
  | secondsRange value => "invalid value: integer `" ++ toString value ++ "`, expected u32"
  | kind found expected =>
    "invalid type: " ++ found.text printed ++ ", expected " ++ expected.text

def numberKind : Number → Kind
  | .integer value => .integer value
  | .floating numeral => .floating numeral

/-- The kind of the value that begins with `c`. Words, numbers and strings are read
to their end; a list or an object is told by its bracket. -/
def kindOf (c : Char) (rest : List Char) : Except Fault Kind :=
  if c = 'n' then (literal ['u', 'l', 'l'] rest).map fun _ => .null
  else if c = 't' then (literal ['r', 'u', 'e'] rest).map fun _ => .boolean true
  else if c = 'f' then (literal ['a', 'l', 's', 'e'] rest).map fun _ => .boolean false
  else if c = '-' ∨ c.isDigit then (readNumber (c :: rest)).map fun t => numberKind t.value
  else if c = '"' then (readString rest).map fun t => .string t.value
  else if c = '[' then .ok .list
  else if c = '{' then .ok .object
  else .error .malformed

/-- The report of a value of another kind than expected. -/
def unexpected (expected : Expected) (c : Char) (rest : List Char) : ReadFault :=
  match kindOf c rest with
  | .ok found => .misfit (.kind found expected)
  | .error fault => .json fault

def readAddress (s : List Char) : Except ReadFault (Taken s Ipv4) :=
  match skipBlank s with
  | ⟨[], _⟩ => .error (.json .truncated)
  | ⟨c :: rest, h⟩ =>
    if c = '"' then
      match readString rest with
      | .error fault => .error (.json fault)
      | .ok text =>
        match Ipv4.ofText? text.value with
        | some a => .ok (((text.map fun _ => a).behind c).within h)
        | none => .error (.misfit .addressSyntax)
    else .error (unexpected .address c rest)

def readAddressOrNull (s : List Char) : Except ReadFault (Taken s (Option Ipv4)) :=
  match skipBlank s with
  | ⟨'n' :: rest, h⟩ =>
    match literal ['u', 'l', 'l'] rest with
    | .ok word => .ok (((word.behind 'n').map fun _ => none).within h)
    | .error fault => .error (.json fault)
  | _ => (readAddress s).map fun t => t.map some

def readAddressEntries (first : Bool) (s : List Char) :
    Except ReadFault (Taken s (List Ipv4)) :=
  match next ']' first s with
  | .error fault => .error (.json fault)
  | .ok (.closed rest h) => .ok ⟨[], rest, h⟩
  | .ok (.entry c rest h) =>
    match readAddress (c :: rest) with
    | .error fault => .error fault
    | .ok a =>
      (readAddressEntries false a.rest).map fun more =>
        ((a.andThen more).map fun l => a.value :: l).within h
termination_by s.length
decreasing_by exact Nat.lt_of_lt_of_le a.shorter h

def readAddresses (s : List Char) : Except ReadFault (Taken s (List Ipv4)) :=
  match skipBlank s with
  | ⟨[], _⟩ => .error (.json .truncated)
  | ⟨c :: rest, h⟩ =>
    if c = '[' then
      (readAddressEntries true rest).map fun entries => (entries.behind c).within h
    else .error (unexpected .list c rest)

def readSeconds (s : List Char) : Except ReadFault (Taken s UInt32) :=
  match skipBlank s with
  | ⟨[], _⟩ => .error (.json .truncated)
  | ⟨c :: rest, h⟩ =>
    if c = '-' ∨ c.isDigit then
      match readNumber (c :: rest) with
      | .error fault => .error (.json fault)
      | .ok number =>
        match number.value with
        | .floating numeral => .error (.misfit (.kind (.floating numeral) .seconds))
        | .integer value =>
          if 0 ≤ value ∧ value < UInt32.size then
            .ok ((number.map fun _ => UInt32.ofNat value.toNat).within h)
          else .error (.misfit (.secondsRange value))
    else .error (unexpected .seconds c rest)

def readMember (draft : Draft) (m : Member) (s : List Char) :
    Except ReadFault (Taken s Draft) :=
  match m with
  | .serverAddress =>
    (readAddress s).map fun t => t.map fun a => { draft with serverAddress := some a }
  | .subnetMask =>
    (readAddress s).map fun t => t.map fun a => { draft with subnetMask := some a }
  | .poolStart =>
    (readAddress s).map fun t => t.map fun a => { draft with poolStart := some a }
  | .poolEnd =>
    (readAddress s).map fun t => t.map fun a => { draft with poolEnd := some a }
  | .routers =>
    (readAddresses s).map fun t => t.map fun l => { draft with routers := some l }
  | .dnsServers =>
    (readAddresses s).map fun t => t.map fun l => { draft with dnsServers := some l }
  | .leaseSeconds =>
    (readSeconds s).map fun t => t.map fun n => { draft with leaseSeconds := some n }
  | .broadcastAddress =>
    (readAddressOrNull s).map fun t => t.map fun a => { draft with broadcastAddress := some a }

/-- Reads the colon and the value behind a key. A member of a known name may be
there once; a member of another name leaves the draft as it is. -/
def readValue (draft : Draft) (key : List Char) (s : List Char) :
    Except ReadFault (Taken s Draft) :=
  match Member.ofName? key with
  | some m =>
    if draft.has m then .error (.misfit (.duplicate m))
    else match colon s with
      | .error fault => .error (.json fault)
      | .ok mark => (readMember draft m mark.rest).map fun whole => mark.andThen whole
  | none =>
    match colon s with
    | .error fault => .error (.json fault)
    | .ok mark =>
      match skipValue mark.rest with
      | .error fault => .error (.json fault)
      | .ok passed => .ok ((mark.andThen passed).map fun _ => draft)

def readMembers (draft : Draft) (first : Bool) (s : List Char) :
    Except ReadFault (Taken s Draft) :=
  match next '}' first s with
  | .error fault => .error (.json fault)
  | .ok (.closed rest h) => .ok ⟨draft, rest, h⟩
  | .ok (.entry c rest h) =>
    if c = '"' then
      match readString rest with
      | .error fault => .error (.json fault)
      | .ok key =>
        match readValue draft key.value key.rest with
        | .error fault => .error fault
        | .ok value =>
          let member := (key.andThen value).behind c
          (readMembers member.value false member.rest).map fun whole =>
            (member.andThen whole).within h
    else .error (.json .malformed)
termination_by s.length
decreasing_by exact Nat.lt_of_lt_of_le member.shorter h

/-- Reads the entries of a list as the members they stand for, and its closing
bracket. Members at the end may be left out. -/
def readEntries (draft : Draft) (first : Bool) : List Member → (s : List Char) →
    Except ReadFault (Taken s Draft)
  | [], s =>
    match skipBlank s with
    | ⟨[], _⟩ => .error (.json .truncated)
    | ⟨c :: rest, h⟩ =>
      if c = ']' then .ok ⟨draft, rest, h⟩ else .error (.json .malformed)
  | m :: members, s =>
    match next ']' first s with
    | .error fault => .error (.json fault)
    | .ok (.closed rest h) => .ok ⟨draft, rest, h⟩
    | .ok (.entry c rest h) =>
      match readMember draft m (c :: rest) with
      | .error fault => .error fault
      | .ok more =>
        (readEntries more.value false members more.rest).map fun whole =>
          (more.andThen whole).within h

/-- The configuration of a draft; `absent` reports the member that it lacks. -/
def complete (absent : Member → Misfit) (draft : Draft) : Except ReadFault Config :=
  match draft.toConfig with
  | .ok config => .ok config
  | .error m => .error (.misfit (absent m))

def readConfig (s : List Char) : Except ReadFault (Config × List Char) :=
  match skipBlank s with
  | ⟨[], _⟩ => .error (.json .truncated)
  | ⟨c :: rest, _⟩ =>
    if c = '{' then
      match readMembers {} true rest with
      | .error fault => .error fault
      | .ok t => (complete .missing t.value).map fun config => (config, t.rest)
    else if c = '[' then
      match readEntries {} true Member.all rest with
      | .error fault => .error fault
      | .ok t =>
        (complete (fun m => .tooShort m.index) t.value).map fun config => (config, t.rest)
    else .error (unexpected .config c rest)

/-- The configuration of a text that holds nothing else. -/
def parse (s : List Char) : Except ReadFault Config :=
  match readConfig s with
  | .error fault => .error fault
  | .ok (config, rest) =>
    match skipBlank rest with
    | ⟨[], _⟩ => .ok config
    | ⟨_ :: _, _⟩ => .error (.json .malformed)

end Dhcp.Config
