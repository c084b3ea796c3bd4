import Dhcp.Options.Area

/-!
Reading an option area by position. The octets stay where they are and a position moves
over them, so that each look at an octet could miss and each difference of positions
could fall below zero. Here either of them would stop the walk. It turns out that none
of them ever happens, that every turn moves on, and that the walk finds what is read
from the front.
-/
namespace Dhcp

/-- An option as the octets have it: its code and its payload. -/
def OptionField.unit (field : OptionField) : UInt8 × List UInt8 := (field.code, field.data)

namespace OptionArea

def units (area : OptionArea) : List (UInt8 × List UInt8) := area.fields.map OptionField.unit

namespace Walk

/-- A look past the last octet, or a difference below zero. -/
inductive Overrun
  | octet (position : Nat)
  | stretch (first last : Nat)
  | difference (a b : Nat)

def octetAt (bytes : List UInt8) (position : Nat) : Except Overrun UInt8 :=
  match bytes[position]? with
  | some octet => .ok octet
  | none => .error (.octet position)

/-- The octets from `first` up to `last`, the latter not included. -/
def stretch (bytes : List UInt8) (first last : Nat) : Except Overrun (List UInt8) :=
  if first ≤ last ∧ last ≤ bytes.length then .ok ((bytes.drop first).take (last - first))
  else .error (.stretch first last)

def minus (a b : Nat) : Except Overrun Nat :=
  if b ≤ a then .ok (a - b) else .error (.difference a b)

/-- What one turn comes to: a later position with the units up to there, or the end. -/
inductive Turn
  | next (position : Nat) (units : List (UInt8 × List UInt8))
  | stop (result : Except PacketFault (List (UInt8 × List UInt8)))

/-- One turn at a position, with the units found before it. -/
def turn (bytes : List UInt8) (position : Nat) (units : List (UInt8 × List UInt8)) :
    Except Overrun Turn :=
  if position < bytes.length then do
    let code ← octetAt bytes position
    if code = OptionCode.pad.toUInt8 then return .next (position + 1) units
    else if code = OptionCode.endOfOptions.toUInt8 then return .stop (.ok units)
    else if bytes.length ≤ position + 1 then return .stop (.error (.lengthMissing code))
    else
      let length ← octetAt bytes (position + 1)
      if bytes.length < position + 2 + length.toNat then
        let behind ← minus bytes.length position
        let remaining ← minus behind 2
        return .stop (.error (.payloadCut code length remaining))
      else
        let payload ← stretch bytes (position + 2) (position + 2 + length.toNat)
        return .next (position + 2 + length.toNat) (units ++ [(code, payload)])
  else return .stop (.ok units)

/-- As many turns as are allowed; no result if they do not lead to the end. -/
def walk (bytes : List UInt8) : Nat → Nat → List (UInt8 × List UInt8) →
    Except Overrun (Option (Except PacketFault (List (UInt8 × List UInt8))))
  | 0, _, _ => .ok none
  | turns + 1, position, units => do
    match ← turn bytes position units with
    | .next position units => walk bytes turns position units
    | .stop result => return some result

/-- One turn told by the octets from the position on. -/
def ahead (position : Nat) (units : List (UInt8 × List UInt8)) : List UInt8 → Turn
  | [] => .stop (.ok units)
  | code :: rest =>
    if code = OptionCode.pad.toUInt8 then .next (position + 1) units
    else if code = OptionCode.endOfOptions.toUInt8 then .stop (.ok units)
    else match rest with
      | [] => .stop (.error (.lengthMissing code))
      | length :: tail =>
        if length.toNat ≤ tail.length then
          .next (position + 2 + length.toNat) (units ++ [(code, tail.take length.toNat)])
        else .stop (.error (.payloadCut code length tail.length))

theorem octetAt_append (before : List UInt8) (octet : UInt8) (rest : List UInt8) :
    octetAt (before ++ octet :: rest) before.length = .ok octet := by
  simp [octetAt]

theorem octetAt_append_succ (before : List UInt8) (first octet : UInt8) (rest : List UInt8) :
    octetAt (before ++ first :: octet :: rest) (before.length + 1) = .ok octet := by
  simp [octetAt]

theorem stretch_append (before : List UInt8) (code length : UInt8) (tail : List UInt8)
    {n : Nat} (h : n ≤ tail.length) :
    stretch (before ++ code :: length :: tail) (before.length + 2) (before.length + 2 + n) =
      .ok (tail.take n) := by
  have hlast : before.length + 2 + n ≤ (before ++ code :: length :: tail).length := by
    simp only [List.length_append, List.length_cons]
    omega
  rw [stretch, if_pos ⟨Nat.le_add_right _ _, hlast⟩, Nat.add_sub_cancel_left]
  simp

theorem minus_add_right (a b : Nat) : minus (a + b) b = .ok a := by
  rw [minus, if_pos (Nat.le_add_left b a), Nat.add_sub_cancel]

/-- No turn looks past the last octet or counts below zero. -/
theorem turn_append (before rest : List UInt8) (units : List (UInt8 × List UInt8)) :
    turn (before ++ rest) before.length units = .ok (ahead before.length units rest) := by
  cases rest with
  | nil =>
    have hend : ¬ before.length < (before ++ []).length := by simp
    rw [turn, if_neg hend]
    rfl
  | cons code rest =>
    have hlt : before.length < (before ++ code :: rest).length := by simp
    rw [turn, if_pos hlt, octetAt_append]
    unfold ahead
    simp only [bind, Except.bind, pure, Except.pure]
    split
    · rfl
    · split
      · rfl
      · cases rest with
        | nil =>
          have hlast : (before ++ [code]).length ≤ before.length + 1 := by simp
          rw [if_pos hlast]
        | cons length tail =>
          have hsize : (before ++ code :: length :: tail).length =
              tail.length + 2 + before.length := by
            simp only [List.length_append, List.length_cons]
            omega
          have hmore : ¬ tail.length + 2 + before.length ≤ before.length + 1 := by omega
          have hbeyond : tail.length + 2 + before.length < before.length + 2 + length.toNat ↔
              ¬ length.toNat ≤ tail.length := by
            omega
          simp only [hsize, if_neg hmore, octetAt_append_succ, minus_add_right, hbeyond]
          by_cases hfits : length.toNat ≤ tail.length
          · rw [if_neg (not_not_intro hfits), if_pos hfits,
              stretch_append before code length tail hfits]
          · rw [if_pos hfits, if_neg hfits]

variable {before rest : List UInt8} {units found : List (UInt8 × List UInt8)} {turns : Nat}

theorem walk_next {passed later : List UInt8}
    (h : ahead before.length units rest = .next (before ++ passed).length found)
    (hrest : rest = passed ++ later) :
    walk (before ++ rest) (turns + 1) before.length units =
      walk ((before ++ passed) ++ later) turns (before ++ passed).length found := by
  rw [walk, turn_append, h, hrest, List.append_assoc]
  rfl

theorem walk_stop {result : Except PacketFault (List (UInt8 × List UInt8))}
    (h : ahead before.length units rest = .stop result) :
    walk (before ++ rest) (turns + 1) before.length units = .ok (some result) := by
  rw [walk, turn_append, h]
  rfl

/-- From any position on, with a turn for each octet ahead and one more, the walk finds
what is read from there. The induction follows the reader. -/
theorem walk_append (rest before : List UInt8) (units : List (UInt8 × List UInt8))
    (h : rest.length ≤ turns) :
    walk (before ++ rest) (turns + 1) before.length units =
      .ok (some ((parseFields rest).map fun fields => units ++ fields.map OptionField.unit)) := by
  induction rest using parseFields.induct generalizing before units turns with
  | case1 =>
    rw [walk_stop rfl, parseFields]
    simp [Except.map]
  | case2 rest ih =>
    obtain ⟨fewer, rfl⟩ := Nat.exists_eq_add_one_of_ne_zero (Nat.ne_zero_of_lt h)
    have hahead : ahead before.length units (OptionCode.pad.toUInt8 :: rest) =
        .next (before ++ [OptionCode.pad.toUInt8]).length units := by
      simp [ahead]
    rw [walk_next hahead rfl, ih _ _ (Nat.le_of_succ_le_succ h), parseFields_pad]
  | case3 rest last =>
    have hahead : ahead before.length units (OptionCode.endOfOptions.toUInt8 :: rest) =
        .stop (.ok units) := by
      simp [ahead, last]
    rw [walk_stop hahead, parseFields_end]
    simp [Except.map]
  | case4 code pad last =>
    have hahead : ahead before.length units [code] = .stop (.error (.lengthMissing code)) := by
      simp [ahead, pad, last]
    rw [walk_stop hahead, parseFields_lengthMissing pad last]
    rfl
  | case5 code pad last length tail fits ih =>
    obtain ⟨fewer, rfl⟩ := Nat.exists_eq_add_one_of_ne_zero (Nat.ne_zero_of_lt h)
    have hposition : (before ++ (code :: length :: tail.take length.toNat)).length =
        before.length + 2 + length.toNat := by
      simp only [List.length_append, List.length_cons, List.length_take]
      omega
    have hahead : ahead before.length units (code :: length :: tail) =
        .next (before ++ (code :: length :: tail.take length.toNat)).length
          (units ++ [(code, tail.take length.toNat)]) := by
      rw [hposition]
      simp only [ahead, if_neg pad, if_neg last, if_pos fits]
    have hlater : (tail.drop length.toNat).length ≤ fewer := by
      simp only [List.length_drop, List.length_cons] at h ⊢
      omega
    have hrest : code :: length :: tail =
        (code :: length :: tail.take length.toNat) ++ tail.drop length.toNat := by
      simp
    rw [walk_next hahead hrest, ih _ _ hlater, parseFields_field pad last fits]
    cases parseFields (tail.drop length.toNat) with
    | error fault => rfl
    | ok fields => simp [Except.map, OptionField.unit]
  | case6 code pad last length tail fits =>
    have hahead : ahead before.length units (code :: length :: tail) =
        .stop (.error (.payloadCut code length tail.length)) := by
      simp only [ahead, if_neg pad, if_neg last, if_neg fits]
    rw [walk_stop hahead, parseFields_payloadCut pad last fits]
    rfl

/-- The walk over all octets comes to its end without an overrun, and to what is read. -/
theorem walk_eq_parse (bytes : List UInt8) :
    walk bytes (bytes.length + 1) 0 [] = .ok (some ((parse bytes).map OptionArea.units)) := by
  refine (walk_append bytes [] [] (Nat.le_refl bytes.length)).trans ?_
  rw [parse]
  cases parseFields bytes with
  | error fault => rfl
  | ok fields => rfl

end Walk

end OptionArea

end Dhcp
