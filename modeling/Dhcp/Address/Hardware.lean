import Dhcp.Wire.Octets

/-!
Hardware addresses of six octets, ordered octet by octet. The text writes each
octet as two lowercase hexadecimal digits with colons between them.
-/
namespace Dhcp

/-- The six octets that identify a client's network interface. -/
structure HardwareAddress where
  octets : Octets 6
  deriving DecidableEq

namespace HardwareAddress

def zero : HardwareAddress := ⟨Octets.zero 6⟩

instance : Inhabited HardwareAddress := ⟨zero⟩

/-- The first octet that differs decides. -/
instance : LT HardwareAddress := ⟨fun a b => a.octets.toList < b.octets.toList⟩

instance : LE HardwareAddress := ⟨fun a b => a.octets.toList ≤ b.octets.toList⟩

instance (a b : HardwareAddress) : Decidable (a < b) :=
  inferInstanceAs (Decidable (a.octets.toList < b.octets.toList))

instance (a b : HardwareAddress) : Decidable (a ≤ b) :=
  inferInstanceAs (Decidable (a.octets.toList ≤ b.octets.toList))

/-- An octet as two lowercase hexadecimal digits. -/
def octetText (o : UInt8) : List Char :=
  [Nat.digitChar (o.toNat / 16), Nat.digitChar (o.toNat % 16)]

/-- The six octets in hexadecimal with colons between them. -/
def text (a : HardwareAddress) : List Char :=
  List.intercalate [':'] (a.octets.toList.map octetText)

instance : ToString HardwareAddress := ⟨fun a => String.ofList a.text⟩

def sort (addresses : List HardwareAddress) : List HardwareAddress :=
  addresses.mergeSort fun a b => decide (a ≤ b)

theorem digitChar_inj {m n : Nat} (hm : m < 16) (hn : n < 16)
    (h : Nat.digitChar m = Nat.digitChar n) : m = n := by
  have hall : ∀ i j : Fin 16, Nat.digitChar i = Nat.digitChar j → i = j := by decide
  exact congrArg Fin.val (hall ⟨m, hm⟩ ⟨n, hn⟩ h)

theorem octetText_inj {o p : UInt8} (h : octetText o = octetText p) : o = p := by
  have ho := o.toNat_lt
  have hp := p.toNat_lt
  obtain ⟨hhigh, hlow⟩ := List.cons.inj h
  have hquotient : o.toNat / 16 = p.toNat / 16 := digitChar_inj (by omega) (by omega) hhigh
  have hremainder : o.toNat % 16 = p.toNat % 16 :=
    digitChar_inj (by omega) (by omega) (List.cons.inj hlow).1
  apply UInt8.toNat_inj.mp
  omega

/-- The texts of some octets with a colon before each. -/
def following (octets : List UInt8) : List Char := octets.flatMap fun o => ':' :: octetText o

theorem following_cons (o : UInt8) (rest : List UInt8) :
    following (o :: rest) = ':' :: (octetText o ++ following rest) := by
  rw [following, List.flatMap_cons, List.cons_append, ← following]

theorem intercalate_octetText_cons (o : UInt8) (rest : List UInt8) :
    List.intercalate [':'] ((o :: rest).map octetText) = octetText o ++ following rest := by
  induction rest generalizing o with
  | nil => simp [following]
  | cons p more ih =>
    have htail := ih p
    rw [List.map_cons] at htail
    rw [List.map_cons, List.map_cons, List.intercalate_cons_cons, htail, following_cons,
      List.append_assoc, List.singleton_append]

/-- Only the first octet has no colon before it. -/
theorem exists_text (a : HardwareAddress) : ∃ o rest,
    a.octets.toList = o :: rest ∧ rest.length = 5 ∧ a.text = octetText o ++ following rest := by
  have hlength := a.octets.length_toList
  obtain ⟨o, rest, hoctets⟩ := List.exists_cons_of_length_eq_add_one hlength
  rw [hoctets, List.length_cons] at hlength
  exact ⟨o, rest, hoctets, Nat.succ.inj hlength,
    by rw [text, hoctets, intercalate_octetText_cons]⟩

theorem length_following (octets : List UInt8) : (following octets).length = 3 * octets.length := by
  induction octets with
  | nil => rfl
  | cons o rest ih =>
    have htext : (octetText o).length = 2 := rfl
    rw [following_cons, List.length_cons, List.length_append, ih, htext, List.length_cons]
    omega

theorem length_text (a : HardwareAddress) : a.text.length = 17 := by
  obtain ⟨o, rest, -, hlength, htext⟩ := a.exists_text
  have hfirst : (octetText o).length = 2 := rfl
  rw [htext, List.length_append, hfirst, length_following, hlength]

/-- Every octet takes two characters, so texts differ where one of the octets does. -/
theorem following_inj {os ps : List UInt8} (h : following os = following ps) : os = ps := by
  induction os generalizing ps with
  | nil =>
    cases ps with
    | nil => rfl
    | cons p more => cases h
  | cons o rest ih =>
    cases ps with
    | nil => cases h
    | cons p more =>
      rw [following_cons, following_cons] at h
      obtain ⟨hfirst, hothers⟩ := List.append_inj (List.cons.inj h).2 rfl
      rw [octetText_inj hfirst, ih hothers]

theorem text_inj {a b : HardwareAddress} (h : a.text = b.text) : a = b := by
  obtain ⟨o, rest, ha, -, hatext⟩ := a.exists_text
  obtain ⟨p, more, hb, -, hbtext⟩ := b.exists_text
  rw [hatext, hbtext] at h
  obtain ⟨hfirst, hothers⟩ := List.append_inj h rfl
  have hoctets : a.octets.toList = b.octets.toList := by
    rw [ha, hb, octetText_inj hfirst, following_inj hothers]
  exact congrArg HardwareAddress.mk (Octets.ext hoctets)

end HardwareAddress

end Dhcp
