import Mathlib.Data.List.Basic
import Mathlib.Algebra.BigOperators.Group.List
import Mathlib.Algebra.Order.Ring.Nat

/-! Domain names as the resolver's C code handles them.  A name is the list of its labels,
leftmost first, and a label is its bytes without the length byte.  `toWire` is the wire form,
each label after its length byte and then the zero byte of the root; `lf` is the lookup form of
`knot_dname_lf`, the labels in reverse order, each followed by one zero byte.  `Valid` is what
DNS asks of a name, and `LfSafe` what the lookup form needs on top of it: no zero byte inside a
label. -/

namespace KnotResolver

/-- A label: its bytes, without the length byte. -/
abbrev Label := List UInt8

/-- A domain name: its labels, leftmost first.  The root name has none. -/
abbrev Dname := List Label

namespace Dname

/-- The wire form of a name: each label after its length byte, then the zero byte. -/
def toWire : Dname → List UInt8
  | [] => [0]
  | l :: ls => UInt8.ofNat l.length :: (l ++ toWire ls)

/-- The lookup form: the labels in reverse order, each followed by a zero byte. -/
def lf : Dname → List UInt8
  | [] => []
  | l :: ls => lf ls ++ (l ++ [0])

/-- Every label has 1 to 63 bytes. -/
def LabelLengths (n : Dname) : Prop := ∀ l ∈ n, 0 < l.length ∧ l.length ≤ 63

/-- Labels of 1 to 63 bytes, and a wire form of at most 255 bytes (`KNOT_DNAME_MAXLEN`). -/
def Valid (n : Dname) : Prop := n.LabelLengths ∧ n.toWire.length ≤ 255

/-- No label holds a zero byte, so that the zero bytes of the lookup form separate labels. -/
def LfSafe (n : Dname) : Prop := ∀ l ∈ n, (0 : UInt8) ∉ l

instance (n : Dname) : Decidable n.LabelLengths :=
  inferInstanceAs (Decidable (∀ l ∈ n, 0 < l.length ∧ l.length ≤ 63))

instance (n : Dname) : Decidable n.LfSafe := inferInstanceAs (Decidable (∀ l ∈ n, (0 : UInt8) ∉ l))

instance (n : Dname) : Decidable n.Valid := inferInstanceAs (Decidable (_ ∧ _))

theorem LabelLengths.tail {l : Label} {ls : Dname} (h : LabelLengths (l :: ls)) :
    LabelLengths ls := fun l' h' => h l' (List.mem_cons_of_mem l h')

theorem LfSafe.tail {l : Label} {ls : Dname} (h : LfSafe (l :: ls)) : LfSafe ls :=
  fun l' h' => h l' (List.mem_cons_of_mem l h')

@[simp] theorem toWire_nil : toWire [] = [0] := rfl

@[simp] theorem toWire_cons (l : Label) (ls : Dname) :
    toWire (l :: ls) = UInt8.ofNat l.length :: (l ++ toWire ls) := rfl

@[simp] theorem lf_nil : lf [] = [] := rfl

@[simp] theorem lf_cons (l : Label) (ls : Dname) : lf (l :: ls) = lf ls ++ (l ++ [0]) := rfl

theorem length_lf (n : Dname) : n.lf.length = (n.map (·.length + 1)).sum := by
  induction n with
  | nil => rfl
  | cons l ls ih => simp [ih]; omega

theorem length_toWire (n : Dname) : n.toWire.length = n.lf.length + 1 := by
  induction n with
  | nil => rfl
  | cons l ls ih => simp [ih]; omega

theorem toWire_ne_nil (n : Dname) : n.toWire ≠ [] := by
  cases n <;> simp

theorem dropLast_toWire_cons (l : Label) (ls : Dname) :
    (toWire (l :: ls)).dropLast = UInt8.ofNat l.length :: (l ++ (toWire ls).dropLast) := by
  rw [toWire_cons, List.dropLast_cons_of_ne_nil (by simp [toWire_ne_nil]),
    List.dropLast_append_of_ne_nil _ (toWire_ne_nil ls)]

theorem toWire_eq_dropLast_append (n : Dname) : n.toWire = n.toWire.dropLast ++ [0] := by
  induction n with
  | nil => rfl
  | cons l ls ih =>
    rw [dropLast_toWire_cons, toWire_cons, ih]
    simp [← ih]

/-- A nonempty lookup form ends in the zero byte after the leftmost label. -/
theorem getLast_lf (l : Label) (ls : Dname) : (lf (l :: ls)).getLast? = some 0 := by
  simp [List.getLast?_append]

/-- A name is determined by its wire form, when no label reaches 256 bytes. -/
theorem toWire_inj {n n' : Dname} (h : ∀ l ∈ n, l.length < 256) (h' : ∀ l ∈ n', l.length < 256)
    (he : n.toWire = n'.toWire) : n = n' := by
  induction n generalizing n' with
  | nil =>
    rcases n' with _ | ⟨l', ls'⟩
    · rfl
    · have hl : l'.length = 0 := by
        have := congrArg UInt8.toNat (List.head_eq_of_cons_eq he)
        rw [UInt8.toNat_ofNat_of_lt (h' l' (List.mem_cons_self _ _))] at this
        exact this.symm
      rw [List.length_eq_zero.mp hl, toWire_cons, toWire_nil] at he
      exact absurd (List.tail_eq_of_cons_eq he).symm (toWire_ne_nil ls')
  | cons l ls ih =>
    rcases n' with _ | ⟨l', ls'⟩
    · have hl : l.length = 0 := by
        have := congrArg UInt8.toNat (List.head_eq_of_cons_eq he)
        rwa [UInt8.toNat_ofNat_of_lt (h l (List.mem_cons_self _ _))] at this
      rw [List.length_eq_zero.mp hl, toWire_cons, toWire_nil] at he
      exact absurd (List.tail_eq_of_cons_eq he) (toWire_ne_nil ls)
    · have hlen : l.length = l'.length := by
        have := congrArg UInt8.toNat (List.head_eq_of_cons_eq he)
        rwa [UInt8.toNat_ofNat_of_lt (h l (List.mem_cons_self _ _)),
          UInt8.toNat_ofNat_of_lt (h' l' (List.mem_cons_self _ _))] at this
      obtain ⟨rfl, hrest⟩ := List.append_inj (List.tail_eq_of_cons_eq he) hlen
      rw [ih (fun l hl => h l (List.mem_cons_of_mem _ hl))
        (fun l hl => h' l (List.mem_cons_of_mem _ hl)) hrest]

/-- The name at the start of `bytes`, read from its uncompressed wire form with at most `fuel`
labels: `none` when a length byte is over 63 (a compression pointer) or the bytes end first. -/
def ofWireAux : Nat → List UInt8 → Option Dname
  | _, [] => none
  | fuel, len :: rest =>
    if len = 0 then some []
    else match fuel with
      | 0 => none
      | fuel + 1 =>
        if 63 < len.toNat ∨ rest.length < len.toNat then none
        else (ofWireAux fuel (rest.drop len.toNat)).map (rest.take len.toNat :: ·)

/-- The name whose wire form starts `bytes`; each label takes two bytes or more, so the length
of `bytes` bounds the labels. -/
def ofWire (bytes : List UInt8) : Option Dname := ofWireAux bytes.length bytes

end Dname

/-- `knot_dname_is_equal`: the names are equal label for label, byte for byte. -/
def knotDnameIsEqual (a b : Dname) : Bool := a == b

/-- `tolower` on one byte of a name: ASCII upper case to lower case, every other byte kept. -/
def asciiToLower (b : UInt8) : UInt8 := if 65 ≤ b ∧ b ≤ 90 then b + 32 else b

/-- `knot_dname_to_lower`: every label byte to lower case. -/
def Dname.toLower (n : Dname) : Dname := n.map (List.map asciiToLower)

theorem Dname.length_toWire_toLower (n : Dname) : n.toLower.toWire.length = n.toWire.length := by
  induction n with
  | nil => rfl
  | cons l ls ih => simp [Dname.toLower] at ih ⊢; omega

theorem Dname.LabelLengths.toLower {n : Dname} (h : n.LabelLengths) : n.toLower.LabelLengths := by
  intro l hl
  obtain ⟨l', hl', rfl⟩ := List.mem_map.mp hl
  simpa using h l' hl'

end KnotResolver
