import KnotResolver.Wire.Dname
import KnotResolver.Text.U16tostr

/-! `kr_rrkey` of `lib/utils.c`, the cache key of an RRset: the class as five decimal digits, the
owner's wire form in lower case without its final zero byte, then the type and a 16-bit
discriminator, five digits each.  The key is as long as the owner's wire form plus 14 bytes, and
two keys are equal exactly when the classes, types and discriminators are equal and the owners are
equal up to ASCII case: the fixed-width digits and the owner's length bytes leave no other way for
two layouts to meet. -/

namespace KnotResolver

/-- `KNOT_DNAME_MAXLEN`: the longest wire form of a name. -/
def KNOT_DNAME_MAXLEN : Nat := 255

/-- `knot_dname_to_wire(dst, name, maxlen)`: the wire form, or `none` where it does not fit in
`maxlen` bytes and libknot returns an error. -/
def knotDnameToWire (name : Dname) (maxlen : Nat) : Option (List UInt8) :=
  if name.toWire.length ≤ maxlen then some name.toWire else none

/-- `kr_rrkey(key, class, owner, type, additional)`: the key bytes up to the length it returns
(it writes a zero byte after them), or `none` where `knot_dname_to_wire` fails and its error is
returned.  `knot_dname_to_lower` lowers the label bytes of the wire form in place; the key then
goes on over the wire form's final zero byte. -/
def krRrkey (rclass : UInt16) (owner : Dname) (type additional : UInt16) : Option (List UInt8) :=
  (knotDnameToWire owner KNOT_DNAME_MAXLEN).map fun _ =>
    u16tostr rclass ++ (owner.toLower.toWire.dropLast ++ (u16tostr type ++ u16tostr additional))

variable {c c' t t' a a' : UInt16} {o o' : Dname}

theorem krRrkey_of_valid (ho : o.Valid) :
    krRrkey c o t a =
      some (u16tostr c ++ (o.toLower.toWire.dropLast ++ (u16tostr t ++ u16tostr a))) := by
  simp [krRrkey, knotDnameToWire, KNOT_DNAME_MAXLEN, ho.2]

theorem length_krRrkey (ho : o.Valid) :
    (krRrkey c o t a).map List.length = some (o.toWire.length + 14) := by
  have := Dname.length_toWire o
  simp [krRrkey_of_valid ho, Dname.length_toWire_toLower]
  omega

/-- Equal keys of valid owners have equal classes, types and discriminators, and owners equal up
to ASCII case. -/
theorem krRrkey_inj (ho : o.Valid) (ho' : o'.Valid)
    (h : krRrkey c o t a = krRrkey c' o' t' a') :
    c = c' ∧ t = t' ∧ a = a' ∧ o.toLower = o'.toLower := by
  rw [krRrkey_of_valid ho, krRrkey_of_valid ho', Option.some.injEq] at h
  obtain ⟨hc, h⟩ := List.append_inj h (by simp)
  have hw := Dname.length_toWire_toLower o
  have hw' := Dname.length_toWire_toLower o'
  have hlen := congrArg List.length h
  simp only [List.length_append, length_u16tostr, List.length_dropLast] at hlen
  obtain ⟨hown, h⟩ := List.append_inj h (by simp; omega)
  obtain ⟨ht, ha⟩ := List.append_inj h (by simp)
  have hwire : o.toLower.toWire = o'.toLower.toWire := by
    rw [Dname.toWire_eq_dropLast_append o.toLower, Dname.toWire_eq_dropLast_append o'.toLower,
      hown]
  have short : ∀ {n : Dname}, n.LabelLengths → ∀ l ∈ n.toLower, l.length < 256 :=
    fun hn l hl => by have := (hn.toLower l hl).2; omega
  exact ⟨u16tostr_injective hc, u16tostr_injective ht, u16tostr_injective ha,
    Dname.toWire_inj (short ho.1) (short ho'.1) hwire⟩

/-- For valid owners, `kr_rrkey` returns the owner's wire length plus 14, and two keys are equal
exactly when the classes, types and discriminators are equal and the owners are equal up to ASCII
case. -/
theorem krRrkey_injective (ho : o.Valid) (ho' : o'.Valid) :
    (krRrkey c o t a).map List.length = some (o.toWire.length + 14) ∧
      (krRrkey c o t a = krRrkey c' o' t' a' ↔
        c = c' ∧ t = t' ∧ a = a' ∧ o.toLower = o'.toLower) := by
  refine ⟨length_krRrkey ho, krRrkey_inj ho ho', ?_⟩
  rintro ⟨rfl, rfl, rfl, h⟩
  rw [krRrkey_of_valid ho, krRrkey_of_valid ho', h]

/-- The owners `A.` and `a.` give one key. -/
theorem krRrkey_injective_example :
    (Dname.Valid [[65]] ∧ Dname.Valid [[97]]) ∧
      ((krRrkey 1 [[65]] 1 0).map List.length = some ((Dname.toWire [[65]]).length + 14) ∧
        (krRrkey 1 [[65]] 1 0 = krRrkey 1 [[97]] 1 0 ↔
          (1 : UInt16) = 1 ∧ (1 : UInt16) = 1 ∧ (0 : UInt16) = 0 ∧
            Dname.toLower [[65]] = Dname.toLower [[97]])) :=
  ⟨⟨by decide, by decide⟩, krRrkey_injective (by decide) (by decide)⟩

end KnotResolver
