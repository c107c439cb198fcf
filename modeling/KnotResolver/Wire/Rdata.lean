import Mathlib.Data.List.Lex
import Mathlib.Data.List.Sort
import KnotResolver.Defines
import KnotResolver.Wire.Dname

/-! Resource records as libknot holds them.  A record's data is its bytes; libknot keeps the
records of a set in its canonical order (`knot_rdata_cmp`: the bytes compared as by `memcmp`, a
proper prefix first) without duplicates, and `Rdataset` carries that order as a field.
`knot_rdataset_merge` adds records one at a time, and each record that is not yet present takes
one allocation from the memory pool; the pool is modelled by the number of allocations it still
grants.  An `Rrset` has the fields of `knot_rrset_t` that the modelled code reads.

A merge only adds records, and from two sets it leaves first either the first record of the one or
that of the other, also when the pool stops it part way. -/

namespace KnotResolver

/-- The bytes of one record's data. -/
def Rdata := List UInt8

/-- `knot_rdata_cmp`: bytes compared as by `memcmp`, a proper prefix first. -/
instance : LinearOrder Rdata :=
  LinearOrder.lift' (fun r : List UInt8 => r.map UInt8.toNat)
    (List.map_injective_iff.mpr fun _ _ h => UInt8.eq_of_val_eq (Fin.ext h))

/-- `wire_read_u16`: the big-endian 16-bit number at byte `off`. -/
def wireReadU16 (bytes : List UInt8) (off : Nat) : UInt16 :=
  UInt16.ofNat ((bytes.getD off 0).toNat * 256 + (bytes.getD (off + 1) 0).toNat)

/-- Two lists read as one number at `off` hold the same two bytes there. -/
theorem getD_eq_of_wireReadU16_eq {a b : List UInt8} {off : Nat}
    (h : wireReadU16 a off = wireReadU16 b off) :
    a.getD off 0 = b.getD off 0 ∧ a.getD (off + 1) 0 = b.getD (off + 1) 0 := by
  have ha0 : (a.getD off 0).toNat < 256 := (a.getD off 0).val.isLt
  have ha1 : (a.getD (off + 1) 0).toNat < 256 := (a.getD (off + 1) 0).val.isLt
  have hb0 : (b.getD off 0).toNat < 256 := (b.getD off 0).val.isLt
  have hb1 : (b.getD (off + 1) 0).toNat < 256 := (b.getD (off + 1) 0).val.isLt
  have h' := congrArg UInt16.toNat h
  rw [wireReadU16, wireReadU16, UInt16.toNat_ofNat_of_lt (by unfold UInt16.size; omega),
    UInt16.toNat_ofNat_of_lt (by unfold UInt16.size; omega)] at h'
  exact ⟨UInt8.toNat.inj (by omega), UInt8.toNat.inj (by omega)⟩

/-- `knot_rrsig_type_covered`: the type that an RRSIG record covers, its first two bytes. -/
def knotRrsigTypeCovered (r : Rdata) : UInt16 := wireReadU16 r 0

/-- `knot_rdataset_add` on a set in canonical order: the record at its place, a duplicate
dropped. -/
def rdataInsert (x : Rdata) : List Rdata → List Rdata
  | [] => [x]
  | y :: ys => if x < y then x :: y :: ys else if x = y then y :: ys else y :: rdataInsert x ys

section Insert

variable {x z : Rdata} {l : List Rdata}

@[simp] theorem mem_rdataInsert : z ∈ rdataInsert x l ↔ z = x ∨ z ∈ l := by
  induction l with
  | nil => simp [rdataInsert]
  | cons y ys ih =>
    simp only [rdataInsert]
    split
    · simp
    · split
      · subst_vars; simp
      · simp [ih, or_left_comm]

theorem sorted_rdataInsert (h : l.Sorted (· < ·)) : (rdataInsert x l).Sorted (· < ·) := by
  induction l with
  | nil => exact List.sorted_singleton x
  | cons y ys ih =>
    rw [List.sorted_cons] at h
    simp only [rdataInsert]
    split
    · exact List.sorted_cons.mpr ⟨fun b hb => by
        rcases List.mem_cons.mp hb with rfl | hb
        · assumption
        · exact lt_trans ‹x < y› (h.1 b hb), List.sorted_cons.mpr h⟩
    · split
      · exact List.sorted_cons.mpr h
      · refine List.sorted_cons.mpr ⟨fun b hb => ?_, ih h.2⟩
        rcases mem_rdataInsert.mp hb with rfl | hb
        · exact lt_of_le_of_ne (not_lt.mp ‹¬b < y›) (Ne.symm ‹¬b = y›)
        · exact h.1 b hb

/-- Insertion puts the record first or keeps the first record. -/
theorem head?_rdataInsert : (rdataInsert x l).head? = some x ∨ (rdataInsert x l).head? = l.head? := by
  cases l with
  | nil => exact .inl rfl
  | cons y ys =>
    simp only [rdataInsert]
    split
    · exact .inl rfl
    · split <;> exact .inr rfl

/-- The first record of a set in canonical order comes before every other. -/
theorem head_le_of_mem {h : Rdata} (hs : l.Sorted (· < ·)) (hh : l.head? = some h) (hz : z ∈ l) :
    h ≤ z := by
  cases l with
  | nil => cases hh
  | cons y ys =>
    cases hh
    rcases List.mem_cons.mp hz with rfl | hz
    · exact le_rfl
    · exact le_of_lt ((List.sorted_cons.mp hs).1 z hz)

end Insert

/-- `knot_rdataset_t`: the records of a set, in canonical order and without duplicates. -/
structure Rdataset where
  rdata : List Rdata
  sorted : rdata.Sorted (· < ·)

/-- `knot_rdataset_add`. -/
def Rdataset.add (s : Rdataset) (x : Rdata) : Rdataset :=
  ⟨rdataInsert x s.rdata, sorted_rdataInsert s.sorted⟩

/-- `knot_rdataset_merge(rrs1, rrs2, mm)`: the records of `rrs2` added to `rrs1` one by one.  A
record not yet present takes one allocation from a pool that grants `pool` of them; at the first
one refused the merge stops with `KNOT_ENOMEM` and keeps what it added. -/
def knotRdatasetMerge : Nat → Rdataset → List Rdata → Int × Rdataset
  | _, dst, [] => (0, dst)
  | pool, dst, x :: xs =>
    if x ∈ dst.rdata then knotRdatasetMerge pool dst xs
    else match pool with
      | 0 => (KNOT_ENOMEM, dst)
      | pool + 1 => knotRdatasetMerge pool (dst.add x) xs

section Merge

variable {pool : Nat} {dst : Rdataset} {src : List Rdata} {z : Rdata}

/-- A merge keeps every record it had. -/
theorem mem_knotRdatasetMerge (hz : z ∈ dst.rdata) : z ∈ (knotRdatasetMerge pool dst src).2.rdata := by
  induction src generalizing pool dst with
  | nil => exact hz
  | cons x xs ih =>
    simp only [knotRdatasetMerge]
    split
    · exact ih hz
    · split
      · exact hz
      · exact ih (mem_rdataInsert.mpr (.inr hz))

/-- A merge that returns `KNOT_EOK` has added every record of `src`. -/
theorem mem_knotRdatasetMerge_of_ok (hok : (knotRdatasetMerge pool dst src).1 = 0) (hz : z ∈ src) :
    z ∈ (knotRdatasetMerge pool dst src).2.rdata := by
  induction src generalizing pool dst with
  | nil => cases hz
  | cons x xs ih =>
    by_cases hx : x ∈ dst.rdata
    · simp only [knotRdatasetMerge, if_pos hx] at hok ⊢
      rcases List.mem_cons.mp hz with rfl | hz
      · exact mem_knotRdatasetMerge hx
      · exact ih hok hz
    · rcases pool with _ | pool
      · simp [knotRdatasetMerge, hx, KNOT_ENOMEM, ENOMEM] at hok
      · simp only [knotRdatasetMerge, if_neg hx] at hok ⊢
        rcases List.mem_cons.mp hz with rfl | hz
        · exact mem_knotRdatasetMerge (mem_rdataInsert.mpr (.inl rfl))
        · exact ih hok hz

/-- A merge leaves first the first record of `dst` or that of `src`. -/
theorem head?_knotRdatasetMerge (hs : src.Sorted (· < ·)) :
    (knotRdatasetMerge pool dst src).2.rdata.head? = dst.rdata.head? ∨
      (knotRdatasetMerge pool dst src).2.rdata.head? = src.head? := by
  induction src generalizing pool dst with
  | nil => exact .inl rfl
  | cons x xs ih =>
    have hxs := (List.sorted_cons.mp hs).2
    -- a record of `xs` cannot come first once `x` is in
    have notTail : ∀ d : Rdataset, x ∈ d.rdata → ∀ p,
        (knotRdatasetMerge p d xs).2.rdata.head? ≠ xs.head? := by
      intro d hx p he
      obtain ⟨y, ys, rfl⟩ : ∃ y ys, xs = y :: ys := by
        rcases xs with _ | ⟨y, ys⟩
        · simp only [knotRdatasetMerge] at he
          rw [List.head?_eq_none_iff.mp he] at hx
          cases hx
        · exact ⟨y, ys, rfl⟩
      have hle := head_le_of_mem (knotRdatasetMerge p d (y :: ys)).2.sorted he
        (mem_knotRdatasetMerge hx)
      exact absurd ((List.sorted_cons.mp hs).1 y (List.mem_cons_self _ _)) (not_lt.mpr hle)
    simp only [knotRdatasetMerge]
    split
    · exact (ih hxs).resolve_right (notTail dst ‹_› pool) |> .inl
    · split
      · exact .inl rfl
      · rcases @ih _ (dst.add x) hxs with h | h
        · rcases @head?_rdataInsert x dst.rdata with h' | h'
          · exact .inr (h.trans h')
          · exact .inl (h.trans h')
        · exact absurd h (notTail (dst.add x) (mem_rdataInsert.mpr (.inl rfl)) _)

end Merge

/-- `knot_rrset_t`, with the fields the modelled code reads: owner, type, class and records. -/
structure Rrset where
  owner : Dname
  type : UInt16
  rclass : UInt16
  rrs : Rdataset

/-- `KNOT_RRTYPE_RRSIG`. -/
def KNOT_RRTYPE_RRSIG : UInt16 := 46

/-- `knot_rrsig_type_covered(rr->rrs.rdata)`: the type covered by the set's first record; a set
without records has none. -/
def Rrset.coveredFirst (rr : Rrset) : Option UInt16 := rr.rrs.rdata.head?.map knotRrsigTypeCovered

end KnotResolver
