import KnotResolver.Defines
import KnotResolver.Wire.Dname

/-! `knot_dname_lf2wire` of `lib/utils.c`: a name's lookup form back to its wire form.  The
function walks the lookup form from its end, one label at a time, and scans back from the zero
byte after each label to the zero byte before it.  The final zero byte may be left out; `++len`
then adds it back, in the `uint8_t` length.

The lookup form of a valid name, with or without its final zero byte, gives back the name's wire
form.  Every output is the wire form of a name whose lookup form is the input, with or without its
final zero byte, and every failure is `EILSEQ`.  Nothing bounds the output by `KNOT_DNAME_MAXLEN`:
254 bytes of input can give a 256-byte name. -/

namespace KnotResolver

/-- The inner scan: from the zero byte at `labelEnd` back over the label's bytes, to the index
just after the zero byte before the label, or to 0. -/
def labelStart (lf : List UInt8) : Nat → Nat
  | 0 => 0
  | i + 1 => if lf.getD i 0 = 0 then i + 1 else labelStart lf i

/-- The outer loop, with `label_end = p - 1`: the labels it writes, each after its length byte,
or `kr_error(EILSEQ)` at a label of no byte or of more than 63.  Every iteration lowers `p`, so
`p` of `fuel` is enough. -/
def lf2wireLoop (lf : List UInt8) : (fuel p : Nat) → Except Int (List UInt8)
  | _, 0 => .ok []
  | 0, _ + 1 => .ok []
  | fuel + 1, labelEnd + 1 =>
    let start := labelStart lf labelEnd
    let labelLen := labelEnd - start
    if 63 < labelLen ∨ labelLen = 0 then .error (krError EILSEQ)
    else (lf2wireLoop lf fuel start).map fun rest =>
      UInt8.ofNat labelLen :: ((List.range' start labelLen).map (lf.getD · 0) ++ rest)

/-- `knot_dname_lf2wire(dst, len, lf)`: the bytes it writes to `dst`, whose number it returns, or
its error.  The `uint8_t` `len` wraps at `++len`. -/
def knotDnameLf2wire (len : UInt8) (lf : List UInt8) : Except Int (List UInt8) :=
  if len = 0 then .ok [0]
  else
    let len := if lf.getD (len.toNat - 1) 0 ≠ 0 then len + 1 else len
    (lf2wireLoop lf len.toNat len.toNat).map (· ++ [0])

/-! ### The inner scan -/

section LabelStart

variable {lf lf' : List UInt8}

theorem labelStart_le (lf : List UInt8) (e : Nat) : labelStart lf e ≤ e := by
  induction e with
  | zero => rfl
  | succ i ih => simp only [labelStart]; split <;> omega

/-- The bytes the scan passes over are not zero. -/
theorem getD_ne_zero_of_labelStart_le {e i : Nat} (hs : labelStart lf e ≤ i) (hi : i < e) :
    lf.getD i 0 ≠ 0 := by
  induction e with
  | zero => omega
  | succ k ih =>
    simp only [labelStart] at hs
    split at hs
    · omega
    · rcases Nat.lt_succ_iff_lt_or_eq.mp hi with hk | rfl
      · exact ih hs hk
      · assumption

/-- The scan stops at the start of `lf` or just after a zero byte. -/
theorem labelStart_stop (e : Nat) :
    labelStart lf e = 0 ∨ lf.getD (labelStart lf e - 1) 0 = 0 := by
  induction e with
  | zero => exact .inl rfl
  | succ i ih =>
    simp only [labelStart]
    split
    · exact .inr ‹_›
    · exact ih

/-- The scan reads only the bytes before `labelEnd`. -/
theorem labelStart_congr {e : Nat} (h : ∀ i < e, lf.getD i 0 = lf'.getD i 0) :
    labelStart lf e = labelStart lf' e := by
  induction e with
  | zero => rfl
  | succ i ih =>
    simp only [labelStart, h i (by omega), ih fun j hj => h j (by omega)]

/-- Over `k` nonzero bytes after a zero byte (or from the start), the scan goes back to their
first. -/
theorem labelStart_add {s k : Nat} (hstop : s = 0 ∨ lf.getD (s - 1) 0 = 0)
    (hne : ∀ j < k, lf.getD (s + j) 0 ≠ 0) : labelStart lf (s + k) = s := by
  induction k with
  | zero =>
    rcases s with _ | s
    · rfl
    · simp only [labelStart, Nat.add_zero]
      rw [if_pos (by simpa using hstop)]
  | succ k ih =>
    rw [← Nat.add_assoc, labelStart, if_neg (hne k (by omega)), ih fun j hj => hne j (by omega)]

end LabelStart

theorem getD_append_add (a b : List UInt8) (j : Nat) : (a ++ b).getD (a.length + j) 0 = b.getD j 0 := by
  simp [List.getD_eq_getElem?_getD, List.getElem?_append_right]

/-- The bytes `s` to `s + k - 1` of `lf`, read one by one, where `lf` has `b` from `s` on. -/
theorem map_range'_getD (a b : List UInt8) (k : Nat) (hk : k ≤ b.length) :
    (List.range' a.length k).map ((a ++ b).getD · 0) = b.take k := by
  apply List.ext_getElem (by simp; omega)
  intro i h1 h2
  have hi : i < b.length := by simp at h1; omega
  simp [List.getElem_range', getD_append_add, List.getD_eq_getElem?_getD, hi,
    List.getElem_append_right]

/-! ### The outer loop -/

section Loop

variable {lf lf' : List UInt8}

/-- The loop reads only the bytes before `label_end`. -/
theorem lf2wireLoop_congr (lf' : List UInt8) {fuel p : Nat} (h : ∀ i, i + 1 < p → lf.getD i 0 = lf'.getD i 0) :
    lf2wireLoop lf fuel p = lf2wireLoop lf' fuel p := by
  induction fuel generalizing p with
  | zero => cases p <;> rfl
  | succ fuel ih =>
    rcases p with _ | e
    · rfl
    have hs : labelStart lf e = labelStart lf' e := labelStart_congr fun i hi => h i (by omega)
    have hb : (List.range' (labelStart lf' e) (e - labelStart lf' e)).map (lf.getD · 0) =
        (List.range' (labelStart lf' e) (e - labelStart lf' e)).map (lf'.getD · 0) :=
      List.map_congr_left fun i hi => h i (by rw [List.mem_range'] at hi; omega)
    have hle := labelStart_le lf' e
    simp only [lf2wireLoop, hs, hb]
    rw [ih fun i hi => h i (by omega)]

/-- The loop fails only with `kr_error(EILSEQ)`. -/
theorem lf2wireLoop_error {fuel p : Nat} {x : Int} (h : lf2wireLoop lf fuel p = .error x) :
    x = krError EILSEQ := by
  induction fuel generalizing p with
  | zero => cases p <;> cases h
  | succ fuel ih =>
    rcases p with _ | e
    · cases h
    simp only [lf2wireLoop] at h
    split at h
    · exact (Except.error.inj h).symm
    · cases hr : lf2wireLoop lf fuel (labelStart lf e) <;> simp [hr, Except.map] at h
      exact ih (h ▸ hr)

/-- Over the lookup form of a name, followed by any bytes, the loop writes the name's wire form
without its final zero byte. -/
theorem lf2wireLoop_lf {N : Dname} (hl : N.LabelLengths) (hs : N.LfSafe) (rest : List UInt8)
    {fuel : Nat} (hf : N.lf.length ≤ fuel) :
    lf2wireLoop (N.lf ++ rest) fuel N.lf.length = .ok N.toWire.dropLast := by
  induction N generalizing rest fuel with
  | nil => cases fuel <;> rfl
  | cons l ls ih =>
    obtain ⟨hl0, hl63⟩ := hl l (List.mem_cons_self l ls)
    have hz : (0 : UInt8) ∉ l := hs l (List.mem_cons_self l ls)
    have hrest : Dname.lf (l :: ls) ++ rest = (Dname.lf ls) ++ (l ++ 0 :: rest) := by simp
    obtain ⟨fuel, rfl⟩ : ∃ f, fuel = f + 1 := ⟨fuel - 1, by simp at hf; omega⟩
    have hlen : (Dname.lf (l :: ls)).length = (Dname.lf ls).length + l.length + 1 := by simp; omega
    have hne : ∀ j < l.length, ((Dname.lf ls) ++ (l ++ 0 :: rest)).getD ((Dname.lf ls).length + j) 0 ≠ 0 := by
      intro j hj h0
      rw [getD_append_add, List.getD_eq_getElem?_getD, List.getElem?_append_left hj,
        List.getElem?_eq_getElem hj, Option.getD_some] at h0
      exact hz (h0 ▸ List.getElem_mem hj)
    have hstop : (Dname.lf ls).length = 0 ∨ ((Dname.lf ls) ++ (l ++ 0 :: rest)).getD ((Dname.lf ls).length - 1) 0 = 0 := by
      rcases ls with _ | ⟨l', ls'⟩
      · exact .inl rfl
      · refine .inr ?_
        have hlast := Dname.getLast_lf l' ls'
        rw [List.getLast?_eq_getElem?] at hlast
        have hpos : Dname.lf (l' :: ls') ≠ [] := by simp
        have hlt : (Dname.lf (l' :: ls')).length - 1 < (Dname.lf (l' :: ls')).length := by
          have := List.length_pos.mpr hpos; omega
        rw [List.getD_eq_getElem?_getD, List.getElem?_append_left hlt, hlast]
        rfl
    rw [hlen, hrest, lf2wireLoop, labelStart_add hstop hne, Nat.add_sub_cancel_left,
      if_neg (by omega), map_range'_getD _ _ _ (by simp),
      ih hl.tail hs.tail _ (by simp at hf; omega),
      Dname.dropLast_toWire_cons]
    simp [Except.map]

/-- `lf` up to a zero byte at `s + k`, past `k` bytes read one by one from `s`. -/
theorem take_append_range'_getD {s k : Nat} (h : s + k < lf.length) :
    lf.take s ++ ((List.range' s k).map (lf.getD · 0) ++ [lf.getD (s + k) 0]) =
      lf.take (s + k + 1) := by
  have hs : (lf.take s).length = s := by simp; omega
  have hbytes := map_range'_getD (lf.take s) (lf.drop s) k (by simp; omega)
  rw [hs, List.take_append_drop] at hbytes
  have hlast : (lf.drop s)[k]? = some (lf.getD (s + k) 0) := by
    simp [List.getD_eq_getElem?_getD, List.getElem?_eq_getElem h]
  rw [hbytes, Nat.add_assoc, List.take_add, List.take_succ, hlast]
  rfl

/-- What the loop writes, from a zero byte at `p - 1` (or from `p = 0`), is the wire form, without
its final zero byte, of a name whose lookup form is the first `p` bytes of `lf`. -/
theorem lf2wireLoop_sound {fuel p : Nat} {w : List UInt8} (hf : p ≤ fuel) (hp : p ≤ lf.length)
    (hstop : p = 0 ∨ lf.getD (p - 1) 0 = 0) (h : lf2wireLoop lf fuel p = .ok w) :
    ∃ N : Dname, N.LabelLengths ∧ N.LfSafe ∧ N.lf = lf.take p ∧ w = N.toWire.dropLast := by
  induction fuel generalizing p w with
  | zero =>
    obtain rfl : p = 0 := by omega
    cases h
    exact ⟨[], by decide, by decide, rfl, rfl⟩
  | succ fuel ih =>
    rcases p with _ | e
    · cases h
      exact ⟨[], by decide, by decide, rfl, rfl⟩
    have hle := labelStart_le lf e
    simp only [lf2wireLoop] at h
    split at h
    · cases h
    rename_i hlen
    cases hr : lf2wireLoop lf fuel (labelStart lf e) with
    | error x => simp [hr, Except.map] at h
    | ok w' =>
      simp only [hr, Except.map, Except.ok.injEq] at h
      obtain ⟨N, hl, hs, hN, rfl⟩ :=
        ih (by omega) (by omega) ((labelStart_stop e).imp_right id) hr
      refine ⟨(List.range' (labelStart lf e) (e - labelStart lf e)).map (lf.getD · 0) :: N,
        ?_, ?_, ?_, ?_⟩
      · intro l hl'
        rcases List.mem_cons.mp hl' with rfl | hl'
        · simp; omega
        · exact hl l hl'
      · intro l hl' hz
        rcases List.mem_cons.mp hl' with rfl | hl'
        · obtain ⟨i, hi, hz⟩ := List.mem_map.mp hz
          rw [List.mem_range'] at hi
          obtain ⟨j, hj, rfl⟩ := hi
          exact getD_ne_zero_of_labelStart_le (show labelStart lf e ≤ _ by omega)
            (show _ < e by omega) hz
        · exact hs l hl' hz
      · have hz : lf.getD e 0 = 0 := by simpa using hstop
        have key := take_append_range'_getD
          (show labelStart lf e + (e - labelStart lf e) < lf.length by omega)
        rw [Nat.add_sub_cancel' hle, hz] at key
        rw [Dname.lf_cons, hN, key]
      · rw [← h, Dname.dropLast_toWire_cons]
        simp

end Loop

/-! ### The function -/

section Lf2wire

variable {lf : List UInt8}

theorem toNat_ofNat_length (h : lf.length ≤ 255) : (UInt8.ofNat lf.length).toNat = lf.length :=
  UInt8.toNat_ofNat_of_lt (by unfold UInt8.size; omega)

/-- With its final zero byte, `lf` goes through the loop from that byte. -/
theorem knotDnameLf2wire_zero_end (h0 : 0 < lf.length) (h : lf.length ≤ 255)
    (hlast : lf.getD (lf.length - 1) 0 = 0) :
    knotDnameLf2wire (UInt8.ofNat lf.length) lf =
      (lf2wireLoop lf lf.length lf.length).map (· ++ [0]) := by
  have hn := toNat_ofNat_length h
  have hne : UInt8.ofNat lf.length ≠ 0 := fun h' => by
    rw [h'] at hn; simp at hn; omega
  simp only [knotDnameLf2wire, if_neg hne, hn, hlast, ne_eq, not_true_eq_false, if_false]

/-- Without its final zero byte, `lf` goes through the loop from the zero byte that `++len` puts
after it. -/
theorem knotDnameLf2wire_nonzero_end (h0 : 0 < lf.length) (h : lf.length < 255)
    (hlast : lf.getD (lf.length - 1) 0 ≠ 0) :
    knotDnameLf2wire (UInt8.ofNat lf.length) lf =
      (lf2wireLoop lf (lf.length + 1) (lf.length + 1)).map (· ++ [0]) := by
  have hn := toNat_ofNat_length (Nat.le_of_lt h)
  have hne : UInt8.ofNat lf.length ≠ 0 := fun h' => by
    rw [h'] at hn; simp at hn; omega
  have h1 : (UInt8.ofNat lf.length + 1).toNat = lf.length + 1 := by
    have : (UInt8.ofNat lf.length + 1).toNat = ((UInt8.ofNat lf.length).toNat + 1) % 256 := rfl
    rw [this, hn]; exact Nat.mod_eq_of_lt (by omega)
  simp only [knotDnameLf2wire, if_neg hne, hn, ne_eq, hlast, not_false_eq_true, if_true, h1]

theorem getD_dropLast {i : Nat} (h : i < lf.length - 1) : lf.dropLast.getD i 0 = lf.getD i 0 := by
  rw [List.getD_eq_getElem?_getD, List.getD_eq_getElem?_getD, List.getElem?_dropLast, if_pos h]

/-- The lookup form of a name of at most 255 bytes, with labels of 1 to 63 bytes and no zero
byte, gives back the name's wire form, and so does that form without its final zero byte. -/
theorem knotDnameLf2wire_lf_of_le {N : Dname} (hl : N.LabelLengths) (hs : N.LfSafe)
    (h : N.lf.length ≤ 255) :
    knotDnameLf2wire (UInt8.ofNat N.lf.length) N.lf = .ok N.toWire ∧
      knotDnameLf2wire (UInt8.ofNat N.lf.dropLast.length) N.lf.dropLast = .ok N.toWire := by
  rcases N with _ | ⟨l, ls⟩
  · exact ⟨rfl, rfl⟩
  obtain ⟨hl0, -⟩ := hl l (List.mem_cons_self l ls)
  have hlen : (Dname.lf (l :: ls)).length = (Dname.lf ls).length + l.length + 1 := by simp; omega
  have hloop := lf2wireLoop_lf hl hs [] (le_refl _)
  rw [List.append_nil] at hloop
  have hend : (Dname.lf (l :: ls)).getD ((Dname.lf (l :: ls)).length - 1) 0 = 0 := by
    rw [List.getD_eq_getElem?_getD, ← List.getLast?_eq_getElem?, Dname.getLast_lf]
    rfl
  have hwire : Except.map (· ++ [0]) (Except.ok (Dname.toWire (l :: ls)).dropLast) =
      (.ok (Dname.toWire (l :: ls)) : Except Int _) := by
    simp only [Except.map]; rw [← Dname.toWire_eq_dropLast_append]
  refine ⟨by rw [knotDnameLf2wire_zero_end (by omega) h hend, hloop, hwire], ?_⟩
  have hlen' : (Dname.lf (l :: ls)).dropLast.length + 1 = (Dname.lf (l :: ls)).length := by
    simp; omega
  have hlast : (Dname.lf (l :: ls)).dropLast.getD
      ((Dname.lf (l :: ls)).dropLast.length - 1) 0 ≠ 0 := by
    rw [getD_dropLast (by omega)]
    have hi : (Dname.lf (l :: ls)).dropLast.length - 1 = (Dname.lf ls).length + (l.length - 1) := by
      simp; omega
    rw [hi, Dname.lf_cons, getD_append_add, List.getD_eq_getElem?_getD,
      List.getElem?_append_left (by omega), List.getElem?_eq_getElem (by omega), Option.getD_some]
    exact fun h0 => hs l (List.mem_cons_self l ls) (h0 ▸ List.getElem_mem _)
  rw [knotDnameLf2wire_nonzero_end (by omega) (by omega) hlast, hlen',
    lf2wireLoop_congr (Dname.lf (l :: ls)) fun i hi => getD_dropLast (by omega), hloop, hwire]

/-- The lookup form of a valid name whose labels hold no zero byte, and the same form without its
final zero byte, both give back the name's wire form, whose length the function returns. -/
theorem knotDnameLf2wire_lf {N : Dname} (hv : N.Valid) (hs : N.LfSafe) :
    knotDnameLf2wire (UInt8.ofNat N.lf.length) N.lf = .ok N.toWire ∧
      knotDnameLf2wire (UInt8.ofNat N.lf.dropLast.length) N.lf.dropLast = .ok N.toWire :=
  knotDnameLf2wire_lf_of_le hv.1 hs (by have := Dname.length_toWire N; have := hv.2; omega)

theorem knotDnameLf2wire_lf_example :
    (Dname.Valid [[97], [99, 122]] ∧ Dname.LfSafe [[97], [99, 122]]) ∧
      knotDnameLf2wire (UInt8.ofNat (Dname.lf [[97], [99, 122]]).length) (Dname.lf [[97], [99, 122]]) =
          .ok (Dname.toWire [[97], [99, 122]]) ∧
        knotDnameLf2wire (UInt8.ofNat (Dname.lf [[97], [99, 122]]).dropLast.length)
            (Dname.lf [[97], [99, 122]]).dropLast = .ok (Dname.toWire [[97], [99, 122]]) :=
  ⟨⟨by decide, by decide⟩, knotDnameLf2wire_lf (by decide) (by decide)⟩

/-- Every output of the function, from an input of at most 255 bytes other than 255 bytes without
a final zero byte, is the wire form of a name with labels of 1 to 63 bytes and no zero byte, whose
lookup form is the input with or without its final zero byte; every failure is `EILSEQ`. -/
theorem knotDnameLf2wire_sound (hlen : lf.length ≤ 255)
    (hwrap : lf.length < 255 ∨ lf.getLast? = some 0) :
    (∃ N : Dname, N.LabelLengths ∧ N.LfSafe ∧ (N.lf = lf ∨ N.lf = lf ++ [0]) ∧
      knotDnameLf2wire (UInt8.ofNat lf.length) lf = .ok N.toWire) ∨
    knotDnameLf2wire (UInt8.ofNat lf.length) lf = .error (krError EILSEQ) := by
  rcases Nat.eq_zero_or_pos lf.length with h0 | h0
  · rw [List.length_eq_zero.mp h0]
    exact .inl ⟨[], by decide, by decide, .inl rfl, rfl⟩
  -- the loop over `lf'`, which ends in a zero byte, decides the result
  have key : ∀ lf' : List UInt8, lf'.getD (lf'.length - 1) 0 = 0 → 0 < lf'.length →
      (lf' = lf ∨ lf' = lf ++ [0]) →
      knotDnameLf2wire (UInt8.ofNat lf.length) lf =
        (lf2wireLoop lf' lf'.length lf'.length).map (· ++ [0]) →
      (∃ N : Dname, N.LabelLengths ∧ N.LfSafe ∧ (N.lf = lf ∨ N.lf = lf ++ [0]) ∧
        knotDnameLf2wire (UInt8.ofNat lf.length) lf = .ok N.toWire) ∨
      knotDnameLf2wire (UInt8.ofNat lf.length) lf = .error (krError EILSEQ) := by
    intro lf' hz hpos hlf' hres
    cases hr : lf2wireLoop lf' lf'.length lf'.length with
    | error x =>
      right
      rw [hres, hr, lf2wireLoop_error hr]
      rfl
    | ok w =>
      obtain ⟨N, hl, hs, hN, rfl⟩ :=
        lf2wireLoop_sound (le_refl _) (le_refl _) (.inr hz) hr
      rw [List.take_length] at hN
      refine .inl ⟨N, hl, hs, hN ▸ hlf', ?_⟩
      rw [hres, hr]
      simp only [Except.map]
      rw [← Dname.toWire_eq_dropLast_append]
  by_cases hlast : lf.getD (lf.length - 1) 0 = 0
  · exact key lf hlast h0 (.inl rfl) (knotDnameLf2wire_zero_end h0 hlen hlast)
  · have hlt : lf.length < 255 := by
      refine hwrap.resolve_right fun h => hlast ?_
      rw [List.getD_eq_getElem?_getD, ← List.getLast?_eq_getElem?, h]
      rfl
    have hz : (lf ++ [0]).getD ((lf ++ [0]).length - 1) 0 = 0 := by simp
    refine key (lf ++ [0]) hz (by simp) (.inr rfl) ?_
    rw [knotDnameLf2wire_nonzero_end h0 hlt hlast, List.length_append, List.length_singleton,
      lf2wireLoop_congr (lf ++ [0]) fun i hi => ?_]
    rw [List.getD_eq_getElem?_getD, List.getD_eq_getElem?_getD,
      List.getElem?_append_left (by omega)]

/-- `cz`, a zero byte and `a`: the lookup form of `a.cz.` without its final zero byte, written back
label by label in the other order. -/
theorem knotDnameLf2wire_sound_example :
    (([99, 122, 0, 97] : List UInt8).length ≤ 255 ∧
      (([99, 122, 0, 97] : List UInt8).length < 255 ∨
        ([99, 122, 0, 97] : List UInt8).getLast? = some 0)) ∧
    knotDnameLf2wire 4 [99, 122, 0, 97] = .ok [1, 97, 2, 99, 122, 0] ∧
    ((∃ N : Dname, N.LabelLengths ∧ N.LfSafe ∧
        (N.lf = [99, 122, 0, 97] ∨ N.lf = [99, 122, 0, 97] ++ [0]) ∧
        knotDnameLf2wire (UInt8.ofNat ([99, 122, 0, 97] : List UInt8).length) [99, 122, 0, 97] =
          .ok N.toWire) ∨
      knotDnameLf2wire (UInt8.ofNat ([99, 122, 0, 97] : List UInt8).length) [99, 122, 0, 97] =
        .error (krError EILSEQ)) :=
  ⟨⟨by decide, by decide⟩, rfl, knotDnameLf2wire_sound (by decide) (by decide)⟩

end Lf2wire

/-- Four labels of 63, 63, 63 and 62 bytes: a name whose wire form has 256 bytes, one more than
`KNOT_DNAME_MAXLEN`. -/
def overlongName : Dname :=
  [List.replicate 63 97, List.replicate 63 97, List.replicate 63 97, List.replicate 62 97]

/-- 254 bytes of lookup form, without the final zero byte, give the 256-byte wire form of
`overlongName`. -/
theorem knotDnameLf2wire_overlong :
    knotDnameLf2wire 254 overlongName.lf.dropLast = .ok overlongName.toWire ∧
      overlongName.toWire.length = 256 :=
  have hl : overlongName.LabelLengths := by simp [overlongName, Dname.LabelLengths]
  have hs : overlongName.LfSafe := by simp [overlongName, Dname.LfSafe, List.mem_replicate]
  have hlen : overlongName.lf.length = 255 := by
    simp only [Dname.length_lf, overlongName, List.map, List.length_replicate, List.sum_cons,
      List.sum_nil]
    rfl
  have h254 : UInt8.ofNat overlongName.lf.dropLast.length = 254 := by
    rw [List.length_dropLast, hlen]; rfl
  ⟨h254 ▸ (knotDnameLf2wire_lf_of_le hl hs hlen.le).2, by
    rw [Dname.length_toWire, hlen]⟩

end KnotResolver
