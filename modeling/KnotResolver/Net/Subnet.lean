import Mathlib.Algebra.Order.Ring.Nat
import Mathlib.Data.Nat.Bitwise
import Mathlib.Data.Nat.Find
import Mathlib.Tactic.IntervalCases
import KnotResolver.Text.Straddr

/-! The subnets of `lib/utils.c`: `kr_bitcmp` compares two addresses on their first `bits` bits,
and `kr_straddr_subnet` reads an `addr/bits` text.  `memcmp` is a parameter that meets the C
standard's contract and no more.

`kr_bitcmp` is the lexicographic order of the two bit strings (`krBitcmp_prefix`).  Its last,
partial byte is read as a `char`, which the target ABI signs, and shifted as an `int`: a byte
with its top bit set shifts in ones, but cut to `uint8_t` it still lands above every byte without
it, so the order of the top bits is kept (`uint8OfInt_charOfByte_shiftRight`).

`kr_straddr_subnet` fails only with `kr_error(ERANGE)`, and returns a bit length for more texts
than `addr/bits` with a numeral (`krStraddrSubnet_spec`): whatever `inet_pton` makes of the
address, whatever `strtol` leaves unread after the bits, and a bit length that `long` to `int`
brings into range. -/

namespace KnotResolver

/-! ### Bits of a byte -/

theorem toNat_lt_256 (c : UInt8) : c.toNat < 256 := c.val.isLt

/-- A byte has no bit from the eighth on. -/
theorem testBit_byte_high {z j : Nat} (hz : z < 256) (hj : 8 ≤ j) : z.testBit j = false :=
  Nat.testBit_lt_two_pow (lt_of_lt_of_le hz (Nat.pow_le_pow_right (by norm_num : 0 < 2) hj))

/-- The top `r` bits of two bytes agree exactly when the bytes shifted down to them do. -/
theorem shiftRight_eq_iff {x y r : Nat} (hx : x < 256) (hy : y < 256) (hr : r ≤ 8) :
    x >>> (8 - r) = y >>> (8 - r) ↔ ∀ t, t < r → x.testBit (7 - t) = y.testBit (7 - t) := by
  constructor
  · intro h t ht
    have := congrArg (fun z => z.testBit (r - 1 - t)) h
    simp only [Nat.testBit_shiftRight] at this
    rwa [show 8 - r + (r - 1 - t) = 7 - t by omega] at this
  · intro h
    apply Nat.eq_of_testBit_eq
    intro j
    rw [Nat.testBit_shiftRight, Nat.testBit_shiftRight]
    by_cases hj : 8 - r + j < 8
    · have := h (r - 1 - j) (by omega)
      rwa [show 7 - (r - 1 - j) = 8 - r + j by omega] at this
    · rw [testBit_byte_high hx (by omega), testBit_byte_high hy (by omega)]

/-- At the first of the top `r` bits where two bytes differ, the one whose bit is clear is the
smaller once shifted down to them. -/
theorem shiftRight_lt_iff {x y r t : Nat} (hx : x < 256) (hy : y < 256) (hr : r ≤ 8) (ht : t < r)
    (hne : x.testBit (7 - t) ≠ y.testBit (7 - t))
    (hbefore : ∀ t', t' < t → x.testBit (7 - t') = y.testBit (7 - t')) :
    x >>> (8 - r) < y >>> (8 - r) ↔ x.testBit (7 - t) = false := by
  -- above the differing bit, the shifted bytes agree
  have habove : ∀ j, r - 1 - t < j → (x >>> (8 - r)).testBit j = (y >>> (8 - r)).testBit j := by
    intro j hj
    rw [Nat.testBit_shiftRight, Nat.testBit_shiftRight]
    by_cases h8 : 8 - r + j < 8
    · have := hbefore (7 - (8 - r + j)) (by omega)
      rwa [show 7 - (7 - (8 - r + j)) = 8 - r + j by omega] at this
    · rw [testBit_byte_high hx (by omega), testBit_byte_high hy (by omega)]
  have hbit : ∀ z, (z >>> (8 - r)).testBit (r - 1 - t) = z.testBit (7 - t) := fun z => by
    rw [Nat.testBit_shiftRight, show 8 - r + (r - 1 - t) = 7 - t by omega]
  constructor
  · intro hlt
    by_contra hxt
    rw [Bool.not_eq_false] at hxt
    have hyt : y.testBit (7 - t) = false := by simpa [hxt] using hne.symm
    exact absurd hlt (not_lt.mpr (le_of_lt (Nat.lt_of_testBit _ ((hbit y).trans hyt)
      ((hbit x).trans hxt) fun j hj => (habove j hj).symm)))
  · intro hxt
    have hyt : y.testBit (7 - t) = true := by simpa [hxt] using hne.symm
    exact Nat.lt_of_testBit _ ((hbit x).trans hxt) ((hbit y).trans hyt) habove

/-! ### `memcmp` -/

/-- `memcmp(a, b, n)` of the C library, with what the C standard asks of it: 0 for `n` equal
bytes, and otherwise a number with the sign of the first two bytes that differ, read as
`unsigned char`. -/
structure Memcmp where
  run : List UInt8 → List UInt8 → Nat → Int
  eq_zero : ∀ a b n, (∀ i, i < n → a.getD i 0 = b.getD i 0) → run a b n = 0
  sign : ∀ a b n i, i < n → (∀ j, j < i → a.getD j 0 = b.getD j 0) → a.getD i 0 ≠ b.getD i 0 →
    (run a b n < 0 ↔ a.getD i 0 < b.getD i 0) ∧ (0 < run a b n ↔ b.getD i 0 < a.getD i 0)

/-- A `memcmp` that returns the difference of the first two bytes that differ, from byte `i` on. -/
def memcmpFrom (a b : List UInt8) (i : Nat) : Nat → Int
  | 0 => 0
  | n + 1 =>
    if a.getD i 0 = b.getD i 0 then memcmpFrom a b (i + 1) n
    else (a.getD i 0).toNat - (b.getD i 0).toNat

section MemcmpFrom

variable {a b : List UInt8}

theorem memcmpFrom_eq_zero : ∀ {i n : Nat}, (∀ j, i ≤ j → j < i + n → a.getD j 0 = b.getD j 0) →
    memcmpFrom a b i n = 0
  | _, 0, _ => rfl
  | i, n + 1, h => by
    rw [memcmpFrom, if_pos (h i le_rfl (by omega))]
    exact memcmpFrom_eq_zero fun j h1 h2 => h j (by omega) (by omega)

theorem memcmpFrom_eq_sub {d : Nat} (hne : a.getD d 0 ≠ b.getD d 0) :
    ∀ {i n : Nat}, i ≤ d → d < i + n → (∀ j, i ≤ j → j < d → a.getD j 0 = b.getD j 0) →
      memcmpFrom a b i n = (a.getD d 0).toNat - (b.getD d 0).toNat
  | _, 0, h1, h2, _ => by omega
  | i, n + 1, h1, h2, h => by
    rw [memcmpFrom]
    split
    · rename_i heq
      exact memcmpFrom_eq_sub hne (Nat.lt_of_le_of_ne h1 fun hid => hne (hid ▸ heq)) (by omega)
        fun j hj1 hj2 => h j (by omega) hj2
    · rename_i hi
      rcases Nat.lt_or_eq_of_le h1 with h1 | rfl
      · exact absurd (h i le_rfl h1) hi
      · rfl

end MemcmpFrom

/-- The `memcmp` of `memcmpFrom`, which meets the standard's contract. -/
def memcmpDiff : Memcmp where
  run a b n := memcmpFrom a b 0 n
  eq_zero _ _ _ h := memcmpFrom_eq_zero fun j _ hj => h j (by omega)
  sign a b n i hi hbefore hne := by
    have hne' : (a.getD i 0).toNat ≠ (b.getD i 0).toNat := fun h => hne (UInt8.toNat.inj h)
    show (memcmpFrom a b 0 n < 0 ↔ (a.getD i 0).toNat < (b.getD i 0).toNat) ∧
      (0 < memcmpFrom a b 0 n ↔ (b.getD i 0).toNat < (a.getD i 0).toNat)
    rw [memcmpFrom_eq_sub hne (Nat.zero_le i) (by omega) fun j _ hj => hbefore j hj]
    omega

/-! ### `kr_bitcmp` -/

/-- Bit `k` of a byte string, each byte read from its most significant bit. -/
def bitAt (a : List UInt8) (k : Nat) : Bool := (a.getD (k / 8) 0).toNat.testBit (7 - k % 8)

/-- A byte read as `char`, which is signed on the target ABI. -/
def charOfByte (c : UInt8) : Int := if c.toNat < 128 then c.toNat else (c.toNat : Int) - 256

/-- `(uint8_t)v` of an `int`. -/
def uint8OfInt (v : Int) : Int := v % 256

/-- A byte read as `char`, shifted down by `8 - r` and cut to `uint8_t`: its top `r` bits, with
the sign bit copied into the bits above them. -/
theorem uint8OfInt_charOfByte_shiftRight_eq (x : UInt8) {r : Nat} (hr1 : 1 ≤ r) (hr : r ≤ 7) :
    uint8OfInt (charOfByte x >>> (8 - r)) =
      if x.toNat < 128 then ((x.toNat >>> (8 - r) : Nat) : Int)
      else ((x.toNat >>> (8 - r) : Nat) : Int) + 256 - 2 ^ r := by
  have hx := toNat_lt_256 x
  simp only [charOfByte, uint8OfInt, Int.shiftRight_eq_div_pow, Nat.shiftRight_eq_div_pow]
  interval_cases r <;> split_ifs <;> omega

/-- The low byte of a byte read as `char` and shifted down by `8 - r` is, as a function of the
byte's top `r` bits, increasing: the sign bit the shift copies in moves a negative `char` above
every positive one. -/
theorem uint8OfInt_charOfByte_shiftRight (x y : UInt8) {r : Nat} (hr1 : 1 ≤ r) (hr : r ≤ 7) :
    (uint8OfInt (charOfByte x >>> (8 - r)) = uint8OfInt (charOfByte y >>> (8 - r)) ↔
      x.toNat >>> (8 - r) = y.toNat >>> (8 - r)) ∧
    (uint8OfInt (charOfByte x >>> (8 - r)) < uint8OfInt (charOfByte y >>> (8 - r)) ↔
      x.toNat >>> (8 - r) < y.toNat >>> (8 - r)) := by
  -- the top `r` bits, and the sign bit among them
  have hsign : ∀ z : UInt8, z.toNat < 128 ↔ z.toNat >>> (8 - r) < 2 ^ (r - 1) := fun z => by
    rw [Nat.shiftRight_eq_div_pow, Nat.div_lt_iff_lt_mul (Nat.two_pow_pos _), ← pow_add,
      show r - 1 + (8 - r) = 7 by omega]
    rfl
  have htop : ∀ z : UInt8, z.toNat >>> (8 - r) < 2 ^ r := fun z => by
    rw [Nat.shiftRight_eq_div_pow, Nat.div_lt_iff_lt_mul (Nat.two_pow_pos _), ← pow_add,
      show r + (8 - r) = 8 by omega]
    exact toNat_lt_256 z
  have hpow : 2 ^ r = 2 * 2 ^ (r - 1) := by
    rw [← pow_succ', show r - 1 + 1 = r by omega]
  have hsmall : 2 ^ (r - 1) ≤ 64 := by
    calc 2 ^ (r - 1) ≤ 2 ^ 6 := Nat.pow_le_pow_right (by norm_num) (by omega)
      _ = 64 := rfl
  rw [uint8OfInt_charOfByte_shiftRight_eq x hr1 hr, uint8OfInt_charOfByte_shiftRight_eq y hr1 hr]
  have := hsign x
  have := hsign y
  have := htop x
  have := htop y
  rw [show (2 : Int) ^ r = ((2 ^ r : Nat) : Int) by push_cast; rfl]
  split_ifs <;> omega

/-- `kr_bitcmp(a, b, bits)`, `none` being `NULL`.  The whole bytes go to `memcmp`; the last,
partial byte of each is read as a `char`, shifted down as an `int` and cut to `uint8_t`. -/
def krBitcmp (memcmp : Memcmp) (a b : Option (List UInt8)) (bits : Int) : Int :=
  if bits ≤ 0 then 0
  else match a, b with
    | none, none => 0
    | none, some _ => -1
    | some _, none => 1
    | some a, some b =>
      let chunk := (bits / 8).toNat
      let ret := memcmp.run a b chunk
      if ret ≠ 0 then ret
      else
        let bits := bits - chunk * 8
        if 0 < bits then
          let shift := (8 - bits).toNat
          uint8OfInt (charOfByte (a.getD chunk 0) >>> shift) -
            uint8OfInt (charOfByte (b.getD chunk 0) >>> shift)
        else ret

/-- `kr_bitcmp` of two arrays and a positive length, with the length's whole bytes and its
remainder named. -/
theorem krBitcmp_natCast (memcmp : Memcmp) (a b : List UInt8) {n : Nat} (hn : 1 ≤ n) :
    krBitcmp memcmp (some a) (some b) n =
      if memcmp.run a b (n / 8) ≠ 0 then memcmp.run a b (n / 8)
      else if 0 < n % 8 then
        uint8OfInt (charOfByte (a.getD (n / 8) 0) >>> (8 - n % 8)) -
          uint8OfInt (charOfByte (b.getD (n / 8) 0) >>> (8 - n % 8))
      else 0 := by
  have hchunk : ((n : Int) / 8).toNat = n / 8 := by omega
  have hrest : (n : Int) - ((n / 8 : Nat) : Int) * 8 = ((n % 8 : Nat) : Int) := by omega
  have hshift : (8 - ((n % 8 : Nat) : Int)).toNat = 8 - n % 8 := by omega
  simp only [krBitcmp, show ¬(n : Int) ≤ 0 by omega, if_false, hchunk, hrest, hshift, Nat.cast_pos]
  split_ifs <;> simp_all

theorem bitAt_eight (a : List UInt8) (i : Nat) {t : Nat} (ht : t < 8) :
    bitAt a (8 * i + t) = (a.getD i 0).toNat.testBit (7 - t) := by
  rw [bitAt, show (8 * i + t) / 8 = i by omega, show (8 * i + t) % 8 = t by omega]

theorem bitAt_congr {a b : List UInt8} {k : Nat} (h : a.getD (k / 8) 0 = b.getD (k / 8) 0) :
    bitAt a k = bitAt b k := by
  rw [bitAt, bitAt, h]

/-- Two bytes are equal exactly when their eight bits are. -/
theorem getD_eq_iff_bitAt {a b : List UInt8} {i : Nat} :
    a.getD i 0 = b.getD i 0 ↔ ∀ t, t < 8 → bitAt a (8 * i + t) = bitAt b (8 * i + t) := by
  have h := shiftRight_eq_iff (toNat_lt_256 (a.getD i 0)) (toNat_lt_256 (b.getD i 0)) (le_refl 8)
  rw [Nat.sub_self, Nat.shiftRight_zero, Nat.shiftRight_zero] at h
  rw [show a.getD i 0 = b.getD i 0 ↔ (a.getD i 0).toNat = (b.getD i 0).toNat from
    ⟨congrArg _, UInt8.toNat.inj⟩, h]
  exact forall₂_congr fun t ht => by rw [bitAt_eight a i ht, bitAt_eight b i ht]

section FirstDiff

variable {a b : List UInt8} {i k : Nat}

/-- A bit that differs lies past the bytes that agree. -/
theorem le_of_bitAt_ne (hbytes : ∀ i', i' < i → a.getD i' 0 = b.getD i' 0)
    (hne : bitAt a k ≠ bitAt b k) : 8 * i ≤ k := by
  by_contra h
  exact hne (bitAt_congr (hbytes (k / 8) (by omega)))

/-- The first bit that differs lies no later than a byte that differs. -/
theorem lt_of_getD_ne (hdiff : a.getD i 0 ≠ b.getD i 0) (hbefore : ∀ j, j < k → bitAt a j = bitAt b j) :
    k < 8 * i + 8 := by
  by_contra h
  exact hdiff (getD_eq_iff_bitAt.mpr fun t ht => hbefore _ (by omega))

/-- At the first bit that differs, within the top `r` bits of byte `i`, the string whose bit is
clear has the smaller byte once shifted down to those bits. -/
theorem shiftRight_lt_iff_bitAt {r : Nat} (hr : r ≤ 8) (hk1 : 8 * i ≤ k) (hk2 : k < 8 * i + r)
    (hne : bitAt a k ≠ bitAt b k) (hbefore : ∀ j, j < k → bitAt a j = bitAt b j) :
    (a.getD i 0).toNat >>> (8 - r) < (b.getD i 0).toNat >>> (8 - r) ↔ bitAt a k = false := by
  obtain ⟨t, rfl⟩ : ∃ t, k = 8 * i + t := ⟨k - 8 * i, by omega⟩
  rw [bitAt_eight a i (by omega), bitAt_eight b i (by omega)] at hne
  rw [bitAt_eight a i (by omega)]
  refine shiftRight_lt_iff (toNat_lt_256 (a.getD i 0)) (toNat_lt_256 (b.getD i 0)) hr (by omega) hne fun t' ht' => ?_
  have := hbefore (8 * i + t') (by omega)
  rwa [bitAt_eight a i (by omega), bitAt_eight b i (by omega)] at this

theorem bool_eq_false_iff_of_ne {x y : Bool} (h : x ≠ y) : y = false ↔ x = true := by
  cases x <;> cases y <;> simp_all

/-- `shiftRight_lt_iff_bitAt` in both orders. -/
theorem shiftRight_cmp_iff_bitAt {r : Nat} (hr : r ≤ 8) (hk1 : 8 * i ≤ k) (hk2 : k < 8 * i + r)
    (hne : bitAt a k ≠ bitAt b k) (hbefore : ∀ j, j < k → bitAt a j = bitAt b j) :
    ((a.getD i 0).toNat >>> (8 - r) < (b.getD i 0).toNat >>> (8 - r) ↔ bitAt a k = false) ∧
      ((b.getD i 0).toNat >>> (8 - r) < (a.getD i 0).toNat >>> (8 - r) ↔ bitAt a k = true) :=
  ⟨shiftRight_lt_iff_bitAt hr hk1 hk2 hne hbefore,
    (shiftRight_lt_iff_bitAt hr hk1 hk2 (Ne.symm hne) fun j hj => (hbefore j hj).symm).trans
      (bool_eq_false_iff_of_ne hne)⟩

end FirstDiff

/-- `kr_bitcmp` compares the first `bits` bits of two arrays that hold them, with `char` signed:
it returns 0 exactly when they agree, and otherwise a number that is negative exactly when the
first bit that differs is clear in `a`, as in the lexicographic order of the two bit strings. -/
theorem krBitcmp_prefix (memcmp : Memcmp) (a b : List UInt8) (bits : Int) (hbits : 1 ≤ bits)
    (_ha : bits ≤ 8 * a.length) (_hb : bits ≤ 8 * b.length) :
    (krBitcmp memcmp (some a) (some b) bits = 0 ↔ ∀ k : Nat, k < bits → bitAt a k = bitAt b k) ∧
    ∀ k : Nat, k < bits → bitAt a k ≠ bitAt b k → (∀ j, j < k → bitAt a j = bitAt b j) →
      (krBitcmp memcmp (some a) (some b) bits < 0 ↔ bitAt a k = false) ∧
      (0 < krBitcmp memcmp (some a) (some b) bits ↔ bitAt a k = true) := by
  obtain ⟨n, rfl⟩ := Int.eq_ofNat_of_zero_le (by omega : (0 : Int) ≤ bits)
  have hn : 1 ≤ n := by exact_mod_cast hbits
  simp only [Nat.cast_lt]
  rw [krBitcmp_natCast memcmp a b hn]
  by_cases hbytes : ∀ i, i < n / 8 → a.getD i 0 = b.getD i 0
  · -- the whole bytes agree: the partial byte decides
    rw [memcmp.eq_zero a b _ hbytes]
    simp only [ne_eq, not_true_eq_false, if_false]
    split_ifs with hr
    · have hprefix : (∀ k, k < n → bitAt a k = bitAt b k) ↔
          ∀ t, t < n % 8 → bitAt a (8 * (n / 8) + t) = bitAt b (8 * (n / 8) + t) := by
        refine ⟨fun h t ht => h _ (by omega), fun h k hk => ?_⟩
        by_cases hk' : k < 8 * (n / 8)
        · exact bitAt_congr (hbytes _ (by omega))
        · simpa [show 8 * (n / 8) + (k - 8 * (n / 8)) = k by omega] using h (k - 8 * (n / 8)) (by omega)
      have hr7 : n % 8 ≤ 7 := by omega
      refine ⟨?_, fun k hk hne hbefore => ?_⟩
      · rw [sub_eq_zero, (uint8OfInt_charOfByte_shiftRight _ _ hr hr7).1, hprefix,
          shiftRight_eq_iff (toNat_lt_256 _) (toNat_lt_256 _) (by omega)]
        exact forall₂_congr fun t ht => by rw [bitAt_eight a _ (by omega), bitAt_eight b _ (by omega)]
      · have hk1 := le_of_bitAt_ne hbytes hne
        have hk2 : k < 8 * (n / 8) + n % 8 := by omega
        rw [sub_neg, sub_pos, (uint8OfInt_charOfByte_shiftRight _ _ hr hr7).2,
          (uint8OfInt_charOfByte_shiftRight _ _ hr hr7).2]
        exact shiftRight_cmp_iff_bitAt (by omega) hk1 hk2 hne hbefore
    · -- no partial byte: the bits compared are those of the whole bytes
      exact ⟨iff_of_true rfl fun k hk => bitAt_congr (hbytes _ (by omega)),
        fun k hk hne _ => absurd (bitAt_congr (hbytes _ (by omega))) hne⟩
  · -- a whole byte differs: `memcmp` decides, at the first one
    push_neg at hbytes
    obtain ⟨hi, hdiff⟩ := Nat.find_spec hbytes
    have hfirst : ∀ j, j < Nat.find hbytes → a.getD j 0 = b.getD j 0 := fun j hj => by
      by_contra h
      exact Nat.find_min hbytes hj ⟨by omega, h⟩
    obtain ⟨hlt, hgt⟩ := memcmp.sign a b (n / 8) _ hi hfirst hdiff
    have hne0 : memcmp.run a b (n / 8) ≠ 0 := by
      rcases Nat.lt_or_gt_of_ne fun h => hdiff (UInt8.toNat.inj h) with h | h
      · exact (hlt.mpr h).ne
      · exact (hgt.mpr h).ne'
    rw [if_pos hne0]
    refine ⟨iff_of_false hne0 fun h => hdiff (getD_eq_iff_bitAt.mpr fun t ht => h _ (by omega)),
      fun k hk hne hbefore => ?_⟩
    have hk1 := le_of_bitAt_ne hfirst hne
    have hk2 := lt_of_getD_ne hdiff hbefore
    have h8 := shiftRight_cmp_iff_bitAt (le_refl 8) hk1 hk2 hne hbefore
    simp only [Nat.sub_self, Nat.shiftRight_zero] at h8
    exact ⟨hlt.trans h8.1, hgt.trans h8.2⟩

/-- `10.0.0.0/3` against `128.0.0.0/3`, whose top bit makes the last byte a negative `char`. -/
theorem krBitcmp_prefix_example :
    (1 : Int) ≤ 3 ∧ (3 : Int) ≤ 8 * [10].length ∧ (3 : Int) ≤ 8 * [128].length ∧
    ((krBitcmp memcmpDiff (some [10]) (some [128]) 3 = 0 ↔
        ∀ k : Nat, (k : Int) < 3 → bitAt [10] k = bitAt [128] k) ∧
      ∀ k : Nat, (k : Int) < 3 → bitAt [10] k ≠ bitAt [128] k →
        (∀ j, j < k → bitAt [10] j = bitAt [128] j) →
        (krBitcmp memcmpDiff (some [10]) (some [128]) 3 < 0 ↔ bitAt [10] k = false) ∧
        (0 < krBitcmp memcmpDiff (some [10]) (some [128]) 3 ↔ bitAt [10] k = true)) :=
  ⟨by decide, by decide, by decide,
    krBitcmp_prefix memcmpDiff [10] [128] 3 (by decide) (by decide) (by decide)⟩

/-! ### `kr_straddr_subnet` -/

/-- The conversion of a `long` to `int`, modulo `2 ^ 32` as GCC does. -/
def intOfLong (v : Int) : Int := (v + 2 ^ 31) % 2 ^ 32 - 2 ^ 31

/-- `max_len` of `kr_straddr_subnet`: the longest prefix of the family. -/
def subnetMaxLen (family : Int) : Int := if family = AF_INET6 then 128 else 32

/-- `kr_straddr_subnet(dst, addr)`: the return code and the bytes `inet_pton` writes to `dst`,
`none` for none.  `strdup` copies the string, whose first `/` is overwritten by a zero byte
before `inet_pton` reads the copy, and `strtol`'s `long` is stored to an `int`. -/
def krStraddrSubnet (addr : List UInt8) : Int × Option (List UInt8) :=
  let family := krStraddrFamily addr
  let addrStr := cString addr ++ [0]
  let parsed : Except Int (Int × List UInt8) :=
    match strchr addrStr 47 with
    | some i =>
      let bitLen := intOfLong (strtol (addrStr.drop (i + 1))).1
      if bitLen < 0 ∨ bitLen > subnetMaxLen family then .error (krError ERANGE)
      else .ok (bitLen, overwrite addrStr i [0])
    | none => .ok (subnetMaxLen family, addrStr)
  match parsed with
  | .error e => (e, none)
  | .ok (bitLen, addrStr) =>
    let (ret, dst) := inetPton family addrStr
    if ret < 0 then (krError EILSEQ, dst) else (bitLen, dst)

/-- `kr_straddr_subnet` reads the text after the first `/`, and leaves to `inet_pton` the text
before it; `inet_pton` never fails with -1 here, the family being IPv4 or IPv6. -/
theorem krStraddrSubnet_eq (addr : List UInt8) :
    krStraddrSubnet addr =
      match strchr addr 47 with
      | none => (subnetMaxLen (krStraddrFamily addr), (inetPton (krStraddrFamily addr) addr).2)
      | some i =>
        if intOfLong (strtol ((cString addr).drop (i + 1))).1 < 0 ∨
            intOfLong (strtol ((cString addr).drop (i + 1))).1 > subnetMaxLen (krStraddrFamily addr)
        then (krError ERANGE, none)
        else (intOfLong (strtol ((cString addr).drop (i + 1))).1,
          (inetPton (krStraddrFamily addr) ((cString addr).take i)).2) := by
  have hpton := inetPton_nonneg (krStraddrFamily_cases addr)
  unfold krStraddrSubnet
  dsimp only
  rw [strchr_cString_append_zero]
  cases hs : strchr addr 47 with
  | none =>
    simp only [not_lt.mpr (hpton _), if_false, inetPton_congr (cString_cString_append_zero addr)]
  | some i =>
    have hi : i < (cString addr).length := lt_strlen_of_strchr hs
    have hdrop : strtol ((cString addr ++ [0]).drop (i + 1)) = strtol ((cString addr).drop (i + 1)) := by
      apply strtol_congr
      rw [List.drop_append_of_le_length (by omega),
        cString_append_zero fun _ hc => ne_zero_of_mem_cString (List.mem_of_mem_drop hc),
        cString_of_forall_ne fun _ hc => ne_zero_of_mem_cString (List.mem_of_mem_drop hc)]
    have hpre : (cString addr ++ [0]).take i = (cString addr).take i := List.take_append_of_le_length hi.le
    have htake : cString (overwrite (cString addr ++ [0]) i [0]) = cString ((cString addr).take i) := by
      have hnz : ∀ c ∈ (cString addr ++ [0]).take i, c ≠ 0 := by
        rw [hpre]
        exact fun _ hc => ne_zero_of_mem_cString (List.mem_of_mem_take hc)
      have := @cString_overwrite (cString addr ++ [0]) i [] [] hnz (by simp)
      rw [List.nil_append, hpre, List.append_nil] at this
      rw [this, cString_of_forall_ne fun _ hc => ne_zero_of_mem_cString (List.mem_of_mem_take hc)]
    simp only [hdrop]
    split_ifs
    · rfl
    · simp only [not_lt.mpr (hpton _), if_false, inetPton_congr htake]

theorem subnetMaxLen_nonneg (family : Int) : 0 ≤ subnetMaxLen family := by
  unfold subnetMaxLen; split_ifs <;> decide

/-- `kr_straddr_subnet` fails only with `kr_error(ERANGE)`: `inet_pton` never returns -1 for the
two families `kr_straddr_family` picks, so `kr_error(EILSEQ)` is never returned. -/
theorem krStraddrSubnet_erange_or_nonneg (addr : List UInt8) :
    (krStraddrSubnet addr).1 = krError ERANGE ∨ 0 ≤ (krStraddrSubnet addr).1 := by
  rw [krStraddrSubnet_eq]
  cases strchr addr 47 with
  | none => exact .inr (subnetMaxLen_nonneg _)
  | some i =>
    dsimp only
    split_ifs with hr
    · exact .inl rfl
    · exact .inr (by dsimp only; omega)

/-- `kr_straddr_subnet` never returns `kr_error(EILSEQ)`. -/
theorem krStraddrSubnet_ne_eilseq (addr : List UInt8) : (krStraddrSubnet addr).1 ≠ krError EILSEQ := by
  have heilseq : krError EILSEQ = -84 := rfl
  rcases krStraddrSubnet_erange_or_nonneg addr with h | h
  · rw [h, heilseq]
    decide
  · rw [heilseq]
    omega

/-- `kr_straddr_subnet` returns a bit length exactly for a text without `/`, giving the family's
longest, or one whose text after the first `/` `strtol` reads to a `long` whose `int` is a bit
length of the family; and `dst` then holds what `inet_pton` makes of the text before the `/`,
whether it reads an address there or not. -/
theorem krStraddrSubnet_nonneg_iff (addr : List UInt8) (r : Int) (dst : Option (List UInt8)) :
    krStraddrSubnet addr = (r, dst) ∧ 0 ≤ r ↔
      (strchr addr 47 = none ∧ r = subnetMaxLen (krStraddrFamily addr) ∧
          dst = (inetPton (krStraddrFamily addr) addr).2) ∨
        ∃ i, strchr addr 47 = some i ∧ r = intOfLong (strtol ((cString addr).drop (i + 1))).1 ∧
          0 ≤ r ∧ r ≤ subnetMaxLen (krStraddrFamily addr) ∧
          dst = (inetPton (krStraddrFamily addr) ((cString addr).take i)).2 := by
  have hmax := subnetMaxLen_nonneg (krStraddrFamily addr)
  rw [krStraddrSubnet_eq]
  cases strchr addr 47 with
  | none =>
    simp only [Prod.mk.injEq, reduceCtorEq, false_and, exists_false, or_false, true_and]
    constructor
    · rintro ⟨⟨rfl, rfl⟩, -⟩
      exact ⟨rfl, rfl⟩
    · rintro ⟨rfl, rfl⟩
      exact ⟨⟨rfl, rfl⟩, hmax⟩
  | some i =>
    simp only [reduceCtorEq, false_and, Option.some.injEq, exists_eq_left', false_or]
    split_ifs with hr
    · simp only [Prod.mk.injEq]
      constructor
      · rintro ⟨⟨rfl, -⟩, h⟩
        exact absurd h (by simp [krError, ERANGE])
      · rintro ⟨rfl, h1, h2, -⟩
        exact absurd hr (by omega)
    · simp only [Prod.mk.injEq]
      constructor
      · rintro ⟨⟨rfl, rfl⟩, h⟩
        exact ⟨rfl, h, by omega, rfl⟩
      · rintro ⟨rfl, h1, -, rfl⟩
        exact ⟨⟨rfl, rfl⟩, h1⟩

/-- Every result of `kr_straddr_subnet` is `kr_error(ERANGE)` or a bit length, never
`kr_error(EILSEQ)`; and it is a bit length exactly for a text without `/`, giving the family's
longest, or one whose text after the first `/` `strtol` reads to a `long` whose `int` is a bit
length of the family, with `dst` holding what `inet_pton` makes of the text before the `/`. -/
theorem krStraddrSubnet_spec (addr : List UInt8) (r : Int) (dst : Option (List UInt8)) :
    ((krStraddrSubnet addr).1 = krError ERANGE ∨ 0 ≤ (krStraddrSubnet addr).1) ∧
    (krStraddrSubnet addr).1 ≠ krError EILSEQ ∧
    (krStraddrSubnet addr = (r, dst) ∧ 0 ≤ r ↔
      (strchr addr 47 = none ∧ r = subnetMaxLen (krStraddrFamily addr) ∧
          dst = (inetPton (krStraddrFamily addr) addr).2) ∨
        ∃ i, strchr addr 47 = some i ∧ r = intOfLong (strtol ((cString addr).drop (i + 1))).1 ∧
          0 ≤ r ∧ r ≤ subnetMaxLen (krStraddrFamily addr) ∧
          dst = (inetPton (krStraddrFamily addr) ((cString addr).take i)).2) :=
  ⟨krStraddrSubnet_erange_or_nonneg addr, krStraddrSubnet_ne_eilseq addr,
    krStraddrSubnet_nonneg_iff addr r dst⟩

/-- `x` is no IPv4 address, and `192.0.2.1/` has no bit length, yet both are accepted: the first
with the longest prefix, the second with none. -/
theorem krStraddrSubnet_accepts_malformed :
    (inetPton AF_INET [120, 0]).1 = 0 ∧ krStraddrSubnet [120, 0] = (32, none) ∧
      krStraddrSubnet [49, 57, 50, 46, 48, 46, 50, 46, 49, 47, 0] = (0, some [192, 0, 2, 1]) := by
  decide

end KnotResolver
