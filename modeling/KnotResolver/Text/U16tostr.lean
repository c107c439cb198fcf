import Mathlib.Data.List.Range
import Mathlib.Tactic.IntervalCases
import Mathlib.Tactic.Ring

/-! `u16tostr` of `lib/utils.c` writes a 16-bit number as five decimal digits, with leading zeros,
without a division per digit: it scales the number to a fixed-point fraction of `2^28` and then
takes one digit off the top of the fraction five times.  The code's arithmetic is `uint32_t`; it
is written here on `Nat`, reduced modulo `2^32` where the C type would wrap.

The digits are right for every 16-bit number: `u16tostr n` is the five-digit decimal of `n`, and
so `u16tostr` is injective. -/

namespace KnotResolver

/-- The loop of `u16tostr`: `i` digits left to write from the fixed-point value `tmp`. -/
def u16tostrLoop : Nat → Nat → List UInt8
  | 0, _ => []
  | i + 1, tmp => UInt8.ofNat (48 + tmp / 2 ^ 28) :: u16tostrLoop i (tmp % 2 ^ 28 * 10 % 2 ^ 32)

/-- `u16tostr(dst, num)`: the five bytes it writes to `dst`.  `(1 << 28) / 10000 + 1` is 26844. -/
def u16tostr (num : UInt16) : List UInt8 :=
  u16tostrLoop 5 ((num.toNat * ((1 <<< 28) / 10000 + 1) - num.toNat / 4) % 2 ^ 32)

/-- The byte of a decimal digit. -/
def digitByte (d : Nat) : UInt8 := UInt8.ofNat (48 + d)

/-- The five decimal digits of `n`, most significant first, with leading zeros. -/
def decimal5 (n : Nat) : List UInt8 := (List.range 5).map fun j => digitByte (n / 10 ^ (4 - j) % 10)

@[simp] theorem length_u16tostrLoop (i tmp : Nat) : (u16tostrLoop i tmp).length = i := by
  induction i generalizing tmp <;> simp [u16tostrLoop, *]

@[simp] theorem length_u16tostr (num : UInt16) : (u16tostr num).length = 5 := by
  simp [u16tostr]

/-- Taking the digit off the top and scaling by ten keeps the digits that follow. -/
theorem digit_step (tmp j : Nat) :
    tmp % 2 ^ 28 * 10 * 10 ^ j / 2 ^ 28 % 10 = tmp * 10 ^ (j + 1) / 2 ^ 28 % 10 := by
  have hsplit : tmp * 10 ^ (j + 1) =
      tmp % 2 ^ 28 * 10 * 10 ^ j + tmp / 2 ^ 28 * 10 ^ j * 10 * 2 ^ 28 := by
    conv_lhs => rw [← Nat.mod_add_div tmp (2 ^ 28)]
    ring
  rw [hsplit, Nat.add_mul_div_right _ _ (by norm_num), Nat.add_mul_mod_self_right]

/-- From a fraction whose top digit is below ten, the loop writes the digits of the fraction. -/
theorem u16tostrLoop_eq (i tmp : Nat) (h : tmp < 10 * 2 ^ 28) :
    u16tostrLoop i tmp = (List.range i).map fun j => digitByte (tmp * 10 ^ j / 2 ^ 28 % 10) := by
  induction i generalizing tmp with
  | zero => rfl
  | succ i ih =>
    have hlt : tmp % 2 ^ 28 * 10 < 10 * 2 ^ 28 := by omega
    rw [u16tostrLoop, Nat.mod_eq_of_lt (by omega), ih _ hlt, List.range_succ_eq_map,
      List.map_cons, List.map_map]
    have htop : tmp / 2 ^ 28 % 10 = tmp / 2 ^ 28 := Nat.mod_eq_of_lt (by omega)
    congr 1
    · simp only [digitByte, pow_zero, Nat.mul_one, htop]
    · exact List.map_congr_left fun j _ => congrArg digitByte (digit_step tmp j)

/-- The fixed-point value of `n`, scaled by `10^j`, has `n / 10^(4-j)` above the point. -/
theorem scaled_div (n : Nat) (h : n < 65536) (j : Nat) (hj : j < 5) :
    (n * 26844 - n / 4) * 10 ^ j / 2 ^ 28 = n / 10 ^ (4 - j) := by
  interval_cases j <;> simp <;> omega

/-- `u16tostr` writes the five decimal digits of every 16-bit number. -/
theorem u16tostr_eq (num : UInt16) : u16tostr num = decimal5 num.toNat := by
  have hn : num.toNat < 65536 := num.toNat_lt_size
  have hc : (1 <<< 28) / 10000 + 1 = 26844 := rfl
  rw [u16tostr, hc, Nat.mod_eq_of_lt (by omega), u16tostrLoop_eq _ _ (by omega), decimal5]
  exact List.map_congr_left fun j hj => by
    rw [scaled_div _ hn j (List.mem_range.mp hj)]

theorem digitByte_inj {d e : Nat} (hd : d < 10) (he : e < 10) (h : digitByte d = digitByte e) :
    d = e := by
  have := congrArg UInt8.toNat h
  simp only [digitByte, UInt8.toNat_ofNat_of_lt (show 48 + d < UInt8.size by unfold UInt8.size; omega),
    UInt8.toNat_ofNat_of_lt (show 48 + e < UInt8.size by unfold UInt8.size; omega)] at this
  omega

theorem u16tostr_injective {a b : UInt16} (h : u16tostr a = u16tostr b) : a = b := by
  rw [u16tostr_eq, u16tostr_eq] at h
  simp only [decimal5, List.range_succ, List.range_zero, List.nil_append, List.map_append,
    List.map_cons, List.map_nil, List.cons_append, List.cons.injEq, and_true] at h
  obtain ⟨h0, h1, h2, h3, h4⟩ := h
  norm_num at h0 h1 h2 h3 h4
  have := digitByte_inj (Nat.mod_lt _ (by norm_num)) (Nat.mod_lt _ (by norm_num)) h0
  have := digitByte_inj (Nat.mod_lt _ (by norm_num)) (Nat.mod_lt _ (by norm_num)) h1
  have := digitByte_inj (Nat.mod_lt _ (by norm_num)) (Nat.mod_lt _ (by norm_num)) h2
  have := digitByte_inj (Nat.mod_lt _ (by norm_num)) (Nat.mod_lt _ (by norm_num)) h3
  have := digitByte_inj (Nat.mod_lt _ (by norm_num)) (Nat.mod_lt _ (by norm_num)) h4
  have ha : a.toNat < 65536 := a.toNat_lt_size
  have hb : b.toNat < 65536 := b.toNat_lt_size
  exact UInt16.eq_of_toBitVec_eq (BitVec.eq_of_toNat_eq (show a.toNat = b.toNat by omega))

end KnotResolver
