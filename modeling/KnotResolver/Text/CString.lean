import Mathlib.Data.List.GetD
import KnotResolver.Text.U16tostr

/-! C strings as the text functions of `lib/utils.c` read them, and the functions of libc they
call: `strlen`, `strchr` and `strtol` in base 10.  Memory is the list of bytes from a pointer on;
the string there is the bytes before the first zero byte, and the end of the list counts as one.

`strtol` reads back the five digits `u16tostr` writes (`strtol_u16tostr`), and reads the whole
of a string to a port exactly when the string is blanks, an optional `+` and the port's digits
(`strtol_whole_iff`).  A write of bytes into a buffer keeps its length and the bytes outside
the written ones.  `kr_strptime_diff`, the difference between two times given as texts, is over
the C library's `strptime`, `mktime` and `difftime`, which are parameters. -/

namespace KnotResolver

/-- The string at a pointer: the bytes before the first zero. -/
def cString (mem : List UInt8) : List UInt8 := mem.takeWhile (· != 0)

/-- `strlen(s)`. -/
def strlen (mem : List UInt8) : Nat := (cString mem).length

/-- `strchr(s, c)` for a byte `c` other than zero: the offset of the first `c`, `NULL` being
`none`. -/
def strchr (mem : List UInt8) (c : UInt8) : Option Nat := (cString mem).findIdx? (· == c)

/-- `isspace` in the C locale. -/
def isSpace (c : UInt8) : Bool := c == 32 || (9 ≤ c && c ≤ 13)

/-- `isdigit`. -/
def isDigit (c : UInt8) : Bool := 48 ≤ c && c ≤ 57

def LONG_MAX : Int := 2 ^ 63 - 1
def LONG_MIN : Int := -2 ^ 63

/-- The value of decimal digits, the most significant first. -/
def decimalValue (ds : List UInt8) : Nat := ds.foldl (fun acc d => acc * 10 + (d.toNat - 48)) 0

/-- `strtol(nptr, &endptr, 10)`: the value, clamped to `long`, and the offset of `endptr` from
`nptr`.  Blanks are skipped, then a sign, then the digits; with no digits the value is 0 and
`endptr` is `nptr`. -/
def strtol (mem : List UInt8) : Int × Nat :=
  let s := cString mem
  let ws := (s.takeWhile isSpace).length
  let rest := s.drop ws
  let neg := rest.head? == some 45
  let signLen := if rest.head? == some 45 || rest.head? == some 43 then 1 else 0
  let digits := (rest.drop signLen).takeWhile isDigit
  if digits = [] then (0, 0)
  else
    let v : Int := if neg then -(decimalValue digits : Int) else decimalValue digits
    (max LONG_MIN (min LONG_MAX v), ws + signLen + digits.length)

theorem cString_of_forall_ne {s : List UInt8} (h : ∀ c ∈ s, c ≠ 0) : cString s = s :=
  List.takeWhile_eq_self_iff.mpr fun c hc => by simpa using h c hc

theorem cString_append_zero {s : List UInt8} (h : ∀ c ∈ s, c ≠ 0) (rest : List UInt8) :
    cString (s ++ 0 :: rest) = s := by
  rw [cString, List.takeWhile_append_of_pos (fun c hc => by simpa using h c hc)]
  simp

theorem ne_zero_of_mem_cString {mem : List UInt8} {c : UInt8} (h : c ∈ cString mem) : c ≠ 0 := by
  simpa using List.mem_takeWhile_imp h

/-- `strdup` of a string, read as a string again. -/
@[simp] theorem cString_cString_append_zero (mem : List UInt8) :
    cString (cString mem ++ [0]) = cString mem :=
  cString_append_zero (fun _ => ne_zero_of_mem_cString) []

theorem strchr_cString_append_zero (mem : List UInt8) (c : UInt8) :
    strchr (cString mem ++ [0]) c = strchr mem c := by
  rw [strchr, strchr, cString_cString_append_zero]

theorem lt_strlen_of_strchr {mem : List UInt8} {c : UInt8} {i : Nat} (h : strchr mem c = some i) :
    i < strlen mem :=
  (List.findIdx?_eq_some_iff_findIdx_eq.mp h).1

/-- Memory from a pointer on: the string, then the end of the list or a zero byte. -/
theorem eq_cString_append (mem : List UInt8) :
    ∃ rest, mem = cString mem ++ rest ∧ (rest = [] ∨ ∃ r, rest = 0 :: r) := by
  refine ⟨mem.dropWhile (· != 0), (List.takeWhile_append_dropWhile _ _).symm, ?_⟩
  cases h : mem.dropWhile (· != 0) with
  | nil => exact .inl rfl
  | cons c r =>
    have := List.head_dropWhile_not (· != 0) mem (by simp [h])
    simp only [h, List.head_cons, bne_eq_false_iff_eq] at this
    exact .inr ⟨r, by rw [this]⟩

/-- The byte at an offset up to the string's end is zero exactly at the end. -/
theorem getD_eq_zero_iff {mem : List UInt8} {k : Nat} (hk : k ≤ strlen mem) :
    mem.getD k 0 = 0 ↔ k = strlen mem := by
  obtain ⟨rest, hmem, hrest⟩ := eq_cString_append mem
  unfold strlen at hk ⊢
  conv_lhs => rw [hmem]
  rcases Nat.lt_or_eq_of_le hk with hk | rfl
  · rw [List.getD_append _ _ _ _ hk, List.getD_eq_getElem _ _ hk]
    exact iff_of_false (ne_zero_of_mem_cString (List.getElem_mem hk)) (by omega)
  · rw [List.getD_append_right _ _ _ _ le_rfl, Nat.sub_self]
    rcases hrest with rfl | ⟨r, rfl⟩ <;> simp

/-- The string from an offset within it is the rest of the string. -/
theorem cString_drop {mem : List UInt8} {k : Nat} (hk : k ≤ strlen mem) :
    cString (mem.drop k) = (cString mem).drop k := by
  obtain ⟨rest, hmem, hrest⟩ := eq_cString_append mem
  have hne : ∀ c ∈ (cString mem).drop k, c ≠ 0 := fun _ hc => ne_zero_of_mem_cString (List.mem_of_mem_drop hc)
  conv_lhs => rw [hmem, List.drop_append_of_le_length hk]
  rcases hrest with rfl | ⟨r, rfl⟩
  · rw [List.append_nil, cString_of_forall_ne hne]
  · exact cString_append_zero hne r

/-- `strtol` reads only the string. -/
theorem strtol_congr {s t : List UInt8} (h : cString s = cString t) : strtol s = strtol t := by
  unfold strtol
  rw [h]

/-! ### Digits -/

/-- What the text functions ask of a decimal digit's byte, for each of the ten digits. -/
theorem digitByte_class : ∀ d, d < 10 →
    (digitByte d).toNat = 48 + d ∧ isDigit (digitByte d) = true ∧ isSpace (digitByte d) = false ∧
      digitByte d ≠ 0 ∧ digitByte d ≠ 45 ∧ digitByte d ≠ 43 ∧ digitByte d ≠ 64 ∧ digitByte d ≠ 35 := by
  decide

theorem decimal5_eq (n : Nat) :
    decimal5 n = [digitByte (n / 10000 % 10), digitByte (n / 1000 % 10), digitByte (n / 100 % 10),
      digitByte (n / 10 % 10), digitByte (n % 10)] := by
  simp [decimal5, List.range_succ]

theorem decimalValue_decimal5 {n : Nat} (h : n < 100000) : decimalValue (decimal5 n) = n := by
  simp only [decimal5_eq, decimalValue, List.foldl_cons, List.foldl_nil,
    (digitByte_class _ (Nat.mod_lt _ (by norm_num : 10 > 0))).1]
  omega

/-- The digits of `u16tostr` hold no zero byte, no `@` and no `#`. -/
theorem mem_u16tostr {num : UInt16} {c : UInt8} (hc : c ∈ u16tostr num) :
    isDigit c = true ∧ c ≠ 0 ∧ c ≠ 64 ∧ c ≠ 35 := by
  rw [u16tostr_eq, decimal5] at hc
  obtain ⟨j, -, rfl⟩ := List.mem_map.mp hc
  obtain ⟨-, hd, -, h0, -, -, h64, h35⟩ := digitByte_class _ (Nat.mod_lt (num.toNat / 10 ^ (4 - j))
    (by norm_num : 10 > 0))
  exact ⟨hd, h0, h64, h35⟩

/-- `strtol` reads the five digits of `u16tostr` back, and stops at the end of the string. -/
theorem strtol_u16tostr (num : UInt16) (rest : List UInt8) :
    strtol (u16tostr num ++ 0 :: rest) = ((num.toNat : Int), 5) := by
  have hn : num.toNat < 65536 := num.toNat_lt_size
  have hm : ∀ k, k % 10 < 10 := fun k => Nat.mod_lt _ (by norm_num)
  unfold strtol
  rw [cString_append_zero fun c hc => (mem_u16tostr hc).2.1, u16tostr_eq]
  simp only [decimal5_eq]
  have hc := fun k => digitByte_class (k % 10) (hm k)
  have hsign : ∀ k, (some (digitByte (k % 10)) == some 45) = false ∧
      (some (digitByte (k % 10)) == some 43) = false := fun k => by
    simp [(hc k).2.2.2.2.1, (hc k).2.2.2.2.2.1]
  simp only [List.takeWhile_cons, fun k => (hc k).2.2.1, List.takeWhile_nil, List.length_nil,
    List.drop_zero, List.head?_cons, hsign, Bool.or_false, Bool.false_eq_true, if_false,
    fun k => (hc k).2.1, if_true, Nat.zero_add, List.length_cons, List.cons_ne_nil]
  have hv := decimalValue_decimal5 (show num.toNat < 100000 by omega)
  rw [decimal5_eq] at hv
  rw [hv]
  simp [LONG_MAX, LONG_MIN]
  omega

/-! ### What `strtol` reads whole -/

theorem isSpace_of_isDigit {c : UInt8} (h : isDigit c = true) : isSpace c = false := by
  have h' : 48 ≤ c.toNat ∧ c.toNat ≤ 57 := by simpa [isDigit] using h
  have hn : c.toNat ≠ 32 ∧ ¬(9 ≤ c.toNat ∧ c.toNat ≤ 13) := by omega
  have h32 : c ≠ 32 := fun e => hn.1 (by rw [e]; rfl)
  simpa [isSpace, h32] using hn.2

theorem ne_sign_of_isDigit {c : UInt8} (h : isDigit c = true) : c ≠ 45 ∧ c ≠ 43 := by
  have h' : 48 ≤ c.toNat ∧ c.toNat ≤ 57 := by simpa [isDigit] using h
  exact ⟨fun e => by rw [e] at h'; exact absurd h'.1 (by decide),
    fun e => by rw [e] at h'; exact absurd h'.1 (by decide)⟩

/-- What `kr_straddr_split` takes for a port after the separator: the blanks and the sign that
`strtol` skips, here no more than a `+`, then the decimal digits of a port from 1 to 65535. -/
def PortText (text : List UInt8) (v : Int) : Prop :=
  ∃ ws sign digits, text = ws ++ sign ++ digits ∧ (∀ c ∈ ws, isSpace c = true) ∧
    (sign = [] ∨ sign = [43]) ∧ digits ≠ [] ∧ (∀ c ∈ digits, isDigit c = true) ∧
    v = decimalValue digits ∧ 1 ≤ v ∧ v ≤ 65535

/-- `strtol` reads the whole of a string to a value from 1 to 65535 exactly when the string is
blanks, an optional `+` and the digits of that value. -/
theorem strtol_whole_iff {mem : List UInt8} {v : Int} :
    ((strtol mem).2 = strlen mem ∧ (strtol mem).1 = v ∧ 1 ≤ v ∧ v ≤ 65535) ↔
      PortText (cString mem) v := by
  unfold strtol strlen
  generalize cString mem = t
  constructor
  · rintro ⟨hlen, hv, h1, h2⟩
    dsimp only at hlen hv
    -- the blanks, the sign and the digits, as `strtol` cuts them
    have ht : t = t.takeWhile isSpace ++ t.drop (t.takeWhile isSpace).length := by
      conv_lhs => rw [← List.take_append_drop (t.takeWhile isSpace).length t]
      rw [← List.prefix_iff_eq_take.mp (List.takeWhile_prefix isSpace)]
    have hws : ∀ c ∈ t.takeWhile isSpace, isSpace c = true := fun _ => List.mem_takeWhile_imp
    generalize t.takeWhile isSpace = W at ht hws hlen hv
    generalize t.drop W.length = R at ht hlen hv
    subst ht
    generalize hs : (if R.head? == some 45 || R.head? == some 43 then 1 else 0) = s at hlen hv
    by_cases hD : (R.drop s).takeWhile isDigit = []
    · rw [if_pos hD] at hv
      exact absurd (hv ▸ h1) (by decide)
    rw [if_neg hD] at hv hlen
    -- the digits run to the end
    have hX : (R.drop s).takeWhile isDigit = R.drop s := by
      refine (List.takeWhile_prefix _).eq_of_length ?_
      simp only [List.length_append, List.length_drop] at hlen ⊢
      omega
    -- a `-` would make the value negative
    have hneg : (R.head? == some 45) = false := by
      by_contra h
      rw [Bool.not_eq_false] at h
      simp only [h, if_true, LONG_MIN, LONG_MAX] at hv
      omega
    have hsign : R.take s = [] ∨ R.take s = [43] := by
      rw [← hs]
      split_ifs with h
      · rcases R with _ | ⟨r, R⟩
        · simp at h
        · simp_all
      · exact .inl rfl
    rw [hneg, if_neg Bool.false_ne_true, hX] at hv
    refine ⟨W, R.take s, R.drop s, by rw [List.append_assoc, List.take_append_drop], hws, hsign,
      hX ▸ hD, List.takeWhile_eq_self_iff.mp hX, ?_, h1, h2⟩
    unfold LONG_MIN LONG_MAX at hv
    omega
  · rintro ⟨ws, sign, digits, rfl, hws, hsign, hne, hdig, rfl, h1, h2⟩
    obtain ⟨d, ds, rfl⟩ := List.exists_cons_of_ne_nil hne
    have hd := hdig d (List.mem_cons_self _ _)
    -- after the blanks `strtol` meets the sign, if any, and then the first digit
    have hS : (sign ++ d :: ds).takeWhile isSpace = [] ∧
        ((sign ++ d :: ds).head? == some 45) = false ∧
        (if (sign ++ d :: ds).head? == some 43 then 1 else 0) = sign.length := by
      rcases hsign with rfl | rfl
      · simp [List.takeWhile_cons, isSpace_of_isDigit hd, ne_sign_of_isDigit hd]
      · exact ⟨rfl, rfl, rfl⟩
    simp only [List.append_assoc, List.takeWhile_append_of_pos hws, hS.1, List.append_nil,
      List.drop_left, hS.2.1, Bool.false_or, hS.2.2, List.takeWhile_eq_self_iff.mpr hdig, hne,
      if_false, Bool.false_eq_true, List.length_append, LONG_MIN, LONG_MAX]
    omega

/-- `strtol` reads no further than the string. -/
theorem strtol_snd_le (mem : List UInt8) : (strtol mem).2 ≤ strlen mem := by
  unfold strtol strlen
  generalize cString mem = t
  dsimp only
  have htw : ∀ (p : UInt8 → Bool) (l : List UInt8), (l.takeWhile p).length ≤ l.length :=
    fun p _ => (List.takeWhile_prefix p).length_le
  have hw := htw isSpace t
  have hR : (t.drop (t.takeWhile isSpace).length).length = t.length - (t.takeWhile isSpace).length :=
    List.length_drop ..
  generalize t.drop (t.takeWhile isSpace).length = R at hR ⊢
  rcases R with _ | ⟨r, R⟩
  · simp
  · have hd0 := htw isDigit (r :: R)
    have hd1 := htw isDigit R
    simp only [List.length_cons] at hR hd0
    split_ifs <;> simp only [List.drop_one, List.tail_cons, List.drop_zero, zero_le] <;> omega

/-! ### Writes into a buffer -/

/-- The buffer `buf` with `bytes` written from offset `off`. -/
def overwrite (buf : List UInt8) (off : Nat) (bytes : List UInt8) : List UInt8 :=
  buf.take off ++ bytes ++ buf.drop (off + bytes.length)

section Overwrite

variable {buf bytes : List UInt8} {off : Nat}

theorem length_overwrite (h : off + bytes.length ≤ buf.length) :
    (overwrite buf off bytes).length = buf.length := by
  simp only [overwrite, List.length_append, List.length_take, List.length_drop]
  omega

/-- A write leaves every byte past the written ones as it was. -/
theorem getD_overwrite {i : Nat} (h : off + bytes.length ≤ buf.length)
    (hi : off + bytes.length ≤ i) : (overwrite buf off bytes).getD i 0 = buf.getD i 0 := by
  have hlen : (buf.take off ++ bytes).length = off + bytes.length := by
    simp only [List.length_append, List.length_take]
    omega
  rw [overwrite, List.getD_append_right _ _ _ _ (hlen ▸ hi), hlen]
  simp only [List.getD_eq_getElem?_getD, List.getElem?_drop]
  congr 2
  omega

/-- The bytes up to the end of a write are the buffer's bytes before it and the written ones. -/
theorem take_overwrite (h : off + bytes.length ≤ buf.length) :
    (overwrite buf off bytes).take (off + bytes.length) = buf.take off ++ bytes := by
  rw [overwrite, List.take_left' (by simp only [List.length_append, List.length_take]; omega)]

/-- Writing the same bytes again at the same place changes nothing. -/
theorem overwrite_overwrite_self (h : off + bytes.length ≤ buf.length) :
    overwrite (overwrite buf off bytes) off bytes = overwrite buf off bytes := by
  have hlen : (buf.take off ++ bytes).length = off + bytes.length := by
    simp only [List.length_append, List.length_take]
    omega
  have htake : (overwrite buf off bytes).take off = buf.take off := by
    rw [overwrite, List.append_assoc, List.take_left' (by simp only [List.length_take]; omega)]
  have hdrop : (overwrite buf off bytes).drop (off + bytes.length) = buf.drop (off + bytes.length) := by
    rw [overwrite, List.drop_left' hlen]
  show (overwrite buf off bytes).take off ++ bytes ++ (overwrite buf off bytes).drop (off + bytes.length) = _
  rw [htake, hdrop]
  rfl

/-- The string in a buffer after a text and its zero byte are written where a string without its
zero byte stood. -/
theorem cString_overwrite {text rest : List UInt8} (hpre : ∀ c ∈ buf.take off, c ≠ 0)
    (htext : ∀ c ∈ text, c ≠ 0) :
    cString (overwrite buf off (text ++ 0 :: rest)) = buf.take off ++ text := by
  rw [overwrite]
  simp only [List.append_assoc, List.cons_append]
  rw [← List.append_assoc]
  exact cString_append_zero (fun c hc => (List.mem_append.mp hc).elim (hpre c) (htext c)) _

end Overwrite

/-! ### `kr_strptime_diff` -/

section Strptime

/-- The C library's time functions that `kr_strptime_diff` calls, which this source does not
define, over its `struct tm` and its `double`; a `time_t` is an integer. -/
structure TimeLib (Tm Diff : Type) where
  /-- `strptime(s, format, &tm)`: the time read and the number of bytes of `s` read, `none` for
  `NULL`. -/
  strptime : List UInt8 → List UInt8 → Option (Tm × Nat)
  /-- `tm.tm_isdst = -1`: whether daylight saving time is in effect is left to `mktime`. -/
  setIsdstUnknown : Tm → Tm
  /-- `mktime(&tm)`, `-1` when the time cannot be represented. -/
  mktime : Tm → Int
  /-- `difftime(time1, time0)`. -/
  difftime : Int → Int → Diff

variable {Tm Diff : Type} (lib : TimeLib Tm Diff)

/-- One time of `kr_strptime_diff`: `strptime` must read the whole text, then `mktime` must
convert it; each failure returns its message. -/
def strptimeMktime (format text : List UInt8) (strptimeFailed mktimeFailed : String) :
    Except String Int :=
  match lib.strptime text format with
  | none => .error strptimeFailed
  | some (tm, read) =>
    if read ≠ (cString text).length then .error strptimeFailed
    else if lib.mktime (lib.setIsdstUnknown tm) = -1 then .error mktimeFailed
    else .ok (lib.mktime (lib.setIsdstUnknown tm))

/-- `kr_strptime_diff(format, time1_str, time0_str, &diff)`: `.ok` of what it writes to `*diff`
where it returns `NULL`, `.error` of the message it returns otherwise. -/
def krStrptimeDiff (format time1 time0 : List UInt8) : Except String Diff :=
  match strptimeMktime lib format time1 "strptime failed for time1" "mktime failed for time1" with
  | .error e => .error e
  | .ok time1U =>
    match strptimeMktime lib format time0 "strptime failed for time0" "mktime failed for time0" with
    | .error e => .error e
    | .ok time0U => .ok (lib.difftime time1U time0U)

end Strptime

end KnotResolver
