import Mathlib.Algebra.Order.BigOperators.Group.List
import Mathlib.Data.Nat.Digits
import KnotResolver.Defines
import KnotResolver.Text.CString

/-! The address functions of libc that `lib/utils.c` calls, `inet_pton` and `inet_ntop`, as
glibc writes them in `resolv/inet_pton.c` and `resolv/inet_ntop.c`: in the form POSIX asks for,
which glibc has since 2.26, with at most four hex digits to a group.  Texts are bytes.

Every text that `inet_pton` accepts and every text that `inet_ntop` writes is made of hex digits,
`:` and `.`, and has at most 45 bytes, so that it fits `INET6_ADDRSTRLEN` with its zero byte
(`inetPton_text`, `inetNtop_text`).  For the parsers this is a potential argument over their
loops: each byte read uses up room that the bytes already written leave. -/

namespace KnotResolver

def AF_INET : Int := 2
def AF_INET6 : Int := 10
def EAFNOSUPPORT : Int := 97

/-- The bytes of an address text: decimal and hex digits, `:` and `.`. -/
def isAddrChar (c : UInt8) : Bool :=
  let n := c.toNat
  (48 ≤ n && n ≤ 57) || (97 ≤ n && n ≤ 102) || (65 ≤ n && n ≤ 70) || n == 58 || n == 46

theorem isAddrChar_colon {c : UInt8} (h : c.toNat = 58) : isAddrChar c = true := by
  simp [isAddrChar, h]

theorem isAddrChar_ne {c : UInt8} (h : isAddrChar c = true) : c ≠ 0 ∧ c ≠ 64 ∧ c ≠ 35 := by
  refine ⟨?_, ?_, ?_⟩ <;> rintro rfl <;> exact absurd h (by decide)

/-- glibc's `hex_digit_value`: the value of a hex digit of either case. -/
def hexDigitValue (c : UInt8) : Option Nat :=
  let n := c.toNat
  if 48 ≤ n ∧ n ≤ 57 then some (n - 48)
  else if 97 ≤ n ∧ n ≤ 102 then some (n - 87)
  else if 65 ≤ n ∧ n ≤ 70 then some (n - 55)
  else none

theorem hexDigitValue_some {c : UInt8} {d : Nat} (h : hexDigitValue c = some d) :
    isAddrChar c = true := by
  unfold hexDigitValue at h
  dsimp only at h
  simp only [isAddrChar, Bool.or_eq_true, Bool.and_eq_true, decide_eq_true_eq, beq_iff_eq]
  split_ifs at h <;> simp_all

/-! ### `inet_pton4` -/

/-- The loop of glibc's `inet_pton4` over the text left: whether the octet being read has a
digit yet, the octets begun, the octets done, and the one being read. -/
def inetPton4Loop : Bool → Nat → List Nat → Nat → List UInt8 → Option (List Nat)
  | _, octets, done, cur, [] => if octets < 4 then none else some (done ++ [cur])
  | sawDigit, octets, done, cur, ch :: rest =>
    if 48 ≤ ch.toNat ∧ ch.toNat ≤ 57 then
      let new := cur * 10 + (ch.toNat - 48)
      if sawDigit ∧ cur = 0 then none
      else if new > 255 then none
      else if !sawDigit then
        if octets + 1 > 4 then none else inetPton4Loop true (octets + 1) done new rest
      else inetPton4Loop true octets done new rest
    else if ch.toNat = 46 ∧ sawDigit then
      if octets = 4 then none else inetPton4Loop false octets (done ++ [cur]) 0 rest
    else none

/-- `inet_pton4(src, end, dst)`: the four bytes of a dotted quad. -/
def inetPton4 (src : List UInt8) : Option (List UInt8) :=
  (inetPton4Loop false 0 [] 0 src).map (List.map UInt8.ofNat)

/-- The bytes the rest of a dotted quad can still take: more digits of the octet being read (none
after a leading zero, and none past three digits), then a dot and three digits for each octet
not begun. -/
def pton4Room (sawDigit : Bool) (octets cur : Nat) : Nat :=
  if sawDigit then (if cur = 0 ∨ 100 ≤ cur then 0 else if cur < 10 then 2 else 1) + (4 - octets) * 4
  else (4 - octets) * 4 - 1

/-- What the loop of `inet_pton4` keeps: the octets begun, and the octets done before the one
being read. -/
def Pton4Inv (sawDigit : Bool) (octets : Nat) (done : List Nat) : Prop :=
  if sawDigit then 1 ≤ octets ∧ octets ≤ 4 ∧ done.length + 1 = octets
  else octets < 4 ∧ done.length = octets

theorem inetPton4Loop_text : ∀ (rest : List UInt8) {sawDigit : Bool} {octets : Nat}
    {done : List Nat} {cur : Nat} {r : List Nat},
    inetPton4Loop sawDigit octets done cur rest = some r → Pton4Inv sawDigit octets done →
    r.length = 4 ∧ rest.length ≤ pton4Room sawDigit octets cur ∧
      ∀ c ∈ rest, isAddrChar c = true ∧ c.toNat ≠ 58
  | [], sawDigit, octets, done, cur, r, h, hi => by
    simp only [inetPton4Loop] at h
    split_ifs at h with h4
    cases h
    cases sawDigit <;> simp only [Pton4Inv, if_true, Bool.false_eq_true, if_false] at hi
    · omega
    · simp; omega
  | ch :: rest, sawDigit, octets, done, cur, r, h, hi => by
    unfold inetPton4Loop at h
    dsimp only at h
    have hdig : 48 ≤ ch.toNat ∧ ch.toNat ≤ 57 → isAddrChar ch = true ∧ ch.toNat ≠ 58 :=
      fun hd => ⟨by simp [isAddrChar]; omega, by omega⟩
    split_ifs at h with hd hz hbig hs hoct hdot hfour
    · -- the first digit of an octet
      obtain rfl : sawDigit = false := by simpa using hs
      simp only [Pton4Inv, Bool.false_eq_true, if_false] at hi
      obtain ⟨hr, hl, hall⟩ := inetPton4Loop_text rest h (by simp only [Pton4Inv, if_true]; omega)
      refine ⟨hr, ?_, List.forall_mem_cons.mpr ⟨hdig hd, hall⟩⟩
      simp only [pton4Room, if_true, Bool.false_eq_true, if_false, List.length_cons] at hl ⊢
      split_ifs at hl <;> omega
    · -- a further digit of an octet
      obtain rfl : sawDigit = true := by simpa using hs
      obtain ⟨hr, hl, hall⟩ := inetPton4Loop_text rest h hi
      refine ⟨hr, ?_, List.forall_mem_cons.mpr ⟨hdig hd, hall⟩⟩
      simp only [pton4Room, if_true, List.length_cons] at hl ⊢
      simp only [true_and] at hz
      split_ifs at hl ⊢ <;> omega
    · -- a dot after an octet
      obtain ⟨hdot, rfl⟩ := hdot
      simp only [Pton4Inv, if_true] at hi
      obtain ⟨hr, hl, hall⟩ := inetPton4Loop_text rest h
        (by simp only [Pton4Inv, Bool.false_eq_true, if_false, List.length_append,
          List.length_singleton]; omega)
      refine ⟨hr, ?_, List.forall_mem_cons.mpr ⟨⟨by simp [isAddrChar, hdot], by omega⟩, hall⟩⟩
      simp only [pton4Room, if_true, Bool.false_eq_true, if_false, List.length_cons] at hl ⊢
      split_ifs <;> omega

/-- A dotted quad that `inet_pton4` accepts has at most 15 bytes, digits and dots. -/
theorem inetPton4_text {src : List UInt8} {out : List UInt8} (h : inetPton4 src = some out) :
    src.length ≤ 15 ∧ ∀ c ∈ src, isAddrChar c = true ∧ c.toNat ≠ 58 := by
  obtain ⟨r, hr, -⟩ := Option.map_eq_some'.mp h
  have := inetPton4Loop_text src hr (by simp [Pton4Inv])
  simpa [pton4Room] using this.2

theorem length_inetPton4 {src out : List UInt8} (h : inetPton4 src = some out) : out.length = 4 := by
  obtain ⟨r, hr, rfl⟩ := Option.map_eq_some'.mp h
  simpa using (inetPton4Loop_text src hr (by simp [Pton4Inv])).1

/-! ### `inet_pton6` -/

/-- The state of the loop of `inet_pton6`: the hex digits read since the last colon, their value,
the bytes of `tmp` written up to `tp`, and the offset of `colonp` where `::` stood. -/
structure Pton6State where
  xdigitsSeen : Nat
  val : Nat
  tp : List UInt8
  colonp : Option Nat
  deriving Repr, DecidableEq

/-- The two bytes a group's value is stored as, the high one first. -/
def groupBytes (val : Nat) : List UInt8 := [UInt8.ofNat (val / 256), UInt8.ofNat val]

/-- The loop of glibc's `inet_pton6` over the text left, `curtok` being the text from the start
of the group being read.  `val <<= 4; val |= digit` is `val * 16 + digit`, the shift leaving the
low four bits free.  A `.` hands the group and the rest to `inet_pton4` and ends the loop. -/
def inetPton6Loop (curtok : List UInt8) (s : Pton6State) : List UInt8 → Option Pton6State
  | [] => some s
  | ch :: rest =>
    match hexDigitValue ch with
    | some digit =>
      if s.xdigitsSeen = 4 then none
      else
        let val := s.val * 16 + digit
        if val > 0xffff then none
        else inetPton6Loop curtok ⟨s.xdigitsSeen + 1, val, s.tp, s.colonp⟩ rest
    | none =>
      if ch.toNat = 58 then
        if s.xdigitsSeen = 0 then
          if s.colonp.isSome then none
          else inetPton6Loop rest ⟨0, s.val, s.tp, some s.tp.length⟩ rest
        else if rest = [] then none
        else if s.tp.length + 2 > 16 then none
        else inetPton6Loop rest ⟨0, 0, s.tp ++ groupBytes s.val, s.colonp⟩ rest
      else if ch.toNat = 46 ∧ s.tp.length + 4 ≤ 16 then
        (inetPton4 curtok).map fun quad => ⟨0, s.val, s.tp ++ quad, s.colonp⟩
      else none

/-- The end of `inet_pton6`: `::` is widened to the zero bytes missing (`memmove` and `memset`),
and without it the address must have its sixteen bytes. -/
def pton6Expand (tp : List UInt8) : Option Nat → Option (List UInt8)
  | some colonp =>
    if tp.length = 16 then none
    else some (tp.take colonp ++ List.replicate (16 - tp.length) 0 ++ tp.drop colonp)
  | none => if tp.length = 16 then some tp else none

/-- After the loop: the last group is stored, then `::` is widened. -/
def inetPton6Finish (s : Pton6State) : Option (List UInt8) :=
  if 0 < s.xdigitsSeen then
    if s.tp.length + 2 > 16 then none else pton6Expand (s.tp ++ groupBytes s.val) s.colonp
  else pton6Expand s.tp s.colonp

/-- `inet_pton6` from `curtok = src` on. -/
def inetPton6Body (src : List UInt8) : Option (List UInt8) :=
  (inetPton6Loop src ⟨0, 0, [], none⟩ src).bind inetPton6Finish

/-- `inet_pton6(src, end, dst)`: the sixteen bytes of an IPv6 address.  Of a leading `::` the
first colon is skipped, and the loop reads the second as the `::`. -/
def inetPton6 : List UInt8 → Option (List UInt8)
  | [] => none
  | ch :: rest =>
    if ch.toNat ≠ 58 then inetPton6Body (ch :: rest)
    else match rest with
      | ch' :: _ => if ch'.toNat = 58 then inetPton6Body rest else none
      | [] => none

theorem pton6Expand_some {tp out : List UInt8} {colonp : Option Nat} (ht : tp.length ≤ 16)
    (h : pton6Expand tp colonp = some out) : tp.length + (if colonp.isSome then 1 else 0) ≤ 16 := by
  cases colonp <;> simp only [pton6Expand] at h <;> split_ifs at h <;> simp <;> omega

/-- What an accepting end of `inet_pton6` asks of the loop's last state: room for the group being
read and, with `::`, for at least one zero group. -/
theorem inetPton6Finish_some {s : Pton6State} {out : List UInt8} (ht : s.tp.length ≤ 16)
    (h : inetPton6Finish s = some out) :
    s.tp.length + (if 0 < s.xdigitsSeen then 2 else 0) + (if s.colonp.isSome then 1 else 0) ≤ 16 := by
  unfold inetPton6Finish at h
  split_ifs at h with hx hroom
  · have := pton6Expand_some (by simp [groupBytes]; omega) h
    simp only [List.length_append, groupBytes, List.length_cons, List.length_nil] at this
    simpa [hx] using this
  · simpa [hx] using pton6Expand_some ht h

/-- The weight of the loop's state, in half bytes of text: five for each byte of the address
written, two for each hex digit of the group being read, four once `::` is read.  Twice the text
left and the weight never pass 90, so an accepted text has at most 45 bytes. -/
def pton6Weight (s : Pton6State) : Nat :=
  5 * s.tp.length + 2 * s.xdigitsSeen + if s.colonp.isSome then 4 else 0

theorem inetPton6Loop_text : ∀ (rest : List UInt8) {curtok : List UInt8} {s fin : Pton6State}
    {out : List UInt8}, inetPton6Loop curtok s rest = some fin → inetPton6Finish fin = some out →
    rest <:+ curtok → curtok.length = s.xdigitsSeen + rest.length → s.xdigitsSeen ≤ 4 →
    s.tp.length ≤ 16 → 2 * rest.length + pton6Weight s ≤ 90 ∧ ∀ c ∈ rest, isAddrChar c = true
  | [], curtok, s, fin, out, h, hf, _, _, hx, ht => by
    simp only [inetPton6Loop, Option.some.injEq] at h
    subst h
    have hfin := inetPton6Finish_some ht hf
    refine ⟨?_, by simp⟩
    simp only [pton6Weight, List.length_nil] at hfin ⊢
    split_ifs at hfin ⊢ <;> omega
  | ch :: rest, curtok, s, fin, out, h, hf, hsuf, hlen, hx, ht => by
    have hrest : rest <:+ curtok := (List.suffix_cons ch rest).trans hsuf
    simp only [List.length_cons] at hlen ⊢
    unfold inetPton6Loop at h
    split at h
    · -- a hex digit of the group
      rename_i digit hd
      dsimp only at h
      split_ifs at h with h4 hbig
      obtain ⟨hw, hall⟩ := inetPton6Loop_text rest h hf hrest (by simp only; omega) (by simp only; omega) ht
      refine ⟨?_, List.forall_mem_cons.mpr ⟨hexDigitValue_some hd, hall⟩⟩
      simp only [pton6Weight] at hw ⊢
      omega
    · split_ifs at h with hc hx0 hcp hnil hroom hdot
      · -- the colon of `::`
        obtain ⟨hw, hall⟩ := inetPton6Loop_text rest h hf (List.suffix_refl rest) (by simp) (by simp) ht
        refine ⟨?_, List.forall_mem_cons.mpr ⟨isAddrChar_colon hc, hall⟩⟩
        simp only [pton6Weight, Option.isSome_some, if_true, hcp, Bool.false_eq_true, if_false] at hw ⊢
        omega
      · -- the colon after a group
        obtain ⟨hw, hall⟩ := inetPton6Loop_text rest h hf (List.suffix_refl rest) (by simp) (by simp)
          (by simp [groupBytes]; omega)
        refine ⟨?_, List.forall_mem_cons.mpr ⟨isAddrChar_colon hc, hall⟩⟩
        simp only [pton6Weight, List.length_append, groupBytes, List.length_cons,
          List.length_nil] at hw ⊢
        omega
      · -- a dot: the rest of the group on is a dotted quad
        obtain ⟨quad, hq, rfl⟩ := Option.map_eq_some'.mp h
        have hquad := inetPton4_text hq
        have hfin := inetPton6Finish_some (by simp [length_inetPton4 hq]; omega) hf
        simp only [List.length_append, length_inetPton4 hq, lt_self_iff_false, if_false] at hfin
        refine ⟨?_, fun c hc => (hquad.2 c (hsuf.subset hc)).1⟩
        simp only [pton6Weight]
        split_ifs at hfin ⊢ <;> omega

/-- The start of `inet_pton6` after a leading colon: the second colon is read as `::`. -/
theorem inetPton6Loop_colon {curtok rest : List UInt8} {ch : UInt8} (hc : ch.toNat = 58) :
    inetPton6Loop curtok ⟨0, 0, [], none⟩ (ch :: rest) =
      inetPton6Loop rest ⟨0, 0, [], some 0⟩ rest := by
  have hd : hexDigitValue ch = none := by simp [hexDigitValue, hc]
  simp [inetPton6Loop, hd, hc]

/-- An IPv6 text that `inet_pton6` accepts has at most 45 bytes, hex digits, colons and dots. -/
theorem inetPton6_text {src out : List UInt8} (h : inetPton6 src = some out) :
    src.length ≤ 45 ∧ ∀ c ∈ src, isAddrChar c = true := by
  match src, h with
  | ch :: rest, h =>
    simp only [inetPton6] at h
    split_ifs at h with hc
    · obtain ⟨fin, hl, hf⟩ := Option.bind_eq_some.mp h
      obtain ⟨hw, hall⟩ := inetPton6Loop_text _ hl hf (List.suffix_refl _) (by simp) (by simp)
        (by simp)
      exact ⟨by simp [pton6Weight] at hw ⊢; omega, hall⟩
    · match rest, h with
      | ch' :: rest', h =>
        simp only at h
        split_ifs at h with hc'
        obtain ⟨fin, hl, hf⟩ := Option.bind_eq_some.mp h
        rw [inetPton6Loop_colon hc'] at hl
        obtain ⟨hw, hall⟩ := inetPton6Loop_text _ hl hf (List.suffix_refl _) (by simp) (by simp)
          (by simp)
        refine ⟨by simp [pton6Weight] at hw ⊢; omega, ?_⟩
        simp only [List.forall_mem_cons]
        exact ⟨isAddrChar_colon (by simpa using hc), isAddrChar_colon hc', hall⟩

/-! ### `inet_pton` -/

/-- The return value and the bytes written of a family's parser. -/
def ptonResult : Option (List UInt8) → Int × Option (List UInt8)
  | some dst => (1, some dst)
  | none => (0, none)

/-- `inet_pton(af, src, dst)`: 1 and the address's bytes, 0 for a text that is not an address
of the family, -1 for another family.  The parsers read the C string at `src`. -/
def inetPton (af : Int) (src : List UInt8) : Int × Option (List UInt8) :=
  if af = AF_INET then ptonResult (inetPton4 (cString src))
  else if af = AF_INET6 then ptonResult (inetPton6 (cString src))
  else (-1, none)

/-- `inet_pton` reads only the string. -/
theorem inetPton_congr {af : Int} {s t : List UInt8} (h : cString s = cString t) :
    inetPton af s = inetPton af t := by
  unfold inetPton
  rw [h]

/-- `inet_pton` fails with -1 only for another family. -/
theorem inetPton_nonneg {af : Int} (haf : af = AF_INET ∨ af = AF_INET6) (src : List UInt8) :
    0 ≤ (inetPton af src).1 := by
  have hp : ∀ o, 0 ≤ (ptonResult o).1 := fun o => by cases o <;> simp [ptonResult]
  unfold inetPton
  rcases haf with rfl | rfl
  · exact hp _
  · simp only [show AF_INET6 ≠ AF_INET by decide, if_false, if_true]
    exact hp _

/-- A text that `inet_pton` accepts for either family has at most 45 bytes, of hex digits,
colons and dots. -/
theorem inetPton_text {af : Int} {src : List UInt8} (haf : af = AF_INET ∨ af = AF_INET6)
    (h : (inetPton af src).1 ≠ 0) :
    (cString src).length ≤ 45 ∧ ∀ c ∈ cString src, isAddrChar c = true := by
  have hne : AF_INET ≠ AF_INET6 := by decide
  rcases haf with rfl | rfl
  · simp only [inetPton, if_true] at h
    match h4 : inetPton4 (cString src), h with
    | some _, _ =>
      have := inetPton4_text h4
      exact ⟨by omega, fun c hc => (this.2 c hc).1⟩
    | none, h => exact absurd rfl h
  · simp only [inetPton, hne.symm, if_false, if_true] at h
    match h6 : inetPton6 (cString src), h with
    | some _, _ => exact inetPton6_text h6
    | none, h => exact absurd rfl h

/-! ### `inet_ntop` -/

/-- The bytes of a text of ASCII characters. -/
def asciiBytes (s : List Char) : List UInt8 := s.map fun c => UInt8.ofNat c.toNat

/-- `printf`'s `%u` (base 10) and `%x` (base 16) of `n`: its digits as core's `Nat.toDigits`
writes them, hex digits in lower case. -/
def printfDigits (b n : Nat) : List UInt8 := asciiBytes (Nat.toDigits b n)

theorem mem_toDigitsCore {b : Nat} (hb : 0 < b) {c : Char} :
    ∀ (f n : Nat) (l : List Char), c ∈ Nat.toDigitsCore b f n l →
      c ∈ l ∨ ∃ d < b, c = Nat.digitChar d
  | 0, _, _, h => .inl h
  | f + 1, n, l, h => by
    simp only [Nat.toDigitsCore] at h
    have hd : ∀ {c'}, c' ∈ Nat.digitChar (n % b) :: l → c' ∈ l ∨ ∃ d < b, c' = Nat.digitChar d :=
      fun hc => (List.mem_cons.mp hc).elim (fun he => .inr ⟨_, Nat.mod_lt n hb, he⟩) .inl
    split_ifs at h
    · exact hd h
    · exact (mem_toDigitsCore hb f _ _ h).elim hd .inr

theorem digitChar_addrChar : ∀ d, d < 16 → isAddrChar (UInt8.ofNat (Nat.digitChar d).toNat) = true := by
  decide

/-- The digits of `n < b ^ e` are at most `e` bytes, each a hex digit. -/
theorem printfDigits_text {b n e : Nat} (hb : 2 ≤ b) (hb16 : b ≤ 16) (hn : n < b ^ e) (he : 0 < e) :
    (printfDigits b n).length ≤ e ∧ ∀ c ∈ printfDigits b n, isAddrChar c = true := by
  refine ⟨by simpa [printfDigits, asciiBytes] using Nat.toDigitsCore_length b hb (n + 1) n e hn he, ?_⟩
  intro c hc
  obtain ⟨ch, hch, rfl⟩ := List.mem_map.mp hc
  obtain h | ⟨d, hd, rfl⟩ := mem_toDigitsCore (by omega) _ _ _ hch
  · simp at h
  · exact digitChar_addrChar d (by omega)

/-- `inet_ntop4`'s text: `"%u.%u.%u.%u"` of the first four bytes. -/
def ntop4Text (src : List UInt8) : List UInt8 :=
  printfDigits 10 (src.getD 0 0).toNat ++ 46 :: printfDigits 10 (src.getD 1 0).toNat ++ 46 ::
    printfDigits 10 (src.getD 2 0).toNat ++ 46 :: printfDigits 10 (src.getD 3 0).toNat

/-- `inet_ntop4(src, dst, size)`: `ENOSPC` unless the text and its zero byte fit in `size`. -/
def inetNtop4 (src : List UInt8) (size : Nat) : Except Int (List UInt8) :=
  let tmp := ntop4Text src
  if tmp.length ≥ size then .error ENOSPC else .ok tmp

theorem ntop4Text_text (src : List UInt8) :
    (ntop4Text src).length ≤ 15 ∧ ∀ c ∈ ntop4Text src, isAddrChar c = true := by
  have hbyte : ∀ i, (printfDigits 10 (src.getD i 0).toNat).length ≤ 3 ∧
      ∀ c ∈ printfDigits 10 (src.getD i 0).toNat, isAddrChar c = true := fun i =>
    printfDigits_text (by norm_num) (by norm_num) (lt_of_lt_of_le (src.getD i 0).val.isLt (by norm_num))
      (by norm_num)
  have hdot : isAddrChar 46 = true := by decide
  obtain ⟨h0, c0⟩ := hbyte 0
  obtain ⟨h1, c1⟩ := hbyte 1
  obtain ⟨h2, c2⟩ := hbyte 2
  obtain ⟨h3, c3⟩ := hbyte 3
  refine ⟨by simp only [ntop4Text, List.length_append, List.length_cons]; omega, ?_⟩
  simp only [ntop4Text, List.forall_mem_append, List.forall_mem_cons]
  exact ⟨⟨⟨c0, hdot, c1⟩, hdot, c2⟩, hdot, c3⟩

/-- The eight 16-bit words of an IPv6 address, from its sixteen bytes. -/
def ntop6Words (src : List UInt8) : List Nat :=
  (List.range 8).map fun i => (src.getD (2 * i) 0).toNat * 256 + (src.getD (2 * i + 1) 0).toNat

/-- `if (best.base == -1 || cur.len > best.len) best = cur;` -/
def keepLonger (cur : Nat × Nat) : Option (Nat × Nat) → Option (Nat × Nat)
  | some best => if cur.2 > best.2 then some cur else some best
  | none => some cur

/-- The search of `inet_ntop6` for the longest run of zero words, from word `i` on: the run being
read and the longest one so far, as `(base, len)`, `none` for a base of -1. -/
def zeroRunLoop : Nat → List Nat → Option (Nat × Nat) → Option (Nat × Nat) → Option (Nat × Nat)
  | _, [], cur, best =>
    match cur with
    | some c => keepLonger c best
    | none => best
  | i, w :: ws, cur, best =>
    if w = 0 then
      zeroRunLoop (i + 1) ws (match cur with | some (b, l) => some (b, l + 1) | none => some (i, 1)) best
    else
      zeroRunLoop (i + 1) ws none (match cur with | some c => keepLonger c best | none => best)

/-- The run of zero words `inet_ntop6` writes as `::`: the longest, the first of equal ones, and
none shorter than two words. -/
def ntop6BestRun (words : List Nat) : Option (Nat × Nat) :=
  match zeroRunLoop 0 words none none with
  | some (b, l) => if l < 2 then none else some (b, l)
  | none => none

/-- Whether word `i` is in the run written as `::`. -/
def inBestRun (best : Option (Nat × Nat)) (i : Nat) : Bool :=
  match best with
  | some (b, l) => b ≤ i && i < b + l
  | none => false

/-- `best.base == 0 && (best.len == 6 || (best.len == 5 && words[5] == 0xffff))`: an IPv4
address inside an IPv6 one, compatible or mapped. -/
def ntop6Encapsulated (words : List Nat) (best : Option (Nat × Nat)) : Bool :=
  best == some (0, 6) || (best == some (0, 5) && words.getD 5 0 == 0xffff)

/-- The formatting loop of `inet_ntop6` from word `i` on, `n` words left, after the text `tp`.
The encapsulated IPv4 address is written by `inet_ntop4` into what is left of the 46 bytes of
`tmp`, and ends the loop. -/
def ntop6Format (src : List UInt8) (words : List Nat) (best : Option (Nat × Nat)) :
    Nat → Nat → List UInt8 → Except Int (List UInt8)
  | 0, _, tp => .ok tp
  | n + 1, i, tp =>
    if inBestRun best i then
      ntop6Format src words best n (i + 1) (if best.map Prod.fst = some i then tp ++ [58] else tp)
    else
      let tp := if i ≠ 0 then tp ++ [58] else tp
      if i = 6 ∧ ntop6Encapsulated words best then
        match inetNtop4 (src.drop 12) (46 - tp.length) with
        | .ok quad => .ok (tp ++ quad)
        | .error e => .error e
      else ntop6Format src words best n (i + 1) (tp ++ printfDigits 16 (words.getD i 0))

/-- `inet_ntop6(src, dst, size)`: a colon closes a run of zero words at the end; `ENOSPC` unless
the text and its zero byte fit in `size`. -/
def inetNtop6 (src : List UInt8) (size : Nat) : Except Int (List UInt8) :=
  let words := ntop6Words src
  let best := ntop6BestRun words
  match ntop6Format src words best 8 0 [] with
  | .error e => .error e
  | .ok tp =>
    let tp := if (best.map fun r => r.1 + r.2) = some 8 then tp ++ [58] else tp
    if tp.length + 1 > size then .error ENOSPC else .ok tp

/-- `inet_ntop(af, src, dst, size)`: the text written to `dst`, without its zero byte, or the
`errno` it sets. -/
def inetNtop (af : Int) (src : List UInt8) (size : Nat) : Except Int (List UInt8) :=
  if af = AF_INET then inetNtop4 src size
  else if af = AF_INET6 then inetNtop6 src size
  else .error EAFNOSUPPORT

/-- A bound on the text `inet_ntop6` writes for word `i`: a colon in the run of zero words, a
colon and `inet_ntop4`'s text for the encapsulated IPv4 address, a colon and four hex digits
otherwise. -/
def ntop6Cost (best : Option (Nat × Nat)) (enc : Bool) (i : Nat) : Nat :=
  if inBestRun best i then 1 else if i = 6 ∧ enc = true then 16 else 5

theorem inetNtop4_text {src text : List UInt8} {size : Nat} (h : inetNtop4 src size = .ok text) :
    text.length ≤ 15 ∧ ∀ c ∈ text, isAddrChar c = true := by
  simp only [inetNtop4] at h
  split_ifs at h
  cases h
  exact ntop4Text_text src

/-- What the formatting loop of `inet_ntop6` appends: address bytes, at most the cost of each
word left. -/
theorem ntop6Format_text (src : List UInt8) (words : List Nat) (best : Option (Nat × Nat))
    (hw : ∀ i, words.getD i 0 < 65536) :
    ∀ n i tp r, ntop6Format src words best n i tp = .ok r →
      ∃ t, r = tp ++ t ∧
        t.length ≤ ((List.range' i n).map (ntop6Cost best (ntop6Encapsulated words best))).sum ∧
        ∀ c ∈ t, isAddrChar c = true
  | 0, _, tp, r, h => ⟨[], by simp [ntop6Format] at h; simp [h], by simp, by simp⟩
  | n + 1, i, tp, r, h => by
    have hcolon : ∀ c ∈ [(58 : UInt8)], isAddrChar c = true := by decide
    have hhex := @printfDigits_text 16 (words.getD i 0) 4 (by norm_num) (by norm_num)
      (lt_of_lt_of_le (hw i) (by norm_num)) (by norm_num)
    -- a piece of text for word `i`, and the loop goes on
    have extend : ∀ piece : List UInt8,
        piece.length ≤ ntop6Cost best (ntop6Encapsulated words best) i →
        (∀ c ∈ piece, isAddrChar c = true) →
        ntop6Format src words best n (i + 1) (tp ++ piece) = .ok r →
        ∃ t, r = tp ++ t ∧ t.length ≤ ntop6Cost best (ntop6Encapsulated words best) i +
          ((List.range' (i + 1) n).map (ntop6Cost best (ntop6Encapsulated words best))).sum ∧
          ∀ c ∈ t, isAddrChar c = true := by
      intro piece hl hc h'
      obtain ⟨t, rfl, ht, htc⟩ := ntop6Format_text src words best hw n (i + 1) _ r h'
      exact ⟨piece ++ t, by simp, by simp only [List.length_append]; omega,
        List.forall_mem_append.mpr ⟨hc, htc⟩⟩
    -- the encapsulated IPv4 address ends the text
    have quad : ∀ piece : List UInt8, piece.length ≤ 1 → (∀ c ∈ piece, isAddrChar c = true) →
        i = 6 ∧ ntop6Encapsulated words best = true → ¬inBestRun best i = true →
        ∀ size, (match inetNtop4 (src.drop 12) size with
          | .ok quad => Except.ok (tp ++ piece ++ quad)
          | .error e => .error e) = Except.ok r →
        ∃ t, r = tp ++ t ∧ t.length ≤ ntop6Cost best (ntop6Encapsulated words best) i +
          ((List.range' (i + 1) n).map (ntop6Cost best (ntop6Encapsulated words best))).sum ∧
          ∀ c ∈ t, isAddrChar c = true := by
      rintro piece hl hc ⟨rfl, henc⟩ hrun size h'
      split at h'
      · rename_i q hq
        cases h'
        have := inetNtop4_text hq
        refine ⟨piece ++ q, by simp, ?_, List.forall_mem_append.mpr ⟨hc, this.2⟩⟩
        simp only [ntop6Cost, hrun, henc, and_self, Bool.false_eq_true, ↓reduceIte,
          List.length_append]
        omega
      · cases h'
    simp only [ntop6Format] at h
    rw [List.range'_succ, List.map_cons, List.sum_cons]
    split_ifs at h with hrun hb hi0 henc
    · exact extend [58] (by simp [ntop6Cost, hrun]) hcolon h
    · exact extend [] (by simp) (by simp) (by simpa using h)
    · exact quad [58] (by simp) hcolon hi0 hrun _ h
    · exact quad [] (by simp) (by simp) hi0 hrun _ (by simpa using h)
    · exact extend _ (by simp only [ntop6Cost, hrun, hi0, Bool.false_eq_true, ↓reduceIte,
          List.length_append, List.length_singleton]; omega)
        (List.forall_mem_append.mpr ⟨hcolon, hhex.2⟩) (by simpa using h)
    · exact extend _ (by simp only [ntop6Cost, hrun, hi0, Bool.false_eq_true, ↓reduceIte]; omega)
        hhex.2 h

/-- The costs of the eight words add up to at most 44: an encapsulated IPv4 address follows a
run of five or six zero words from the first. -/
theorem ntop6Cost_sum (best : Option (Nat × Nat)) (enc : Bool)
    (h : enc = true → best = some (0, 6) ∨ best = some (0, 5)) :
    ((List.range' 0 8).map (ntop6Cost best enc)).sum ≤ 44 := by
  cases enc
  · have hle : ∀ c ∈ (List.range' 0 8).map (ntop6Cost best false), c ≤ 5 := by
      simp only [List.mem_map]
      rintro _ ⟨i, -, rfl⟩
      simp only [ntop6Cost, Bool.false_eq_true, and_false, ↓reduceIte]
      split_ifs <;> omega
    have := List.sum_le_card_nsmul _ 5 hle
    simp only [List.length_map, List.length_range', smul_eq_mul] at this
    omega
  · rcases h rfl with rfl | rfl <;> decide

theorem ntop6Encapsulated_best {words : List Nat} {best : Option (Nat × Nat)}
    (h : ntop6Encapsulated words best = true) : best = some (0, 6) ∨ best = some (0, 5) := by
  simp only [ntop6Encapsulated, Bool.or_eq_true, Bool.and_eq_true, beq_iff_eq] at h
  tauto

theorem ntop6Words_lt (src : List UInt8) (i : Nat) : (ntop6Words src).getD i 0 < 65536 := by
  rw [List.getD_eq_getElem?_getD]
  cases h : (ntop6Words src)[i]? with
  | none => simp
  | some w =>
    obtain ⟨j, -, rfl⟩ := List.mem_map.mp (List.getElem?_mem h)
    have h1 : (src.getD (2 * j) 0).toNat < 256 := (src.getD (2 * j) 0).val.isLt
    have h2 : (src.getD (2 * j + 1) 0).toNat < 256 := (src.getD (2 * j + 1) 0).val.isLt
    simp only [Option.getD_some]
    omega

/-- An IPv6 text that `inet_ntop6` writes has at most 45 bytes, hex digits, colons and dots. -/
theorem inetNtop6_text {src text : List UInt8} {size : Nat} (h : inetNtop6 src size = .ok text) :
    text.length ≤ 45 ∧ ∀ c ∈ text, isAddrChar c = true := by
  simp only [inetNtop6] at h
  split at h
  · cases h
  · rename_i tp htp
    obtain ⟨t, rfl, hl, hc⟩ := ntop6Format_text src _ _ (ntop6Words_lt src) 8 0 [] tp htp
    have hsum := ntop6Cost_sum (ntop6BestRun (ntop6Words src)) _
      (@ntop6Encapsulated_best (ntop6Words src) _)
    have hcolon : ∀ c ∈ [(58 : UInt8)], isAddrChar c = true := by decide
    split_ifs at h <;> cases h
    · exact ⟨by simp only [List.length_append, List.length_nil, List.length_singleton]; omega,
        List.forall_mem_append.mpr ⟨by simpa using hc, hcolon⟩⟩
    · exact ⟨by omega, by simpa using hc⟩

/-- A text that `inet_ntop` writes has at most 45 bytes, of hex digits, colons and dots. -/
theorem inetNtop_text {af : Int} {src text : List UInt8} {size : Nat}
    (h : inetNtop af src size = .ok text) : text.length ≤ 45 ∧ ∀ c ∈ text, isAddrChar c = true := by
  simp only [inetNtop] at h
  split_ifs at h
  · have := inetNtop4_text h
    exact ⟨by omega, this.2⟩
  · exact inetNtop6_text h

/-! ### `inet_ntop` succeeds -/

theorem inetNtop4_of_lt {src : List UInt8} {size : Nat} (h : (ntop4Text src).length < size) :
    inetNtop4 src size = .ok (ntop4Text src) := by
  simp [inetNtop4, Nat.not_le.mpr h]

/-- The formatting loop of `inet_ntop6` fails only when `inet_ntop4` finds no room, and it always
finds room while the text so far and the costs of the words left stay within 45 bytes. -/
theorem ntop6Format_ok (src : List UInt8) (words : List Nat) (best : Option (Nat × Nat))
    (hw : ∀ i, words.getD i 0 < 65536) :
    ∀ n i tp, tp.length +
        ((List.range' i n).map (ntop6Cost best (ntop6Encapsulated words best))).sum ≤ 45 →
      ∃ r, ntop6Format src words best n i tp = .ok r
  | 0, _, tp, _ => ⟨tp, rfl⟩
  | n + 1, i, tp, h => by
    rw [List.range'_succ, List.map_cons, List.sum_cons] at h
    have hhex := @printfDigits_text 16 (words.getD i 0) 4 (by norm_num) (by norm_num)
      (lt_of_lt_of_le (hw i) (by norm_num)) (by norm_num)
    simp only [ntop6Format]
    split_ifs with hrun hb hi0 henc
    -- a word of the run of zero words
    · exact ntop6Format_ok src words best hw n (i + 1) _ (by
        simp only [ntop6Cost, hrun, ↓reduceIte] at h
        simp only [List.length_append, List.length_singleton]
        omega)
    · exact ntop6Format_ok src words best hw n (i + 1) _ (by
        simp only [ntop6Cost, hrun, ↓reduceIte] at h
        omega)
    -- the encapsulated IPv4 address, with room left in `tmp`
    · obtain ⟨rfl, henc'⟩ := hi0
      simp only [ntop6Cost, hrun, henc', and_self, Bool.false_eq_true, ↓reduceIte] at h
      have hq := (ntop4Text_text (src.drop 12)).1
      rw [inetNtop4_of_lt (by simp only [List.length_append, List.length_singleton]; omega)]
      exact ⟨_, rfl⟩
    · exact absurd hi0.1 (by omega)
    -- a word in hex
    all_goals
      simp only [ntop6Cost, hrun, hi0, Bool.false_eq_true, ↓reduceIte] at h
      exact ntop6Format_ok src words best hw n (i + 1) _ (by
        simp only [List.length_append, List.length_singleton]
        omega)

/-- `inet_ntop` writes its text of any address of either family into a buffer of
`INET6_ADDRSTRLEN` bytes. -/
theorem inetNtop_ok {af : Int} (haf : af = AF_INET ∨ af = AF_INET6) (src : List UInt8)
    {size : Nat} (hs : 46 ≤ size) : ∃ text, inetNtop af src size = .ok text := by
  have hne : AF_INET ≠ AF_INET6 := by decide
  rcases haf with rfl | rfl
  · have := (ntop4Text_text src).1
    exact ⟨_, by simp only [inetNtop, if_true]; exact inetNtop4_of_lt (by omega)⟩
  · have hsum := ntop6Cost_sum (ntop6BestRun (ntop6Words src)) _
      (@ntop6Encapsulated_best (ntop6Words src) _)
    obtain ⟨tp, htp⟩ := ntop6Format_ok src (ntop6Words src) (ntop6BestRun (ntop6Words src))
      (ntop6Words_lt src) 8 0 [] (by simp only [List.length_nil, Nat.zero_add]; omega)
    obtain ⟨t, rfl, hl, -⟩ := ntop6Format_text src _ _ (ntop6Words_lt src) 8 0 [] tp htp
    simp only [inetNtop, hne.symm, if_false, if_true, inetNtop6, htp, List.nil_append]
    split_ifs with h1 h2
    · simp only [List.length_append, List.length_singleton] at h2
      omega
    · exact ⟨_, rfl⟩
    · omega
    · exact ⟨_, rfl⟩

/-! ### The errors of `inet_ntop` -/

theorem inetNtop4_error {src : List UInt8} {size : Nat} {e : Int}
    (h : inetNtop4 src size = .error e) : e = ENOSPC := by
  simp only [inetNtop4] at h
  split_ifs at h
  cases h
  rfl

theorem ntop6Format_error (src : List UInt8) (words : List Nat) (best : Option (Nat × Nat)) :
    ∀ n i tp e, ntop6Format src words best n i tp = .error e → e = ENOSPC
  | 0, _, _, _, h => by cases h
  | n + 1, i, tp, e, h => by
    simp only [ntop6Format] at h
    split_ifs at h
    -- the loop goes on
    any_goals exact ntop6Format_error src words best n (i + 1) _ e h
    -- the encapsulated IPv4 address
    all_goals
      split at h
      · cases h
      · cases h
        exact inetNtop4_error ‹_›

/-- `inet_ntop` fails only with a nonzero `errno`. -/
theorem inetNtop_error_ne_zero {af : Int} {src : List UInt8} {size : Nat} {e : Int}
    (h : inetNtop af src size = .error e) : e ≠ 0 := by
  have hspc : ENOSPC ≠ 0 := by decide
  simp only [inetNtop] at h
  split_ifs at h
  · exact inetNtop4_error h ▸ hspc
  · simp only [inetNtop6] at h
    split at h
    · cases h
      exact ntop6Format_error _ _ _ _ _ _ _ ‹_› ▸ hspc
    · split_ifs at h <;> cases h <;> exact hspc
  · cases h
    decide

end KnotResolver
