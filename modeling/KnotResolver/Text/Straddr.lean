import Mathlib.Data.List.GetD
import KnotResolver.Text.Inet

/-! The `addr#port` texts of `lib/utils.c`.  `kr_straddr_join` and `kr_ntop_str` write an address
text, `#` and the port's five digits from `u16tostr`; `kr_straddr_split` cuts a text at `@` or
`#` and reads the port back with `strtol`, which also takes blanks and a `+` before the digits
(`krStraddrSplit_eq_zero_iff`).

The decoder inverts both encoders for every port but 0 (`krStraddrSplit_inverts`).  What
`inet_pton` accepts and what `inet_ntop` writes is at most 45 bytes of hex digits, colons and
dots, so it holds neither `@` nor `#` nor a zero byte, and fits the 46 bytes `kr_straddr_split`
copies; `krStraddrSplit_encoded` reads back any such text.  `kr_ntop_str` succeeds for every
IPv4 and IPv6 address given the 52 bytes `kr_inaddr_str` needs (`krNtopStr_eq_zero`). -/

namespace KnotResolver

def INET6_ADDRSTRLEN : Nat := 46

/-- `kr_straddr_family(addr)`: IPv6 when the text holds a colon. -/
def krStraddrFamily (addr : List UInt8) : Int :=
  if (strchr addr 58).isSome then AF_INET6 else AF_INET

/-- `kr_straddr_join(addr, port, buf, &buflen)`: the return code, the bytes written to `buf` and
`*buflen`.  `memcpy` copies the text with its zero byte, and `#` is written over the zero. -/
def krStraddrJoin (addr : List UInt8) (port : UInt16) (buflen : Nat) : Int × List UInt8 × Nat :=
  let family := krStraddrFamily addr
  if family = krError EINVAL ∨ (inetPton family addr).1 = 0 then (krError EINVAL, [], buflen)
  else
    let len := strlen addr
    if len + 6 ≥ buflen then (krError ENOSPC, [], buflen)
    else (0, addr.take len ++ 35 :: u16tostr port ++ [0], len + 6)

/-- `kr_ntop_str(family, src, port, buf, &buflen)`: the return code, the bytes written to `buf`
and `*buflen`.  `inet_ntop` takes the size as a `socklen_t`, 32 bits wide. -/
def krNtopStr (family : Int) (src : List UInt8) (port : UInt16) (buflen : Nat) :
    Int × List UInt8 × Nat :=
  match inetNtop family src (buflen % 2 ^ 32) with
  | .error e => (krError e, [], buflen)
  | .ok text =>
    let buf := text ++ [0]
    let len := strlen buf
    let lenNeed := len + 1 + 5 + 1
    if lenNeed > buflen then (krError ENOSPC, buf, lenNeed)
    else (0, buf.take len ++ 35 :: u16tostr port ++ [0], lenNeed)

/-- `kr_straddr_split(instr, ipaddr, &port)`: the return code, the port written to `*port` and
the string written to `ipaddr`, `none` for what it leaves alone.  The port is cut at the first
`@`, else at the first `#`, and is written before the address's length is checked. -/
def krStraddrSplit (instr : List UInt8) : Int × Option UInt16 × Option (List UInt8) :=
  let pStart := match strchr instr 64 with
    | some i => some i
    | none => strchr instr 35
  let port : Except Int (Option UInt16) :=
    match pStart with
    | none => .ok none
    | some i =>
      if instr.getD (i + 1) 0 = 0 then .error (krError EILSEQ)
      else
        let (p, pEnd) := strtol (instr.drop (i + 1))
        if instr.getD (i + 1 + pEnd) 0 ≠ 0 ∨ p ≤ 0 ∨ p > 65535 then .error (krError EILSEQ)
        else .ok (some (UInt16.ofNat p.toNat))
  match port with
  | .error e => (e, none, none)
  | .ok port =>
    let addrlen := pStart.getD (strlen instr)
    if addrlen > INET6_ADDRSTRLEN then (krError EILSEQ, port, none)
    else (0, port, some (instr.take addrlen))

theorem krStraddrFamily_cases (addr : List UInt8) :
    krStraddrFamily addr = AF_INET ∨ krStraddrFamily addr = AF_INET6 := by
  unfold krStraddrFamily
  split_ifs <;> simp

theorem take_strlen (mem : List UInt8) : mem.take (strlen mem) = cString mem :=
  (List.prefix_iff_eq_take.mp (List.takeWhile_prefix _)).symm

/-! ### Reading back -/

/-- The bytes of an address text, `#` and the port's digits: none is a zero byte or `@`. -/
theorem encoded_byte {text : List UInt8} (htext : ∀ c ∈ text, isAddrChar c = true) {port : UInt16} :
    ∀ c ∈ text ++ 35 :: u16tostr port, c ≠ 0 ∧ c ≠ 64 := by
  simp only [List.mem_append, List.mem_cons]
  rintro c (hc | rfl | hc)
  · exact ⟨(isAddrChar_ne (htext c hc)).1, (isAddrChar_ne (htext c hc)).2.1⟩
  · decide
  · exact ⟨(mem_u16tostr hc).2.1, (mem_u16tostr hc).2.2.1⟩

/-- `kr_straddr_split` reads back an address text followed by `#`, five digits and a zero byte,
whatever follows. -/
theorem krStraddrSplit_encoded {text : List UInt8} (htext : ∀ c ∈ text, isAddrChar c = true)
    (hlen : text.length ≤ INET6_ADDRSTRLEN) {port : UInt16} (hp : 1 ≤ port.toNat)
    (junk : List UInt8) :
    krStraddrSplit (text ++ 35 :: u16tostr port ++ 0 :: junk) = (0, some port, some text) := by
  obtain ⟨d, ds, hdigits⟩ : ∃ d ds, u16tostr port = d :: ds := by
    cases h : u16tostr port with
    | nil => simpa [h] using length_u16tostr port
    | cons d ds => exact ⟨d, ds, rfl⟩
  have hds : ds.length = 4 := by simpa [hdigits] using length_u16tostr port
  have hd : d ≠ 0 := (mem_u16tostr (hdigits ▸ List.mem_cons_self d ds)).2.1
  have hstr : cString (text ++ 35 :: u16tostr port ++ 0 :: junk) = text ++ 35 :: u16tostr port :=
    cString_append_zero (fun c hc => (encoded_byte htext c hc).1) junk
  have hat : strchr (text ++ 35 :: u16tostr port ++ 0 :: junk) 64 = none := by
    rw [strchr, hstr, List.findIdx?_eq_none_iff]
    exact fun c hc => by simpa using (encoded_byte htext c hc).2
  have hhash : strchr (text ++ 35 :: u16tostr port ++ 0 :: junk) 35 = some text.length := by
    have hnone : text.findIdx? (· == 35) = none := List.findIdx?_eq_none_iff.mpr fun c hc => by
      simpa using (isAddrChar_ne (htext c hc)).2.2
    rw [strchr, hstr, List.findIdx?_append, hnone]
    simp
  have hport := strtol_u16tostr port junk
  simp only [hdigits, List.cons_append, List.append_assoc] at hport ⊢
  simp only [hdigits, List.cons_append, List.append_assoc] at hat hhash
  have hget1 : (text ++ 35 :: d :: (ds ++ 0 :: junk)).getD (text.length + 1) 0 = d := by
    rw [List.getD_append_right _ _ _ _ (by omega), Nat.add_sub_cancel_left]
    rfl
  have hget6 : (text ++ 35 :: d :: (ds ++ 0 :: junk)).getD (text.length + 1 + 5) 0 = 0 := by
    rw [List.getD_append_right _ _ _ _ (by omega),
      show text.length + 1 + 5 - text.length = 4 + 2 by omega]
    show (ds ++ 0 :: junk).getD 4 0 = 0
    rw [List.getD_append_right _ _ _ _ (by omega), hds]
    rfl
  have hrange : ¬((0 : UInt8) ≠ 0 ∨ (port.toNat : Int) ≤ 0 ∨ (port.toNat : Int) > 65535) := by
    have : port.toNat < 65536 := port.toNat_lt_size
    simp only [ne_eq, not_true_eq_false, false_or]
    omega
  have hdrop : (text ++ 35 :: d :: (ds ++ 0 :: junk)).drop (text.length + 1) =
      d :: (ds ++ 0 :: junk) := by
    simp [List.drop_append_eq_append_drop]
  simp only [krStraddrSplit, hat, hhash, hget1, hd, if_false, hdrop, hport, hget6, hrange,
    Option.getD_some, Int.toNat_natCast, UInt16.toNat.inj (UInt16.toNat_ofNat_of_lt port.toNat_lt_size),
    not_lt.mpr hlen]
  simp

/-! ### What `kr_straddr_split` accepts -/

/-- The port of `kr_straddr_split` when the separator is at `i`. -/
def splitPort (instr : List UInt8) (i : Nat) : Except Int (Option UInt16) :=
  if instr.getD (i + 1) 0 = 0 then .error (krError EILSEQ)
  else
    let (p, pEnd) := strtol (instr.drop (i + 1))
    if instr.getD (i + 1 + pEnd) 0 ≠ 0 ∨ p ≤ 0 ∨ p > 65535 then .error (krError EILSEQ)
    else .ok (some (UInt16.ofNat p.toNat))

/-- `kr_straddr_split` cuts at the first `@`, else at the first `#`. -/
theorem krStraddrSplit_eq (instr : List UInt8) :
    krStraddrSplit instr =
      match (strchr instr 64).or (strchr instr 35) with
      | none =>
        if strlen instr > INET6_ADDRSTRLEN then (krError EILSEQ, none, none)
        else (0, none, some (instr.take (strlen instr)))
      | some i =>
        match splitPort instr i with
        | .error e => (e, none, none)
        | .ok port =>
          if i > INET6_ADDRSTRLEN then (krError EILSEQ, port, none) else (0, port, some (instr.take i)) := by
  unfold krStraddrSplit
  cases strchr instr 64 with
  | some i => rfl
  | none => cases strchr instr 35 <;> rfl

theorem splitPort_error {instr : List UInt8} {i : Nat} {e : Int} (h : splitPort instr i = .error e) :
    e = krError EILSEQ := by
  unfold splitPort at h
  split_ifs at h
  · exact (Except.error.inj h).symm
  · dsimp only at h
    split_ifs at h
    exact (Except.error.inj h).symm

/-- The port after a separator within the string is accepted exactly for the text of
`PortText`. -/
theorem splitPort_ok_iff {instr : List UInt8} {i : Nat} (hi : i < strlen instr) {port : Option UInt16} :
    splitPort instr i = .ok port ↔
      ∃ v, PortText ((cString instr).drop (i + 1)) v ∧ port = some (UInt16.ofNat v.toNat) := by
  have hdrop : cString (instr.drop (i + 1)) = (cString instr).drop (i + 1) := cString_drop hi
  have hlen : strlen (instr.drop (i + 1)) = strlen instr - (i + 1) := by
    rw [strlen, hdrop, List.length_drop]
    rfl
  have hle := strtol_snd_le (instr.drop (i + 1))
  have hend : instr.getD (i + 1 + (strtol (instr.drop (i + 1))).2) 0 = 0 ↔
      (strtol (instr.drop (i + 1))).2 = strlen (instr.drop (i + 1)) := by
    rw [getD_eq_zero_iff (by omega)]
    omega
  unfold splitPort
  constructor
  · intro h
    by_cases h0 : instr.getD (i + 1) 0 = 0
    · rw [if_pos h0] at h
      cases h
    rw [if_neg h0] at h
    dsimp only at h
    split_ifs at h with hbad
    simp only [Except.ok.injEq] at h
    rw [not_or, not_or, not_not, not_le, not_lt] at hbad
    refine ⟨_, ?_, h.symm⟩
    rw [← hdrop, ← strtol_whole_iff]
    exact ⟨hend.mp hbad.1, rfl, hbad.2.1, hbad.2.2⟩
  · rintro ⟨v, hv, rfl⟩
    have hpos : 0 < ((cString instr).drop (i + 1)).length := by
      obtain ⟨ws, sign, digits, htext, -, -, hne, -⟩ := hv
      rw [htext, List.length_append]
      exact Nat.lt_of_lt_of_le (List.length_pos.mpr hne) (Nat.le_add_left _ _)
    rw [← hdrop, ← strtol_whole_iff] at hv
    obtain ⟨hpEnd, hp, h1, h2⟩ := hv
    have h0 : instr.getD (i + 1) 0 ≠ 0 := by
      rw [List.length_drop] at hpos
      have hnext : i + 1 < strlen instr := by unfold strlen; omega
      rw [Ne, getD_eq_zero_iff hnext.le]
      omega
    rw [if_neg h0]
    dsimp only
    rw [if_neg (by rw [ne_eq, hend, hp]; omega), hp]

/-- `kr_straddr_split` returns 0 exactly for a text without `@` or `#` that fits, or for one
whose text before the separator fits and whose text after it is blanks, an optional `+` and the
digits of a port from 1 to 65535; the port is written only in the second case. -/
theorem krStraddrSplit_eq_zero_iff (instr : List UInt8) (port : Option UInt16)
    (ip : Option (List UInt8)) :
    krStraddrSplit instr = (0, port, ip) ↔
      ((strchr instr 64).or (strchr instr 35) = none ∧ strlen instr ≤ INET6_ADDRSTRLEN ∧
          port = none ∧ ip = some (cString instr)) ∨
        ∃ i v, (strchr instr 64).or (strchr instr 35) = some i ∧ i ≤ INET6_ADDRSTRLEN ∧
          PortText ((cString instr).drop (i + 1)) v ∧ port = some (UInt16.ofNat v.toNat) ∧
          ip = some (instr.take i) := by
  have heilseq : krError EILSEQ ≠ 0 := by decide
  rw [krStraddrSplit_eq]
  cases hs : (strchr instr 64).or (strchr instr 35) with
  | none =>
    simp only [take_strlen, reduceCtorEq, false_and, exists_false, or_false, true_and]
    split_ifs with hl
    · simp only [Prod.mk.injEq, heilseq, false_and, false_iff, not_and]
      intro h
      omega
    · simp only [Prod.mk.injEq, true_and, not_lt.mp hl, eq_comm]
  | some i =>
    have hi : i < strlen instr := by
      rcases Option.or_eq_some.mp hs with h | ⟨-, h⟩ <;> exact lt_strlen_of_strchr h
    simp only [reduceCtorEq, false_and, Option.some.injEq, exists_and_left, exists_eq_left', false_or]
    cases hp : splitPort instr i with
    | error e =>
      have he : e ≠ 0 := splitPort_error hp ▸ heilseq
      simp only [Prod.mk.injEq, he, false_and, false_iff, not_and]
      exact fun _ ⟨v, hv, _⟩ => absurd ((splitPort_ok_iff hi).mpr ⟨v, hv, rfl⟩) (by rw [hp]; exact nofun)
    | ok port' =>
      dsimp only
      split_ifs with hgt
      · simp only [Prod.mk.injEq, heilseq, false_and, false_iff, not_and]
        intro hle
        omega
      · simp only [Prod.mk.injEq, true_and]
        constructor
        · rintro ⟨rfl, rfl⟩
          obtain ⟨v, hv, rfl⟩ := (splitPort_ok_iff hi).mp hp
          exact ⟨not_lt.mp hgt, v, hv, rfl, rfl⟩
        · rintro ⟨-, v, hv, rfl, rfl⟩
          have := (splitPort_ok_iff hi).mpr ⟨v, hv, rfl⟩
          rw [hp, Except.ok.injEq] at this
          exact ⟨this, rfl⟩

/-- `a#+53` and `a# 53` are accepted as port 53, though neither `+` nor a blank is a digit. -/
theorem krStraddrSplit_blank_sign_port :
    krStraddrSplit [97, 35, 43, 53, 51, 0] = (0, some 53, some [97]) ∧
      krStraddrSplit [97, 35, 32, 53, 51, 0] = (0, some 53, some [97]) ∧
      isDigit 43 = false ∧ isDigit 32 = false := by
  decide

/-! ### Writing -/

/-- What `kr_straddr_join` writes when it returns 0: the address text, which `inet_pton`
accepted, then `#`, the port's digits and a zero byte. -/
theorem krStraddrJoin_ok {addr : List UInt8} {port : UInt16} {buflen len : Nat} {buf : List UInt8}
    (h : krStraddrJoin addr port buflen = (0, buf, len)) :
    buf = cString addr ++ 35 :: u16tostr port ++ [0] ∧ (cString addr).length ≤ 45 ∧
      (∀ c ∈ cString addr, isAddrChar c = true) ∧ len = (cString addr).length + 6 ∧
      len < buflen := by
  unfold krStraddrJoin at h
  dsimp only at h
  split_ifs at h with hbad hspace
  · simp [krError, EINVAL] at h
  · simp [krError, ENOSPC] at h
  · simp only [Prod.mk.injEq] at h
    obtain ⟨-, rfl, rfl⟩ := h
    obtain ⟨hlen, hc⟩ := inetPton_text (krStraddrFamily_cases addr) (not_or.mp hbad).2
    exact ⟨by rw [take_strlen], hlen, hc, rfl, by rw [strlen] at hspace ⊢; omega⟩

/-- `strlen` of an address text with its zero byte is the text's length. -/
theorem strlen_addrText {text : List UInt8} (hc : ∀ c ∈ text, isAddrChar c = true) :
    strlen (text ++ [0]) = text.length := by
  rw [strlen, cString_append_zero (fun c hc' => (isAddrChar_ne (hc c hc')).1) []]

/-- `kr_ntop_str` returns 0 for any address of either family, given room for the text, `#`, the
port and the zero byte in a size that `socklen_t` holds. -/
theorem krNtopStr_eq_zero {family : Int} (haf : family = AF_INET ∨ family = AF_INET6)
    (src : List UInt8) (port : UInt16) {buflen : Nat} (hroom : 52 ≤ buflen)
    (hsize : buflen < 2 ^ 32) : (krNtopStr family src port buflen).1 = 0 := by
  obtain ⟨text, htext⟩ :=
    inetNtop_ok haf src (show 46 ≤ buflen % 2 ^ 32 by rw [Nat.mod_eq_of_lt hsize]; omega)
  have hc := inetNtop_text htext
  simp only [krNtopStr, htext, strlen_addrText hc.2]
  rw [if_neg (by omega)]

/-- What `kr_ntop_str` writes when it returns 0: `inet_ntop`'s text of the address, then `#`,
the port's digits and a zero byte. -/
theorem krNtopStr_ok {family : Int} {src : List UInt8} {port : UInt16} {buflen len : Nat}
    {buf : List UInt8} (h : krNtopStr family src port buflen = (0, buf, len)) :
    ∃ text, inetNtop family src (buflen % 2 ^ 32) = .ok text ∧
      buf = text ++ 35 :: u16tostr port ++ [0] ∧ text.length ≤ 45 ∧
      (∀ c ∈ text, isAddrChar c = true) ∧ len = text.length + 7 ∧ len ≤ buflen := by
  unfold krNtopStr at h
  split at h
  · rename_i e he
    simp only [Prod.mk.injEq, krError_eq_zero_iff] at h
    exact absurd h.1 (inetNtop_error_ne_zero he)
  · rename_i text htext
    have hc := inetNtop_text htext
    simp only [strlen_addrText hc.2] at h
    split_ifs at h with hroom
    · simp [krError, ENOSPC] at h
    · simp only [Prod.mk.injEq] at h
      obtain ⟨-, rfl, rfl⟩ := h
      exact ⟨text, htext, by simp, hc.1, hc.2, rfl, by omega⟩

/-! ### The round trip -/

/-- `192.0.2.1`, as the C string `kr_straddr_join` is given. -/
def exampleAddr : List UInt8 := [49, 57, 50, 46, 48, 46, 50, 46, 49, 0]

/-- `2001:db8::1` as the 16 bytes of an `in6_addr`. -/
def exampleAddr6 : List UInt8 := [0x20, 0x01, 0x0d, 0xb8, 0, 0, 0, 0, 0, 0, 0, 0, 0, 0, 0, 1]

/-- `kr_straddr_split` inverts both encoders of `addr#port` texts for every port but 0: on what
`kr_straddr_join` writes it returns 0 with the address given to the join and the port, and on
what `kr_ntop_str` writes, 0 with `inet_ntop`'s text of the address and the port.  The bytes
after the written zero are never read. -/
theorem krStraddrSplit_inverts :
    (∀ (addr : List UInt8) (port : UInt16) (buflen : Nat) (buf : List UInt8) (len : Nat),
      1 ≤ port.toNat → krStraddrJoin addr port buflen = (0, buf, len) → ∀ junk,
        krStraddrSplit (buf ++ junk) = (0, some port, some (cString addr))) ∧
    (∀ (family : Int) (src : List UInt8) (port : UInt16) (buflen : Nat) (buf : List UInt8)
      (len : Nat), 1 ≤ port.toNat → krNtopStr family src port buflen = (0, buf, len) →
        ∃ text, inetNtop family src (buflen % 2 ^ 32) = .ok text ∧
          ∀ junk, krStraddrSplit (buf ++ junk) = (0, some port, some text)) := by
  have h46 : (45 : Nat) ≤ INET6_ADDRSTRLEN := by decide
  refine ⟨fun addr port buflen buf len hp h junk => ?_, fun family src port buflen buf len hp h => ?_⟩
  · obtain ⟨rfl, hlen, hc, -⟩ := krStraddrJoin_ok h
    rw [List.append_assoc, List.singleton_append]
    exact krStraddrSplit_encoded hc (hlen.trans h46) hp junk
  · obtain ⟨text, hn, rfl, hlen, hc, -⟩ := krNtopStr_ok h
    refine ⟨text, hn, fun junk => ?_⟩
    rw [List.append_assoc, List.singleton_append]
    exact krStraddrSplit_encoded hc (hlen.trans h46) hp junk

/-- `192.0.2.1` joined with port 53, and `2001:db8::1` port 53 printed by `kr_ntop_str`, each
split back. -/
theorem krStraddrSplit_inverts_example :
    krStraddrJoin exampleAddr 53 64 =
        (0, [49, 57, 50, 46, 48, 46, 50, 46, 49, 35, 48, 48, 48, 53, 51, 0], 15) ∧
      krStraddrSplit ([49, 57, 50, 46, 48, 46, 50, 46, 49, 35, 48, 48, 48, 53, 51, 0] ++ []) =
        (0, some 53, some (cString exampleAddr)) ∧
      krNtopStr AF_INET6 exampleAddr6 53 64 =
        (0, [50, 48, 48, 49, 58, 100, 98, 56, 58, 58, 49, 35, 48, 48, 48, 53, 51, 0], 18) ∧
      ∃ text, inetNtop AF_INET6 exampleAddr6 (64 % 2 ^ 32) = .ok text ∧
        ∀ junk, krStraddrSplit
          ([50, 48, 48, 49, 58, 100, 98, 56, 58, 58, 49, 35, 48, 48, 48, 53, 51, 0] ++ junk) =
            (0, some 53, some text) :=
  have h : krStraddrJoin exampleAddr 53 64 =
      (0, [49, 57, 50, 46, 48, 46, 50, 46, 49, 35, 48, 48, 48, 53, 51, 0], 15) := by decide
  have hn : krNtopStr AF_INET6 exampleAddr6 53 64 =
      (0, [50, 48, 48, 49, 58, 100, 98, 56, 58, 58, 49, 35, 48, 48, 48, 53, 51, 0], 18) := by decide
  ⟨h, krStraddrSplit_inverts.1 _ _ _ _ _ (by decide) h [], hn,
    krStraddrSplit_inverts.2 _ _ _ _ _ _ (by decide) hn⟩

end KnotResolver
