import KnotResolver.Wire.Rdata
import KnotResolver.Text.Straddr
import KnotResolver.Text.InetInverse
import KnotResolver.Wire.Header

/-! The socket-address helpers of `lib/utils.c`: `kr_inaddr`, `kr_inaddr_family`,
`kr_inaddr_len`, `kr_sockaddr_len`, `kr_family_len`, `kr_inaddr_port`, `kr_inaddr_set_port`,
`kr_sockaddr_cmp` and `kr_inaddr_str`.  A `struct sockaddr` is the bytes it points to, laid out as
on Linux.

`kr_inaddr_set_port` lacks its `break`s, so an IPv4 structure also gets the `sin6_port` store;
both port fields sit at offset 2, so that store writes again what the first wrote, and the
function sets the port `kr_inaddr_port` reads and no other byte (`krInaddrSetPort_lawful`).

The address `kr_inaddr` returns has the size `kr_inaddr_len` gives (`krInaddr_length`).
`kr_sockaddr_cmp` returns 0 exactly for two structures of one family that the accessors cannot
tell apart (`krSockaddrCmp_eq_zero_iff`), and so it is symmetric and transitive.
`kr_inaddr_str` writes every IPv4 or IPv6 structure into a buffer of 52 bytes or more
(`krInaddrStr_eq_zero`).  What
`kr_inaddr_str` prints of an IPv4 or IPv6 structure, `kr_straddr_split` reads back as
`inet_ntop`'s text of its address and its port (`krInaddrStr_split`), and `inet_pton` then reads
that text back as the structure's address (`krInaddrStr_inetPton`). -/

namespace KnotResolver

/-- `sa_family` of the bytes of a `struct sockaddr`: an `unsigned short` at offset 0, in the
host's little-endian order. -/
def saFamily (mem : List UInt8) : Int :=
  ((mem.getD 0 0).toNat + 256 * (mem.getD 1 0).toNat : Nat)

/-- A `struct sockaddr` as the bytes it points to.  On Linux a `struct sockaddr_in` has
`sin_port` at offset 2 and `sin_addr` at 4 in 16 bytes, and a `struct sockaddr_in6` has
`sin6_port` at 2 and `sin6_addr` at 8 in 28 bytes; the bytes hold the whole structure of the
family they name. -/
structure Sockaddr where
  mem : List UInt8
  fits : (saFamily mem = AF_INET → 16 ≤ mem.length) ∧ (saFamily mem = AF_INET6 → 28 ≤ mem.length)

namespace Sockaddr

/-- `addr->sa_family`. -/
def family (addr : Sockaddr) : Int := saFamily addr.mem

/-- The `n` bytes of the field at offset `off`. -/
def field (addr : Sockaddr) (off n : Nat) : List UInt8 := (addr.mem.drop off).take n

end Sockaddr

/-- `kr_inaddr(addr)`: the address field of the family's structure, `none` for `NULL`. -/
def krInaddr (addr : Sockaddr) : Option (List UInt8) :=
  if addr.family = AF_INET then some (addr.field 4 4)
  else if addr.family = AF_INET6 then some (addr.field 8 16)
  else none

/-- `kr_inaddr_family(addr)`. -/
def krInaddrFamily (addr : Sockaddr) : Int := addr.family

/-- `kr_family_len(family)`: the size of the family's address. -/
def krFamilyLen (family : Int) : Int :=
  if family = AF_INET then 4
  else if family = AF_INET6 then 16
  else krError EINVAL

/-- `kr_inaddr_len(addr)`. -/
def krInaddrLen (addr : Sockaddr) : Int := krFamilyLen addr.family

/-- `kr_sockaddr_len(addr)`: the size of the family's structure. -/
def krSockaddrLen (addr : Sockaddr) : Int :=
  if addr.family = AF_INET then 16
  else if addr.family = AF_INET6 then 28
  else krError EINVAL

/-- `kr_inaddr_port(addr)`: `ntohs` of the port field, which both structures hold at offset 2. -/
def krInaddrPort (addr : Sockaddr) : UInt16 :=
  if addr.family = AF_INET then wireReadU16 addr.mem 2
  else if addr.family = AF_INET6 then wireReadU16 addr.mem 2
  else 0

/-- `kr_sockaddr_cmp(left, right)`.  `s_addr` and the ports are compared as the integers they
hold and `sin6_addr` with `memcmp`: each is equality of the field's bytes. -/
def krSockaddrCmp (left right : Sockaddr) : Int :=
  if left.family ≠ right.family then krError EFAULT
  else if left.family = AF_INET then
    if left.field 4 4 ≠ right.field 4 4 then krError EFAULT
    else if left.field 2 2 ≠ right.field 2 2 then krError EFAULT
    else 0
  else if left.family = AF_INET6 then
    if left.field 8 16 ≠ right.field 8 16 then krError EFAULT
    else if left.field 2 2 ≠ right.field 2 2 then krError EFAULT
    else 0
  else krError ENOENT

/-- `kr_inaddr_str(addr, buf, &buflen)`: `kr_ntop_str` of the structure's family, address and
port.  For another family `kr_inaddr` gives `NULL`, which `kr_ntop_str` refuses with
`kr_error(EINVAL)`. -/
def krInaddrStr (addr : Sockaddr) (buflen : Nat) : Int × List UInt8 × Nat :=
  match krInaddr addr with
  | none => (krError EINVAL, [], buflen)
  | some src => krNtopStr addr.family src (krInaddrPort addr) buflen

/-- `192.0.2.1` port 53 as a `struct sockaddr_in`. -/
def exampleSockaddrIn : Sockaddr :=
  ⟨[2, 0, 0, 53, 192, 0, 2, 1, 0, 0, 0, 0, 0, 0, 0, 0], by decide⟩

/-- `ffff:ffff:ffff:ffff:ffff:ffff:ffff:ffff` port 53 as a `struct sockaddr_in6`. -/
def exampleSockaddrIn6 : Sockaddr :=
  ⟨[10, 0, 0, 53, 0, 0, 0, 0] ++ List.replicate 16 0xff ++ [0, 0, 0, 0], by decide⟩

/-- The same address and port with nonzero padding in `sin_zero`. -/
def examplePaddedSockaddrIn : Sockaddr :=
  ⟨[2, 0, 0, 53, 192, 0, 2, 1, 1, 2, 3, 4, 5, 6, 7, 8], by decide⟩

/-- The same address and port, followed in memory by two bytes past the structure. -/
def exampleTrailingSockaddrIn : Sockaddr :=
  ⟨[2, 0, 0, 53, 192, 0, 2, 1, 0, 0, 0, 0, 0, 0, 0, 0, 0xff, 0xff], by decide⟩

/-! ### The accessors -/

section Accessors

variable {addr : Sockaddr}

/-- `kr_inaddr` answers exactly for the two families. -/
theorem krInaddr_isSome_iff :
    (krInaddr addr).isSome ↔ addr.family = AF_INET ∨ addr.family = AF_INET6 := by
  unfold krInaddr
  split_ifs with h4 h6 <;> simp [*]

/-- The address `kr_inaddr` returns has the size `kr_inaddr_len` gives. -/
theorem krInaddr_length {a : List UInt8} (h : krInaddr addr = some a) :
    (a.length : Int) = krInaddrLen addr := by
  have hfits := addr.fits
  unfold krInaddr at h
  unfold krInaddrLen krFamilyLen
  split_ifs at h ⊢ with h4 h6
  · cases h
    have := hfits.1 h4
    simp only [Sockaddr.field, List.length_take, List.length_drop]
    omega
  · cases h
    have := hfits.2 h6
    simp only [Sockaddr.field, List.length_take, List.length_drop]
    omega

/-- Two bytes from `off` of a list that holds them. -/
theorem take_two_drop {mem : List UInt8} {off : Nat} (h : off + 2 ≤ mem.length) :
    (mem.drop off).take 2 = [mem.getD off 0, mem.getD (off + 1) 0] := by
  rw [List.drop_eq_getElem_cons (by omega), List.drop_eq_getElem_cons (by omega),
    List.getD_eq_getElem _ _ (by omega), List.getD_eq_getElem _ _ (by omega)]
  rfl

/-- Network-order reads of two lists are equal exactly when the two bytes read are. -/
theorem wireReadU16_eq_iff {a b : List UInt8} {off : Nat} (ha : off + 2 ≤ a.length)
    (hb : off + 2 ≤ b.length) :
    wireReadU16 a off = wireReadU16 b off ↔ (a.drop off).take 2 = (b.drop off).take 2 := by
  rw [take_two_drop ha, take_two_drop hb]
  simp only [List.cons.injEq, and_true]
  refine ⟨getD_eq_of_wireReadU16_eq, fun ⟨h0, h1⟩ => ?_⟩
  rw [wireReadU16, wireReadU16, h0, h1]

/-- An IPv4 or IPv6 structure holds the family and the port. -/
theorem four_le_length (haf : addr.family = AF_INET ∨ addr.family = AF_INET6) :
    4 ≤ addr.mem.length := by
  rcases haf with h | h
  · exact le_trans (by norm_num) (addr.fits.1 h)
  · exact le_trans (by norm_num) (addr.fits.2 h)

/-- Two structures of one family, IPv4 or IPv6, have one port exactly when their port fields
hold the same bytes. -/
theorem krInaddrPort_eq_iff {left right : Sockaddr} (hf : left.family = right.family)
    (haf : left.family = AF_INET ∨ left.family = AF_INET6) :
    krInaddrPort left = krInaddrPort right ↔ left.field 2 2 = right.field 2 2 := by
  have hne : AF_INET ≠ AF_INET6 := by decide
  have hl := four_le_length haf
  have hr := four_le_length (hf ▸ haf)
  unfold krInaddrPort
  rw [← hf]
  rcases haf with h | h
  · simp only [if_pos h]
    exact wireReadU16_eq_iff hl hr
  · simp only [if_neg (h ▸ hne.symm), if_pos h]
    exact wireReadU16_eq_iff hl hr

end Accessors

/-! ### `kr_inaddr_set_port` -/

/-- `((struct sockaddr_in *)addr)->sin_port = htons(port)`. -/
def sinPortStore (mem : List UInt8) (port : UInt16) : List UInt8 := wireWriteU16 mem 2 port

/-- `((struct sockaddr_in6 *)addr)->sin6_port = htons(port)`. -/
def sin6PortStore (mem : List UInt8) (port : UInt16) : List UInt8 := wireWriteU16 mem 2 port

/-- The bytes after `kr_inaddr_set_port(addr, port)`.  The `AF_INET` case has no `break`, so it
goes on to the `sin6_port` store. -/
def inaddrSetPortMem (mem : List UInt8) (port : UInt16) : List UInt8 :=
  if saFamily mem = AF_INET then sin6PortStore (sinPortStore mem port) port
  else if saFamily mem = AF_INET6 then sin6PortStore mem port
  else mem

section SetPort

variable {mem : List UInt8} {port : UInt16}

/-- The fall-through store of an IPv4 structure writes again the bytes the first one wrote. -/
theorem sin6PortStore_sinPortStore (h : 4 ≤ mem.length) :
    sin6PortStore (sinPortStore mem port) port = sinPortStore mem port :=
  wireWriteU16_wireWriteU16_self h port

/-- For the two families the store is one network-order write at offset 2. -/
theorem inaddrSetPortMem_eq (h : 4 ≤ mem.length) (haf : saFamily mem = AF_INET ∨ saFamily mem = AF_INET6) :
    inaddrSetPortMem mem port = wireWriteU16 mem 2 port := by
  unfold inaddrSetPortMem
  rcases haf with h4 | h6
  · rw [if_pos h4, sin6PortStore_sinPortStore h]
    rfl
  · rw [if_neg (by rw [h6]; decide), if_pos h6]
    rfl

theorem saFamily_wireWriteU16 (h : 4 ≤ mem.length) :
    saFamily (wireWriteU16 mem 2 port) = saFamily mem := by
  rw [saFamily, saFamily, getD_wireWriteU16 h (.inl (by decide : 0 < 2)),
    getD_wireWriteU16 h (.inl (by decide : 1 < 2))]

/-- The store keeps the family and the size of a structure that holds its family's fields. -/
theorem inaddrSetPortMem_keeps (hfits : (saFamily mem = AF_INET → 16 ≤ mem.length) ∧
    (saFamily mem = AF_INET6 → 28 ≤ mem.length)) :
    saFamily (inaddrSetPortMem mem port) = saFamily mem ∧
      (inaddrSetPortMem mem port).length = mem.length := by
  by_cases haf : saFamily mem = AF_INET ∨ saFamily mem = AF_INET6
  · have h : 4 ≤ mem.length := by
      rcases haf with h | h
      · exact le_trans (by norm_num) (hfits.1 h)
      · exact le_trans (by norm_num) (hfits.2 h)
    rw [inaddrSetPortMem_eq h haf]
    exact ⟨saFamily_wireWriteU16 h, length_wireWriteU16 h port⟩
  · rw [not_or] at haf
    simp only [inaddrSetPortMem, if_neg haf.1, if_neg haf.2, and_self]

end SetPort

/-- `kr_inaddr_set_port(addr, port)`. -/
def krInaddrSetPort (addr : Sockaddr) (port : UInt16) : Sockaddr :=
  ⟨inaddrSetPortMem addr.mem port, by
    obtain ⟨hf, hl⟩ := @inaddrSetPortMem_keeps addr.mem port addr.fits
    rw [hf, hl]
    exact addr.fits⟩

@[simp] theorem family_krInaddrSetPort (addr : Sockaddr) (port : UInt16) :
    (krInaddrSetPort addr port).family = addr.family :=
  (inaddrSetPortMem_keeps addr.fits).1

/-- `kr_inaddr_set_port` sets the port that `kr_inaddr_port` reads of an IPv4 or IPv6 structure
and writes no other byte, within the structure or past it, whatever the `AF_INET` case falls
through to; for another family it writes nothing. -/
theorem krInaddrSetPort_lawful (addr : Sockaddr) (p : UInt16) :
    ((addr.family = AF_INET ∨ addr.family = AF_INET6) →
      krInaddrPort (krInaddrSetPort addr p) = p ∧ (4 : Int) ≤ krSockaddrLen addr ∧
      (krInaddrSetPort addr p).mem.length = addr.mem.length ∧
      ∀ i, i ≠ 2 → i ≠ 3 → (krInaddrSetPort addr p).mem.getD i 0 = addr.mem.getD i 0) ∧
    (addr.family ≠ AF_INET → addr.family ≠ AF_INET6 → (krInaddrSetPort addr p).mem = addr.mem) := by
  have hne : AF_INET ≠ AF_INET6 := by decide
  refine ⟨fun haf => ?_, fun h4 h6 => ?_⟩
  · have h := four_le_length haf
    have hmem : (krInaddrSetPort addr p).mem = wireWriteU16 addr.mem 2 p := inaddrSetPortMem_eq h haf
    have hport : wireReadU16 (krInaddrSetPort addr p).mem 2 = p := by
      rw [hmem, wireReadU16_wireWriteU16 h]
    suffices krInaddrPort (krInaddrSetPort addr p) = p ∧ (4 : Int) ≤ krSockaddrLen addr from
      ⟨this.1, this.2, by rw [hmem, length_wireWriteU16 h],
        fun i _ _ => by rw [hmem, getD_wireWriteU16 h (by omega)]⟩
    unfold krInaddrPort krSockaddrLen
    rw [family_krInaddrSetPort]
    rcases haf with h4 | h6
    · simp [h4, hport]
    · simp [h6, hne.symm, hport]
  · simp only [krInaddrSetPort, inaddrSetPortMem]
    rw [if_neg (show ¬saFamily addr.mem = AF_INET from h4),
      if_neg (show ¬saFamily addr.mem = AF_INET6 from h6)]

/-! ### `kr_sockaddr_cmp` -/

section Cmp

variable {left right : Sockaddr}

/-- `kr_sockaddr_cmp` returns 0 exactly for two structures of one family, IPv4 or IPv6, with one
address and one port. -/
theorem krSockaddrCmp_eq_zero_iff :
    krSockaddrCmp left right = 0 ↔
      (krInaddr left).isSome ∧ krInaddrFamily left = krInaddrFamily right ∧
        krInaddr left = krInaddr right ∧ krInaddrPort left = krInaddrPort right := by
  have hne : AF_INET ≠ AF_INET6 := by decide
  have hefault : krError EFAULT ≠ 0 := by decide
  have henoent : krError ENOENT ≠ 0 := by decide
  rw [krInaddr_isSome_iff]
  unfold krSockaddrCmp krInaddrFamily
  by_cases hf : left.family = right.family
  · rw [if_neg (not_not.mpr hf)]
    by_cases haf : left.family = AF_INET ∨ left.family = AF_INET6
    · rw [krInaddrPort_eq_iff hf haf]
      unfold krInaddr
      rw [← hf]
      rcases haf with h | h
      · simp only [if_pos h, Option.some.injEq]
        split_ifs <;> simp_all
      · simp only [if_neg (h ▸ hne.symm), if_pos h, Option.some.injEq]
        split_ifs <;> simp_all
    · rw [not_or] at haf
      simp only [if_neg haf.1, if_neg haf.2]
      exact iff_of_false henoent (by tauto)
  · rw [if_pos hf]
    exact iff_of_false hefault (by tauto)

/-- `kr_sockaddr_cmp` does not depend on the order of its arguments. -/
theorem krSockaddrCmp_comm : krSockaddrCmp left right = krSockaddrCmp right left := by
  unfold krSockaddrCmp
  by_cases hf : left.family = right.family
  · simp only [hf, ne_eq, eq_comm]
  · simp only [hf, Ne.symm hf, ne_eq, not_false_eq_true, if_true]

/-- Structures that `kr_sockaddr_cmp` finds equal to one structure are equal to each other. -/
theorem krSockaddrCmp_trans {middle : Sockaddr} (h1 : krSockaddrCmp left middle = 0)
    (h2 : krSockaddrCmp middle right = 0) : krSockaddrCmp left right = 0 := by
  rw [krSockaddrCmp_eq_zero_iff] at *
  obtain ⟨hs, hf1, ha1, hp1⟩ := h1
  obtain ⟨-, hf2, ha2, hp2⟩ := h2
  exact ⟨hs, hf1.trans hf2, ha1.trans ha2, hp1.trans hp2⟩

/-- `192.0.2.1` port 53 three ways: with a zero `sin_zero`, with bytes in it, and with bytes past
the structure, none of which `kr_sockaddr_cmp` reads. -/
theorem krSockaddrCmp_trans_example :
    krSockaddrCmp exampleSockaddrIn examplePaddedSockaddrIn = 0 ∧
      krSockaddrCmp examplePaddedSockaddrIn exampleTrailingSockaddrIn = 0 ∧
      krSockaddrCmp exampleSockaddrIn exampleTrailingSockaddrIn = 0 :=
  have h1 : krSockaddrCmp exampleSockaddrIn examplePaddedSockaddrIn = 0 := by decide
  have h2 : krSockaddrCmp examplePaddedSockaddrIn exampleTrailingSockaddrIn = 0 := by decide
  ⟨h1, h2, krSockaddrCmp_trans h1 h2⟩

end Cmp

/-! ### `kr_inaddr_str` -/

section Str

variable {addr : Sockaddr}

/-- `kr_inaddr_str` returns 0 for every IPv4 and IPv6 structure, given room for the text, `#`,
the port and the zero byte in a size that `socklen_t` holds. -/
theorem krInaddrStr_eq_zero (haf : (krInaddr addr).isSome) {buflen : Nat} (hroom : 52 ≤ buflen)
    (hsize : buflen < 2 ^ 32) : (krInaddrStr addr buflen).1 = 0 := by
  have hfam := krInaddr_isSome_iff.mp haf
  unfold krInaddrStr
  obtain ⟨src, hsrc⟩ := Option.isSome_iff_exists.mp haf
  rw [hsrc]
  exact krNtopStr_eq_zero hfam src _ hroom hsize

/-- `ffff:ffff:ffff:ffff:ffff:ffff:ffff:ffff` port 53, the longest text `inet_ntop` writes of a
`struct sockaddr_in6`, in 52 bytes. -/
theorem krInaddrStr_eq_zero_example :
    (krInaddr exampleSockaddrIn6).isSome ∧ 52 ≤ 52 ∧ 52 < 2 ^ 32 ∧
      (krInaddrStr exampleSockaddrIn6 52).1 = 0 :=
  have haf : (krInaddr exampleSockaddrIn6).isSome := rfl
  ⟨haf, le_rfl, by norm_num, krInaddrStr_eq_zero haf le_rfl (by norm_num)⟩

example : krInaddrStr exampleSockaddrIn 64 =
    (0, [49, 57, 50, 46, 48, 46, 50, 46, 49, 35, 48, 48, 48, 53, 51, 0], 16) := by
  decide

/-- `kr_straddr_split` reads back what `kr_inaddr_str` writes, for every port but 0:
`inet_ntop`'s text of the structure's address, and the structure's port. -/
theorem krInaddrStr_split {buflen len : Nat} {buf : List UInt8}
    (hp : 1 ≤ (krInaddrPort addr).toNat) (h : krInaddrStr addr buflen = (0, buf, len)) :
    ∃ src text, krInaddr addr = some src ∧
      inetNtop (krInaddrFamily addr) src (buflen % 2 ^ 32) = .ok text ∧
      ∀ junk, krStraddrSplit (buf ++ junk) = (0, some (krInaddrPort addr), some text) := by
  have h46 : (45 : Nat) ≤ INET6_ADDRSTRLEN := by decide
  unfold krInaddrStr at h
  split at h
  · simp [krError, EINVAL] at h
  · rename_i src hsrc
    obtain ⟨text, hn, rfl, hlen, hc, -⟩ := krNtopStr_ok h
    refine ⟨src, text, hsrc, hn, fun junk => ?_⟩
    rw [List.append_assoc, List.singleton_append]
    exact krStraddrSplit_encoded hc (hlen.trans h46) hp junk

/-- What `kr_inaddr_str` writes of an IPv4 or IPv6 structure, `kr_straddr_split` and then
`inet_pton` read back as the structure's port and address, for every port but 0. -/
theorem krInaddrStr_inetPton {buflen len : Nat} {buf : List UInt8}
    (hp : 1 ≤ (krInaddrPort addr).toNat) (h : krInaddrStr addr buflen = (0, buf, len)) :
    ∃ text, krStraddrSplit buf = (0, some (krInaddrPort addr), some text) ∧
      inetPton addr.family (text ++ [0]) = (1, krInaddr addr) := by
  obtain ⟨src, text, hsrc, hn, hsplit⟩ := krInaddrStr_split hp h
  have hlen := krInaddr_length hsrc
  refine ⟨text, by simpa using hsplit [], ?_⟩
  rw [hsrc]
  refine inetPton_inetNtop ?_ hn
  rw [krInaddrLen, krFamilyLen] at hlen
  have hsome : (krInaddr addr).isSome := by simp [hsrc]
  rcases krInaddr_isSome_iff.mp hsome with h4 | h6
  · rw [if_pos h4] at hlen
    exact .inl ⟨h4, by omega⟩
  · rw [if_neg (by rw [h6]; decide), if_pos h6] at hlen
    exact .inr ⟨h6, by omega⟩

/-- `192.0.2.1` port 53 printed and read back. -/
theorem krInaddrStr_inetPton_example :
    1 ≤ (krInaddrPort exampleSockaddrIn).toNat ∧
      krInaddrStr exampleSockaddrIn 64 =
        (0, [49, 57, 50, 46, 48, 46, 50, 46, 49, 35, 48, 48, 48, 53, 51, 0], 16) ∧
      ∃ text, krStraddrSplit [49, 57, 50, 46, 48, 46, 50, 46, 49, 35, 48, 48, 48, 53, 51, 0] =
          (0, some (krInaddrPort exampleSockaddrIn), some text) ∧
        inetPton exampleSockaddrIn.family (text ++ [0]) = (1, krInaddr exampleSockaddrIn) :=
  have h : krInaddrStr exampleSockaddrIn 64 =
      (0, [49, 57, 50, 46, 48, 46, 50, 46, 49, 35, 48, 48, 48, 53, 51, 0], 16) := by decide
  ⟨by decide, h, krInaddrStr_inetPton (by decide) h⟩

end Str

end KnotResolver
