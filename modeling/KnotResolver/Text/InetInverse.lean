import Mathlib.Data.List.GetD
import KnotResolver.Text.Inet

/-! `inet_pton` reads back what `inet_ntop` writes of an address.

Of an IPv4 address, `"%u"` writes a byte's value in at most three digits with no leading zero,
which is what `inet_pton4` accepts, and the four values joined by dots parse to the four bytes
(`inetPton4_ntop4Text`).

Of an IPv6 address, `"%x"` writes a word in one to four hex digits, which `inet_pton6` reads as
one group; the words before and after the run of zero words written as `::` are stored on either
side of the offset `inet_pton6` widens with zero bytes; and the dotted quad of an encapsulated
IPv4 address is handed to `inet_pton4` after the last colon.  So every text `inet_ntop6` writes
parses to the address it was written of (`inetPton6_inetNtop6`), and for either family `inet_pton`
reads back the address from `inet_ntop`'s text (`inetPton_inetNtop`). -/

namespace KnotResolver

/-! ### The digits of a byte -/

theorem digitChar_mod_byte (x : Nat) :
    UInt8.ofNat (Nat.digitChar (x % 10)).toNat = digitByte (x % 10) := by
  have : ∀ d, d < 10 → UInt8.ofNat (Nat.digitChar d).toNat = digitByte d := by decide
  exact this _ (Nat.mod_lt _ (by norm_num))

/-- `printf("%u", n)` of a byte's value: one, two or three digits, the first not a zero unless it
is the only one. -/
theorem printfDigits_lt_256 {n : Nat} (h : n < 256) :
    printfDigits 10 n =
      if n < 10 then [digitByte (n % 10)]
      else if n < 100 then [digitByte (n / 10 % 10), digitByte (n % 10)]
      else [digitByte (n / 10 / 10 % 10), digitByte (n / 10 % 10), digitByte (n % 10)] := by
  unfold printfDigits asciiBytes Nat.toDigits
  split_ifs with h10 h100
  · rw [Nat.toDigitsCore.eq_2, if_pos (by omega)]
    simp only [List.map_cons, List.map_nil, digitChar_mod_byte]
  · obtain ⟨k, rfl⟩ : ∃ k, n = k + 1 := ⟨n - 1, by omega⟩
    rw [Nat.toDigitsCore.eq_2, if_neg (by omega), Nat.toDigitsCore.eq_2, if_pos (by omega)]
    simp only [List.map_cons, List.map_nil, digitChar_mod_byte]
  · obtain ⟨k, rfl⟩ : ∃ k, n = k + 2 := ⟨n - 2, by omega⟩
    rw [Nat.toDigitsCore.eq_2, if_neg (by omega), Nat.toDigitsCore.eq_2, if_neg (by omega),
      Nat.toDigitsCore.eq_2, if_pos (by omega)]
    simp only [List.map_cons, List.map_nil, digitChar_mod_byte]

/-! ### The steps of `inet_pton4` -/

section Steps

variable {octets : Nat} {done : List Nat} {rest : List UInt8}

/-- The first digit of an octet begins it. -/
theorem inetPton4Loop_first {d : Nat} (hd : d < 10) (ho : octets < 4) :
    inetPton4Loop false octets done 0 (digitByte d :: rest) =
      inetPton4Loop true (octets + 1) done d rest := by
  rw [inetPton4Loop.eq_2, (digitByte_class d hd).1, if_pos (by omega)]
  dsimp only
  rw [if_neg (by simp), if_neg (by omega), if_pos (show (!false) = true from rfl),
    if_neg (by omega)]
  congr 1
  omega

/-- A further digit of an octet that does not begin with a zero adds to its value. -/
theorem inetPton4Loop_next {d cur : Nat} (hd : d < 10) (hcur : cur ≠ 0) (hle : cur * 10 + d ≤ 255) :
    inetPton4Loop true octets done cur (digitByte d :: rest) =
      inetPton4Loop true octets done (cur * 10 + d) rest := by
  rw [inetPton4Loop.eq_2, (digitByte_class d hd).1, if_pos (by omega)]
  dsimp only
  rw [if_neg (by simp [hcur]), if_neg (by omega), if_neg (show ¬(!true) = true from nofun)]
  congr 1
  omega

/-- A dot ends an octet that is not the fourth. -/
theorem inetPton4Loop_dot {cur : Nat} (ho : octets ≠ 4) :
    inetPton4Loop true octets done cur (46 :: rest) =
      inetPton4Loop false octets (done ++ [cur]) 0 rest := by
  rw [inetPton4Loop.eq_2, if_neg (by decide), if_pos (by decide), if_neg ho]

/-- The digits `"%u"` writes of a byte's value are read as one octet of that value. -/
theorem inetPton4Loop_printfDigits {n : Nat} (hn : n < 256) (ho : octets < 4) :
    inetPton4Loop false octets done 0 (printfDigits 10 n ++ rest) =
      inetPton4Loop true (octets + 1) done n rest := by
  have hm : ∀ k, k % 10 < 10 := fun k => Nat.mod_lt _ (by norm_num)
  rw [printfDigits_lt_256 hn]
  split_ifs with h10 h100
  · rw [List.singleton_append, inetPton4Loop_first (hm n) ho, Nat.mod_eq_of_lt h10]
  · rw [List.cons_append, List.singleton_append, inetPton4Loop_first (hm _) ho,
      inetPton4Loop_next (hm n) (by omega) (by omega)]
    congr 1
    omega
  · rw [List.cons_append, List.cons_append, List.singleton_append, inetPton4Loop_first (hm _) ho,
      inetPton4Loop_next (hm _) (by omega) (by omega), inetPton4Loop_next (hm n) (by omega) (by omega)]
    congr 1
    omega

end Steps

/-- `inet_pton4` reads back the four bytes from the dotted quad `inet_ntop4` writes of them. -/
theorem inetPton4_ntop4Text (a b c d : UInt8) : inetPton4 (ntop4Text [a, b, c, d]) = some [a, b, c, d] := by
  have hb : ∀ x : UInt8, x.toNat < 256 := fun x => x.val.isLt
  have hx : ∀ x : UInt8, UInt8.ofNat x.toNat = x := fun x => UInt8.toNat.inj (UInt8.toNat_ofNat_of_lt x.val.isLt)
  simp only [inetPton4, ntop4Text, List.getD_cons_zero, List.getD_cons_succ, List.append_assoc,
    List.cons_append]
  rw [inetPton4Loop_printfDigits (hb a) (by norm_num), inetPton4Loop_dot (by norm_num),
    inetPton4Loop_printfDigits (hb b) (by norm_num), inetPton4Loop_dot (by norm_num),
    inetPton4Loop_printfDigits (hb c) (by norm_num), inetPton4Loop_dot (by norm_num),
    ← List.append_nil (printfDigits 10 d.toNat), inetPton4Loop_printfDigits (hb d) (by norm_num)]
  simp [inetPton4Loop, hx]

/-! ### Hex digits -/

/-- The value of hex digits read after `acc`, as the loop of `inet_pton6` computes it. -/
def hexValue (acc : Nat) (ds : List UInt8) : Nat :=
  ds.foldl (fun a c => a * 16 + (hexDigitValue c).getD 0) acc

@[simp] theorem hexValue_nil (acc : Nat) : hexValue acc [] = acc := rfl

@[simp] theorem hexValue_cons (acc : Nat) (c : UInt8) (ds : List UInt8) :
    hexValue acc (c :: ds) = hexValue (acc * 16 + (hexDigitValue c).getD 0) ds := rfl

theorem hexDigitValue_digitChar : ∀ d, d < 16 →
    hexDigitValue (UInt8.ofNat (Nat.digitChar d).toNat) = some d := by
  decide

theorem le_hexValue : ∀ (ds : List UInt8) (acc : Nat), acc ≤ hexValue acc ds
  | [], _ => le_rfl
  | c :: ds, acc => by
    have := le_hexValue ds (acc * 16 + (hexDigitValue c).getD 0)
    rw [hexValue_cons]
    omega

theorem getD_hexDigitValue_lt (c : UInt8) : (hexDigitValue c).getD 0 < 16 := by
  unfold hexDigitValue
  dsimp only
  split_ifs <;> simp only [Option.getD_some, Option.getD_none] <;> omega

/-- The value of `k` hex digits read after `acc` is below `(acc + 1) * 16 ^ k`. -/
theorem hexValue_lt : ∀ (ds : List UInt8) (acc : Nat), hexValue acc ds < (acc + 1) * 16 ^ ds.length
  | [], acc => by simp
  | c :: ds, acc => by
    have hd := getD_hexDigitValue_lt c
    calc hexValue acc (c :: ds) < (acc * 16 + (hexDigitValue c).getD 0 + 1) * 16 ^ ds.length :=
          hexValue_lt ds _
      _ ≤ (acc + 1) * 16 * 16 ^ ds.length := Nat.mul_le_mul_right _ (by omega)
      _ = (acc + 1) * 16 ^ (c :: ds).length := by rw [List.length_cons, pow_succ]; ring

/-- The digits `Nat.toDigitsCore` puts before `ds` are read as `n`, given fuel. -/
theorem hexValue_toDigitsCore : ∀ (f n : Nat) (ds : List Char), n ≤ f →
    hexValue 0 (asciiBytes (Nat.toDigitsCore 16 (f + 1) n ds)) = hexValue n (asciiBytes ds)
  | f, n, ds, hf => by
    rw [Nat.toDigitsCore.eq_2]
    have hd := hexDigitValue_digitChar (n % 16) (Nat.mod_lt _ (by norm_num))
    split_ifs with h0
    · simp only [asciiBytes, List.map_cons, hexValue, List.foldl_cons, hd, Option.getD_some]
      congr 1
      omega
    · obtain ⟨f, rfl⟩ : ∃ f', f = f' + 1 := ⟨f - 1, by omega⟩
      rw [hexValue_toDigitsCore f (n / 16) _ (by omega)]
      simp only [asciiBytes, List.map_cons, hexValue_cons, hd, Option.getD_some]
      congr 1
      omega

theorem suffix_toDigitsCore (b : Nat) : ∀ (f n : Nat) (ds : List Char), ds <:+ Nat.toDigitsCore b f n ds
  | 0, _, ds => List.suffix_refl ds
  | f + 1, n, ds => by
    rw [Nat.toDigitsCore.eq_2]
    split_ifs
    · exact List.suffix_cons _ _
    · exact (List.suffix_cons _ _).trans (suffix_toDigitsCore b f _ _)

/-- Every byte of `printf`'s `%u` or `%x` is a hex digit. -/
theorem printfDigits_hexDigit {b n : Nat} (hb : 0 < b) (hb16 : b ≤ 16) :
    ∀ c ∈ printfDigits b n, (hexDigitValue c).isSome := by
  intro c hc
  obtain ⟨ch, hch, rfl⟩ := List.mem_map.mp hc
  obtain h | ⟨d, hd, rfl⟩ := mem_toDigitsCore hb _ _ _ hch
  · simp at h
  · simp [hexDigitValue_digitChar d (by omega)]

/-- `printf("%x", w)` of a 16-bit word: one to four hex digits, read back as `w`. -/
theorem printfDigits_hex {w : Nat} (hw : w < 65536) :
    printfDigits 16 w ≠ [] ∧ (printfDigits 16 w).length ≤ 4 ∧
      (∀ c ∈ printfDigits 16 w, (hexDigitValue c).isSome) ∧ hexValue 0 (printfDigits 16 w) = w := by
  refine ⟨?_, (printfDigits_text (e := 4) (by norm_num) le_rfl (by norm_num [hw]) (by norm_num)).1, ?_, ?_⟩
  · unfold printfDigits asciiBytes Nat.toDigits
    rw [Nat.toDigitsCore.eq_2]
    split_ifs
    · simp
    · refine List.ne_nil_of_length_pos ?_
      have := (suffix_toDigitsCore 16 w (w / 16) [Nat.digitChar (w % 16)]).length_le
      simp only [List.length_map, List.length_singleton] at this ⊢
      omega
  · exact printfDigits_hexDigit (by norm_num) le_rfl
  · exact hexValue_toDigitsCore w w [] le_rfl

/-! ### The steps of `inet_pton6` -/

section Pton6

variable {curtok rest tp : List UInt8} {colonp : Option Nat}

/-- Hex digits are read into the group being read. -/
theorem inetPton6Loop_hexDigits : ∀ (ds : List UInt8) {s : Pton6State},
    (∀ c ∈ ds, (hexDigitValue c).isSome) → s.xdigitsSeen + ds.length ≤ 4 →
    hexValue s.val ds ≤ 0xffff →
    inetPton6Loop curtok s (ds ++ rest) =
      inetPton6Loop curtok ⟨s.xdigitsSeen + ds.length, hexValue s.val ds, s.tp, s.colonp⟩ rest
  | [], s, _, _, _ => rfl
  | c :: ds, s, hc, hlen, hval => by
    obtain ⟨d, hd⟩ := Option.isSome_iff_exists.mp (hc c (.head _))
    have hle := le_hexValue ds (s.val * 16 + d)
    simp only [hexValue_cons, hd, Option.getD_some] at hval ⊢
    simp only [List.length_cons] at hlen ⊢
    rw [List.cons_append, inetPton6Loop, hd]
    dsimp only
    rw [if_neg (by omega), if_neg (by omega),
      inetPton6Loop_hexDigits ds (fun c' h => hc c' (.tail _ h)) (by dsimp only; omega) hval]
    simp only [Nat.add_assoc, Nat.add_comm 1]

/-- A colon after a group's digits stores the group, and the next group starts after it. -/
theorem inetPton6Loop_colon_store {s : Pton6State} (hx : s.xdigitsSeen ≠ 0) (hrest : rest ≠ [])
    (hroom : s.tp.length + 2 ≤ 16) :
    inetPton6Loop curtok s (58 :: rest) =
      inetPton6Loop rest ⟨0, 0, s.tp ++ groupBytes s.val, s.colonp⟩ rest := by
  rw [inetPton6Loop, show hexDigitValue 58 = none from rfl]
  dsimp only
  rw [if_pos (show UInt8.toNat 58 = 58 from rfl), if_neg hx, if_neg hrest, if_neg (by omega)]

/-- A colon with no digits before it is the second colon of `::`. -/
theorem inetPton6Loop_colon_mark {s : Pton6State} (hx : s.xdigitsSeen = 0) (hc : s.colonp = none) :
    inetPton6Loop curtok s (58 :: rest) =
      inetPton6Loop rest ⟨0, s.val, s.tp, some s.tp.length⟩ rest := by
  rw [inetPton6Loop, show hexDigitValue 58 = none from rfl]
  dsimp only
  rw [if_pos (show UInt8.toNat 58 = 58 from rfl), if_pos hx, hc]
  rfl

/-- The digits `"%x"` writes of a 16-bit word are read as one group of that value. -/
theorem inetPton6Loop_group {w : Nat} (hw : w < 65536) :
    inetPton6Loop curtok ⟨0, 0, tp, colonp⟩ (printfDigits 16 w ++ rest) =
      inetPton6Loop curtok ⟨(printfDigits 16 w).length, w, tp, colonp⟩ rest := by
  obtain ⟨-, hlen, hc, hv⟩ := printfDigits_hex hw
  rw [inetPton6Loop_hexDigits _ hc (by dsimp only; omega) (by dsimp only; omega)]
  simp only [Nat.zero_add, hv]

/-- Groups each followed by a colon are stored one after the other. -/
theorem inetPton6Loop_groups : ∀ (ws : List Nat) (curtok tp : List UInt8), rest ≠ [] →
    (∀ w ∈ ws, w < 65536) → tp.length + 2 * ws.length ≤ 16 → ∃ curtok',
      inetPton6Loop curtok ⟨0, 0, tp, colonp⟩ ((ws.flatMap fun w => printfDigits 16 w ++ [58]) ++ rest) =
        inetPton6Loop curtok' ⟨0, 0, tp ++ ws.flatMap groupBytes, colonp⟩ rest
  | [], curtok, tp, _, _, _ => ⟨curtok, by simp⟩
  | w :: ws, curtok, tp, hrest, hw, hroom => by
    have hw0 := hw w (.head _)
    have hne := (printfDigits_hex hw0).1
    simp only [List.flatMap_cons, List.append_assoc, List.singleton_append, List.length_cons] at hroom ⊢
    rw [inetPton6Loop_group hw0, List.cons_append, inetPton6Loop_colon_store (by simpa using hne)
      (List.append_ne_nil_of_right_ne_nil _ hrest) (by dsimp only; omega)]
    obtain ⟨curtok', h⟩ := inetPton6Loop_groups ws _ (tp ++ groupBytes w) hrest
      (fun w' h => hw w' (.tail _ h))
      (by simp only [List.length_append, groupBytes, List.length_cons, List.length_nil]; omega)
    exact ⟨curtok', by rw [← List.append_assoc]; exact h⟩

/-- An IPv4 address after the last colon: its first octet is read as hex digits, and its dot hands
the text since the colon to `inet_pton4`, which ends the loop. -/
theorem inetPton6Loop_dotted {n : Nat} (hn : n < 256) {more quad : List UInt8}
    (hq : inetPton4 (printfDigits 10 n ++ 46 :: more) = some quad) (hroom : tp.length + 4 ≤ 16) :
    ∃ v, inetPton6Loop (printfDigits 10 n ++ 46 :: more) ⟨0, 0, tp, colonp⟩
      (printfDigits 10 n ++ 46 :: more) = some ⟨0, v, tp ++ quad, colonp⟩ := by
  have hlen := (printfDigits_text (b := 10) (n := n) (e := 3) (by norm_num) (by norm_num)
    (by norm_num; omega) (by norm_num)).1
  have hval := hexValue_lt (printfDigits 10 n) 0
  have h16 : 16 ^ (printfDigits 10 n).length ≤ 16 ^ 3 := Nat.pow_le_pow_right (by norm_num) hlen
  refine ⟨hexValue 0 (printfDigits 10 n), ?_⟩
  rw [inetPton6Loop_hexDigits _ (printfDigits_hexDigit (by norm_num) (by norm_num))
    (by dsimp only; omega) (by dsimp only; omega), inetPton6Loop, show hexDigitValue 46 = none from rfl]
  dsimp only
  rw [if_neg (by decide), if_pos ⟨rfl, hroom⟩, hq]
  rfl

end Pton6

/-! ### Groups separated by colons -/

/-- Words as hex groups separated by colons, as `inet_ntop6` writes the words outside `::`. -/
def hexText : List Nat → List UInt8
  | [] => []
  | [w] => printfDigits 16 w
  | w :: v :: ws => printfDigits 16 w ++ 58 :: hexText (v :: ws)

theorem length_flatMap_groupBytes (ws : List Nat) : (ws.flatMap groupBytes).length = 2 * ws.length := by
  induction ws with
  | nil => rfl
  | cons w ws ih =>
    simp only [List.flatMap_cons, List.length_append, ih, groupBytes, List.length_cons,
      List.length_nil]
    omega

section Finish

variable {colonp : Option Nat}

/-- `inet_pton6` reads groups separated by colons as their words, two bytes each. -/
theorem pton6_hexText : ∀ (ws : List Nat) (curtok tp : List UInt8), (∀ w ∈ ws, w < 65536) →
    tp.length + 2 * ws.length ≤ 16 →
    (inetPton6Loop curtok ⟨0, 0, tp, colonp⟩ (hexText ws)).bind inetPton6Finish =
      pton6Expand (tp ++ ws.flatMap groupBytes) colonp
  | [], curtok, tp, _, _ => by simp [hexText, inetPton6Loop, inetPton6Finish]
  | [w], curtok, tp, hw, hroom => by
    have hne := (printfDigits_hex (hw w (.head _))).1
    rw [hexText, ← List.append_nil (printfDigits 16 w), inetPton6Loop_group (hw w (.head _))]
    simp only [inetPton6Loop, Option.some_bind, inetPton6Finish]
    rw [if_pos (List.length_pos.mpr hne), if_neg (by simp only [List.length_singleton] at hroom; omega)]
    simp
  | w :: v :: ws, curtok, tp, hw, hroom => by
    have hw0 := hw w (.head _)
    have hne := (printfDigits_hex hw0).1
    have hne' : hexText (v :: ws) ≠ [] := by
      cases ws <;> simp [hexText, (printfDigits_hex (hw v (.tail _ (.head _)))).1]
    simp only [List.length_cons] at hroom
    rw [hexText, inetPton6Loop_group hw0, inetPton6Loop_colon_store (by simpa using hne) hne'
      (by dsimp only; omega)]
    dsimp only
    rw [pton6_hexText (v :: ws) _ _ (fun w' h => hw w' (.tail _ h))
      (by simp only [List.length_append, groupBytes, List.length_cons, List.length_nil]; omega)]
    simp only [List.flatMap_cons, List.append_assoc]

end Finish

/-! ### The text of `inet_ntop6` -/

section Format

variable (src : List UInt8) (words : List Nat) {best : Option (Nat × Nat)}

/-- A word outside the run written as `::`, other than the encapsulated IPv4 address: a colon
unless it is the first word, then its hex digits. -/
theorem ntop6Format_word (n i : Nat) (tp : List UInt8) (hrun : inBestRun best i = false)
    (henc : ¬(i = 6 ∧ ntop6Encapsulated words best = true)) :
    ntop6Format src words best (n + 1) i tp = ntop6Format src words best n (i + 1)
      ((if i ≠ 0 then tp ++ [58] else tp) ++ printfDigits 16 (words.getD i 0)) := by
  rw [ntop6Format, if_neg (by simp [hrun])]
  dsimp only
  rw [if_neg henc]

/-- Words from `i` on, none in the run nor the encapsulated address and `i` not the first: each
a colon and its hex digits. -/
theorem ntop6Format_words : ∀ (k n i : Nat) (tp : List UInt8), i ≠ 0 →
    (∀ j, i ≤ j → j < i + k →
      inBestRun best j = false ∧ ¬(j = 6 ∧ ntop6Encapsulated words best = true)) →
    ntop6Format src words best (n + k) i tp = ntop6Format src words best n (i + k)
      (tp ++ ((List.range' i k).map (words.getD · 0)).flatMap fun w => 58 :: printfDigits 16 w)
  | 0, n, i, tp, _, _ => by simp
  | k + 1, n, i, tp, hi, h => by
    obtain ⟨hrun, henc⟩ := h i le_rfl (by omega)
    rw [show n + (k + 1) = n + k + 1 by omega, ntop6Format_word src words _ _ _ hrun henc, if_pos hi,
      ntop6Format_words k n (i + 1) _ (by omega) fun j h1 h2 => h j (by omega) (by omega)]
    simp only [List.range'_succ, List.map_cons, List.flatMap_cons, List.append_assoc,
      List.singleton_append, List.cons_append, List.nil_append, Nat.add_assoc, Nat.add_comm 1 k]

/-- The words of the run after its first: nothing. -/
theorem ntop6Format_runTail {b l : Nat} (hbest : best = some (b, l)) :
    ∀ (k : Nat) {n i : Nat} {tp : List UInt8}, b < i → i + k ≤ b + l →
      ntop6Format src words best (n + k) i tp = ntop6Format src words best n (i + k) tp
  | 0, n, i, tp, _, _ => rfl
  | k + 1, n, i, tp, hb, hk => by
    rw [show n + (k + 1) = n + k + 1 by omega, ntop6Format,
      if_pos (by simp only [hbest, inBestRun, Bool.and_eq_true, decide_eq_true_eq]; omega),
      if_neg (by simp only [hbest, Option.map_some', Option.some.injEq]; omega),
      ntop6Format_runTail hbest k (by omega) (by omega), Nat.add_assoc, Nat.add_comm 1 k]

/-- The run of zero words: one colon. -/
theorem ntop6Format_run {b l : Nat} (hbest : best = some (b, l)) (hl : 1 ≤ l) (n : Nat)
    (tp : List UInt8) :
    ntop6Format src words best (n + l) b tp = ntop6Format src words best n (b + l) (tp ++ [58]) := by
  obtain ⟨k, rfl⟩ : ∃ k, l = k + 1 := ⟨l - 1, by omega⟩
  rw [show n + (k + 1) = n + k + 1 by omega, ntop6Format,
    if_pos (by simp only [hbest, inBestRun, Bool.and_eq_true, decide_eq_true_eq]; omega),
    if_pos (by simp [hbest]), ntop6Format_runTail src words hbest k (by omega) (by omega)]
  rw [Nat.add_assoc, Nat.add_comm 1 k]

/-- The encapsulated IPv4 address: a colon and `inet_ntop4`'s text of the last four bytes, which
ends the text. -/
theorem ntop6Format_enc (n : Nat) (tp : List UInt8) (hrun : inBestRun best 6 = false)
    (henc : ntop6Encapsulated words best = true) (hfit : tp.length ≤ 29) :
    ntop6Format src words best (n + 1) 6 tp = .ok (tp ++ [58] ++ ntop4Text (src.drop 12)) := by
  have hq := (ntop4Text_text (src.drop 12)).1
  rw [ntop6Format, if_neg (by simp [hrun])]
  dsimp only
  rw [if_pos ⟨rfl, henc⟩, if_pos (by decide), inetNtop4, if_neg (by simp; omega)]

end Format

/-! ### The run written as `::` -/

theorem keepLonger_cases (c : Nat × Nat) (best : Option (Nat × Nat)) :
    keepLonger c best = some c ∨ keepLonger c best = best := by
  cases best with
  | none => exact .inl rfl
  | some b =>
    simp only [keepLonger]
    split_ifs <;> simp

/-- Ending a run of zero words that ends by word `i` keeps the longest one so far a run of zero
words ending by `i`. -/
theorem keepLonger_zero {W : List Nat} {i : Nat} {c : Nat × Nat} {best : Option (Nat × Nat)}
    (hc : c.1 + c.2 ≤ i) (hz : ∀ j, c.1 ≤ j → j < c.1 + c.2 → W.getD j 0 = 0)
    (hbest : ∀ b l, best = some (b, l) → b + l ≤ i ∧ ∀ j, b ≤ j → j < b + l → W.getD j 0 = 0) :
    ∀ b l, keepLonger c best = some (b, l) → b + l ≤ i ∧ ∀ j, b ≤ j → j < b + l → W.getD j 0 = 0 := by
  intro b l hk
  rcases keepLonger_cases c best with he | he <;> rw [he] at hk
  · cases hk
    exact ⟨hc, hz⟩
  · exact hbest b l hk

/-- The search of `inet_ntop6` keeps runs of zero words of `W`: the run being read ends at the
word being read, and the longest one so far ends before it. -/
theorem zeroRunLoop_zero (W : List Nat) : ∀ (ws : List Nat) (i : Nat) (cur best : Option (Nat × Nat)),
    (∀ k, W.getD (i + k) 0 = ws.getD k 0) →
    (∀ b l, cur = some (b, l) → b + l = i ∧ ∀ j, b ≤ j → j < b + l → W.getD j 0 = 0) →
    (∀ b l, best = some (b, l) → b + l ≤ i ∧ ∀ j, b ≤ j → j < b + l → W.getD j 0 = 0) →
    ∀ b l, zeroRunLoop i ws cur best = some (b, l) →
      b + l ≤ i + ws.length ∧ ∀ j, b ≤ j → j < b + l → W.getD j 0 = 0
  | [], i, cur, best, _, hcur, hbest, b, l, h => by
    rw [List.length_nil, Nat.add_zero]
    rcases cur with _ | ⟨b₀, l₀⟩
    · exact hbest b l h
    · obtain ⟨hc, hz⟩ := hcur b₀ l₀ rfl
      exact keepLonger_zero hc.le hz hbest b l h
  | w :: ws, i, cur, best, hW, hcur, hbest, b, l, h => by
    have hw : W.getD i 0 = w := by simpa using hW 0
    have hW' : ∀ k, W.getD (i + 1 + k) 0 = ws.getD k 0 := fun k => by
      simpa [Nat.add_assoc, Nat.add_comm 1 k] using hW (k + 1)
    have hbest' : ∀ b l, best = some (b, l) → b + l ≤ i + 1 ∧ ∀ j, b ≤ j → j < b + l → W.getD j 0 = 0 :=
      fun b l hb => (hbest b l hb).imp (by omega) id
    rw [List.length_cons, Nat.add_comm ws.length 1, ← Nat.add_assoc]
    simp only [zeroRunLoop] at h
    split_ifs at h with hw0
    · -- a zero word lengthens the run being read
      refine zeroRunLoop_zero W ws (i + 1) _ best hW' (fun b' l' hc => ?_) hbest' b l h
      rcases cur with _ | ⟨b₀, l₀⟩ <;> simp only [Option.some.injEq, Prod.mk.injEq] at hc
      · exact ⟨by omega, fun j h1 h2 => by rw [show j = i by omega, hw, hw0]⟩
      · obtain ⟨hc', hz⟩ := hcur b₀ l₀ rfl
        refine ⟨by omega, fun j h1 h2 => ?_⟩
        rcases Nat.lt_or_ge j (b₀ + l₀) with hj | hj
        · exact hz j (by omega) hj
        · rw [show j = i by omega, hw, hw0]
    · -- another word ends it
      refine zeroRunLoop_zero W ws (i + 1) none _ hW' (by simp) ?_ b l h
      rcases cur with _ | ⟨b₀, l₀⟩
      · exact hbest'
      · obtain ⟨hc, hz⟩ := hcur b₀ l₀ rfl
        exact keepLonger_zero (by omega) hz hbest'

/-! ### Words and bytes -/

theorem groupBytes_bytes (x y : UInt8) : groupBytes (x.toNat * 256 + y.toNat) = [x, y] := by
  have hx : x.toNat < 256 := x.val.isLt
  have hy : y.toNat < 256 := y.val.isLt
  simp only [groupBytes, List.cons.injEq, and_true]
  constructor
  · apply UInt8.toNat.inj
    show (x.toNat * 256 + y.toNat) / 256 % 256 = x.toNat
    omega
  · apply UInt8.toNat.inj
    show (x.toNat * 256 + y.toNat) % 256 = y.toNat
    omega

theorem ntop6Words_getD (src : List UInt8) {j : Nat} (hj : j < 8) :
    (ntop6Words src).getD j 0 = (src.getD (2 * j) 0).toNat * 256 + (src.getD (2 * j + 1) 0).toNat := by
  simp [ntop6Words, List.getD_eq_getElem?_getD, hj]

theorem length_ntop6Words (src : List UInt8) : (ntop6Words src).length = 8 := by
  simp [ntop6Words]

theorem mem_ntop6Words_lt (src : List UInt8) : ∀ w ∈ ntop6Words src, w < 65536 := by
  intro w hw
  obtain ⟨j, -, rfl⟩ := List.mem_map.mp hw
  have h1 : (src.getD (2 * j) 0).toNat < 256 := (src.getD (2 * j) 0).val.isLt
  have h2 : (src.getD (2 * j + 1) 0).toNat < 256 := (src.getD (2 * j + 1) 0).val.isLt
  omega

/-- The words from `i` on, as bytes, are the address's bytes from `2 * i` on. -/
theorem flatMap_groupBytes_range {src : List UInt8} (hs : src.length = 16) :
    ∀ k i, i + k ≤ 8 →
      ((List.range' i k).map ((ntop6Words src).getD · 0)).flatMap groupBytes =
        (src.drop (2 * i)).take (2 * k)
  | 0, i, _ => by simp
  | k + 1, i, h => by
    rw [List.range'_succ, List.map_cons, List.flatMap_cons, ntop6Words_getD src (by omega),
      groupBytes_bytes, flatMap_groupBytes_range hs k (i + 1) (by omega),
      List.getD_eq_getElem _ _ (by omega), List.getD_eq_getElem _ _ (by omega)]
    conv_rhs => rw [List.drop_eq_getElem_cons (by omega), List.drop_eq_getElem_cons (by omega),
      show 2 * (k + 1) = 2 * k + 1 + 1 by omega, List.take_succ_cons, List.take_succ_cons]
    rw [show 2 * (i + 1) = 2 * i + 1 + 1 by omega]
    rfl

theorem ntop6Words_range (src : List UInt8) :
    (List.range' 0 8).map ((ntop6Words src).getD · 0) = ntop6Words src := by
  apply List.ext_getElem (by simp [ntop6Words])
  intro j h1 h2
  simp only [List.length_map, List.length_range'] at h1
  simp only [List.getElem_map, List.getElem_range', Nat.zero_add, Nat.one_mul]
  exact List.getD_eq_getElem _ _ h2

/-- The run `inet_ntop6` writes as `::` is of at least two zero words. -/
theorem ntop6BestRun_some {words : List Nat} {b l : Nat} (h : ntop6BestRun words = some (b, l)) :
    2 ≤ l ∧ b + l ≤ words.length ∧ ∀ j, b ≤ j → j < b + l → words.getD j 0 = 0 := by
  unfold ntop6BestRun at h
  split at h
  · rename_i b' l' hz
    split_ifs at h with hl
    cases h
    have := zeroRunLoop_zero words words 0 none none (by simp) (by simp) (by simp) b l hz
    exact ⟨by omega, by simpa using this.1, this.2⟩
  · cases h

/-! ### Reading the text back -/

theorem hexText_cons (w : Nat) : ∀ ws : List Nat,
    hexText (w :: ws) = printfDigits 16 w ++ ws.flatMap fun v => 58 :: printfDigits 16 v
  | [] => by simp [hexText]
  | v :: ws => by rw [hexText, hexText_cons v ws]; simp

theorem hexText_append_colon : ∀ ws : List Nat, ws ≠ [] →
    hexText ws ++ [58] = ws.flatMap fun w => printfDigits 16 w ++ [58]
  | [], h => absurd rfl h
  | [w], _ => by simp [hexText]
  | w :: v :: ws, _ => by
    rw [hexText, List.append_assoc, List.cons_append, hexText_append_colon (v :: ws) (by simp)]
    simp

theorem ne_colon_of_hexDigitValue {c : UInt8} {d : Nat} (h : hexDigitValue c = some d) :
    c.toNat ≠ 58 := by
  intro hc
  rw [show c = 58 from UInt8.toNat.inj hc] at h
  cases h

/-- A text that begins with a hex digit is read from its first byte. -/
theorem inetPton6_hexStart {w : Nat} (hw : w < 65536) (rest : List UInt8) :
    inetPton6 (printfDigits 16 w ++ rest) = inetPton6Body (printfDigits 16 w ++ rest) := by
  obtain ⟨hne, -, hc, -⟩ := printfDigits_hex hw
  obtain ⟨c, cs, hcs⟩ := List.exists_cons_of_ne_nil hne
  obtain ⟨d, hd⟩ := Option.isSome_iff_exists.mp (hc c (hcs ▸ List.mem_cons_self c cs))
  rw [hcs, List.cons_append]
  simp only [inetPton6, ne_eq, ne_colon_of_hexDigitValue hd, not_false_eq_true, if_true]

/-- What `inet_pton6` reads of groups before and after `::`. -/
theorem pton6_body (pre post : List Nat) (curtok : List UInt8) (hpre : ∀ w ∈ pre, w < 65536)
    (hpost : ∀ w ∈ post, w < 65536) (hroom : 2 * (pre.length + post.length) ≤ 16) :
    (inetPton6Loop curtok ⟨0, 0, [], none⟩
      ((pre.flatMap fun w => printfDigits 16 w ++ [58]) ++ 58 :: hexText post)).bind
        inetPton6Finish =
      pton6Expand (pre.flatMap groupBytes ++ post.flatMap groupBytes) (some (2 * pre.length)) := by
  have hg : ∃ c', inetPton6Loop curtok ⟨0, 0, [], none⟩
      ((pre.flatMap fun w => printfDigits 16 w ++ [58]) ++ 58 :: hexText post) =
        inetPton6Loop c' ⟨0, 0, [] ++ pre.flatMap groupBytes, none⟩ (58 :: hexText post) :=
    inetPton6Loop_groups pre curtok [] (List.cons_ne_nil _ _) hpre
      (by simp only [List.length_nil]; omega)
  obtain ⟨c', h⟩ := hg
  rw [h, inetPton6Loop_colon_mark rfl rfl]
  dsimp only
  rw [pton6_hexText post _ _ hpost
    (by simp only [List.nil_append, length_flatMap_groupBytes]; omega)]
  simp only [List.nil_append, length_flatMap_groupBytes]

theorem inetNtop6_ok {src text : List UInt8} {size : Nat} (h : inetNtop6 src size = .ok text) :
    ∃ tp, ntop6Format src (ntop6Words src) (ntop6BestRun (ntop6Words src)) 8 0 [] = .ok tp ∧
      text = if ((ntop6BestRun (ntop6Words src)).map fun r => r.1 + r.2) = some 8 then tp ++ [58]
        else tp := by
  unfold inetNtop6 at h
  dsimp only at h
  split at h
  · cases h
  · rename_i tp htp
    refine ⟨tp, htp, ?_⟩
    by_cases h8 : ((ntop6BestRun (ntop6Words src)).map fun r => r.1 + r.2) = some 8
    · rw [if_pos h8] at h ⊢
      split_ifs at h
      exact (Except.ok.inj h).symm
    · rw [if_neg h8] at h ⊢
      split_ifs at h
      exact (Except.ok.inj h).symm

/-- The text of an address with no run of zero words to shorten: its words as hex groups. -/
theorem ntop6Format_noRun (src : List UInt8) :
    ntop6Format src (ntop6Words src) none 8 0 [] = .ok (hexText (ntop6Words src)) := by
  have hr : ∀ j, inBestRun none j = false ∧
      ¬(j = 6 ∧ ntop6Encapsulated (ntop6Words src) none = true) :=
    fun j => ⟨rfl, by simp [ntop6Encapsulated]⟩
  have hw := ntop6Format_words src _ 7 0 1 (printfDigits 16 ((ntop6Words src).getD 0 0))
    (by omega) fun j _ _ => hr j
  rw [show (8 : Nat) = 7 + 1 from rfl, ntop6Format_word src _ 7 0 [] (hr 0).1 (hr 0).2, if_neg (by decide),
    List.nil_append, show (7 : Nat) = 0 + 7 from rfl, hw, ntop6Format]
  conv_rhs => rw [← ntop6Words_range src, List.range'_succ, List.map_cons, hexText_cons]

/-- Words `i` to `i + k - 1` of an address. -/
def wordsFrom (src : List UInt8) (i k : Nat) : List Nat :=
  (List.range' i k).map ((ntop6Words src).getD · 0)

theorem wordsFrom_succ (src : List UInt8) (i k : Nat) :
    wordsFrom src i (k + 1) = (ntop6Words src).getD i 0 :: wordsFrom src (i + 1) k := by
  simp [wordsFrom, List.range'_succ]

/-- The text around a run of zero words that is not an encapsulated IPv4 address: the words
before it each followed by a colon, or a colon for a run at the start, then a colon and each
word after it. -/
theorem ntop6Format_someRun {src : List UInt8} {b l : Nat}
    (hbest : ntop6BestRun (ntop6Words src) = some (b, l))
    (henc : ntop6Encapsulated (ntop6Words src) (some (b, l)) = false) :
    ntop6Format src (ntop6Words src) (some (b, l)) 8 0 [] =
      .ok ((if b = 0 then [58] else (wordsFrom src 0 b).flatMap fun w => printfDigits 16 w ++ [58]) ++
        (wordsFrom src (b + l) (8 - (b + l))).flatMap fun w => 58 :: printfDigits 16 w) := by
  obtain ⟨hl, hbl, -⟩ := ntop6BestRun_some hbest
  rw [length_ntop6Words] at hbl
  have hout : ∀ j, j < b ∨ b + l ≤ j → inBestRun (some (b, l)) j = false ∧
      ¬(j = 6 ∧ ntop6Encapsulated (ntop6Words src) (some (b, l)) = true) := fun j hj =>
    ⟨by simp only [inBestRun, Bool.and_eq_false_iff, decide_eq_false_iff_not]; omega,
      by simp [henc]⟩
  have hpost : ∀ tp, ntop6Format src (ntop6Words src) (some (b, l)) (8 - (b + l)) (b + l) tp =
      .ok (tp ++ (wordsFrom src (b + l) (8 - (b + l))).flatMap fun w => 58 :: printfDigits 16 w) := by
    intro tp
    have e := ntop6Format_words src _ (8 - (b + l)) 0 (b + l) tp (by omega)
      fun j h1 _ => hout j (.inr h1)
    rw [Nat.zero_add, show b + l + (8 - (b + l)) = 8 by omega, ntop6Format] at e
    exact e
  have hrun := ntop6Format_run src (ntop6Words src) (rfl : some (b, l) = some (b, l)) (by omega : 1 ≤ l) (8 - (b + l))
  rw [show 8 - (b + l) + l = 8 - b by omega] at hrun
  by_cases hb : b = 0
  · subst hb
    simp only [Nat.zero_add, Nat.sub_zero] at hpost hrun
    rw [if_pos rfl, hrun, hpost]
    simp only [Nat.zero_add, List.nil_append]
  · rw [if_neg hb]
    obtain ⟨k, rfl⟩ : ∃ k, b = k + 1 := ⟨b - 1, by omega⟩
    have hpre := ntop6Format_words src _ k (7 - k) 1 (printfDigits 16 ((ntop6Words src).getD 0 0))
      (by omega) fun j h1 h2 => hout j (.inl (by omega))
    rw [show 7 - k + k = 7 by omega, Nat.add_comm 1 k, show 7 - k = 8 - (k + 1) by omega, hrun,
      hpost] at hpre
    rw [ntop6Format_word src _ 7 0 [] (hout 0 (.inl (by omega))).1 (hout 0 (.inl (by omega))).2,
      if_neg (by decide), List.nil_append, hpre, ← hexText_append_colon _ (by simp [wordsFrom]),
      wordsFrom_succ, hexText_cons]
    rfl

/-- The text of an encapsulated IPv4 address: `::`, then `ffff:` for a mapped one, then the
dotted quad of the last four bytes. -/
theorem ntop6Format_encText (src : List UInt8) {l : Nat} (hl : l = 5 ∨ l = 6)
    (henc : ntop6Encapsulated (ntop6Words src) (some (0, l)) = true) :
    ntop6Format src (ntop6Words src) (some (0, l)) 8 0 [] =
      .ok (58 :: 58 :: (if l = 5 then printfDigits 16 ((ntop6Words src).getD 5 0) ++ [58] else []) ++
        ntop4Text (src.drop 12)) := by
  have hrun := ntop6Format_run src (ntop6Words src) (rfl : some (0, l) = some (0, l))
    (by omega) (8 - l) []
  rw [Nat.sub_add_cancel (by omega), Nat.zero_add] at hrun
  rw [hrun]
  have h4 := (printfDigits_text (b := 16) (n := (ntop6Words src).getD 5 0) (e := 4) (by norm_num) le_rfl
    ((ntop6Words_lt src 5).trans_eq (by norm_num)) (by norm_num)).1
  rcases hl with rfl | rfl
  · rw [ntop6Format_word src _ 2 5 _ (show inBestRun (some (0, 5)) 5 = false from rfl)
      (fun h => absurd h.1 (by decide)), if_pos (by decide),
      ntop6Format_enc src _ 1 _ (show inBestRun (some (0, 5)) 6 = false from rfl) henc
        (by simp only [List.length_append, List.length_singleton, List.nil_append]; omega)]
    simp
  · rw [ntop6Format_enc src _ 1 _ (show inBestRun (some (0, 6)) 6 = false from rfl) henc (by simp)]
    simp

/-- The bytes of a run of zero words are zero. -/
theorem bytes_zeroRun {src : List UInt8} (hs : src.length = 16) {b l : Nat} (hbl : b + l ≤ 8)
    (hz : ∀ j, b ≤ j → j < b + l → (ntop6Words src).getD j 0 = 0) :
    (src.drop (2 * b)).take (2 * l) = List.replicate (2 * l) 0 := by
  rw [← flatMap_groupBytes_range hs l b hbl]
  have hrep : (List.range' b l).map ((ntop6Words src).getD · 0) = List.replicate l 0 := by
    refine List.eq_replicate_iff.mpr ⟨by simp, fun w hw => ?_⟩
    obtain ⟨j, hj, rfl⟩ := List.mem_map.mp hw
    rw [List.mem_range'_1] at hj
    exact hz j hj.1 hj.2
  rw [hrep]
  clear hrep hz hbl
  induction l with
  | zero => rfl
  | succ l ih =>
    rw [List.replicate_succ, List.flatMap_cons, ih, show 2 * (l + 1) = 2 * l + 1 + 1 by omega]
    rfl

/-- Widening `::` back into the run's zero bytes gives the address. -/
theorem pton6Expand_run {src : List UInt8} (hs : src.length = 16) {b l : Nat} (hl : 1 ≤ l)
    (hbl : b + l ≤ 8) (hz : (src.drop (2 * b)).take (2 * l) = List.replicate (2 * l) 0) :
    pton6Expand (src.take (2 * b) ++ src.drop (2 * (b + l))) (some (2 * b)) = some src := by
  have h1 : (src.take (2 * b)).length = 2 * b := by simp [hs]; omega
  have hlen : (src.take (2 * b) ++ src.drop (2 * (b + l))).length = 16 - 2 * l := by
    simp only [List.length_append, h1, List.length_drop, hs]
    omega
  rw [pton6Expand, if_neg (by omega), hlen, List.take_left' h1, List.drop_left' h1,
    show 16 - (16 - 2 * l) = 2 * l by omega, ← hz, List.append_assoc,
    show 2 * (b + l) = 2 * b + 2 * l by ring, ← List.drop_drop, List.take_append_drop,
    List.take_append_drop]

theorem mem_wordsFrom_lt (src : List UInt8) (i k : Nat) : ∀ w ∈ wordsFrom src i k, w < 65536 := by
  intro w hw
  obtain ⟨j, -, rfl⟩ := List.mem_map.mp hw
  exact ntop6Words_lt src j

/-- The groups after `::`, each after a colon, and the colon `inet_ntop6` adds when there are
none. -/
theorem hexText_tail (ws : List Nat) :
    (ws.flatMap fun w => 58 :: printfDigits 16 w) ++ (if ws = [] then [58] else []) =
      58 :: hexText ws := by
  cases ws with
  | nil => rfl
  | cons w ws => simp [hexText_cons]

/-- `inet_pton6` reads back an address from its words as hex groups. -/
theorem inetPton6_hexText {src : List UInt8} (hs : src.length = 16) :
    inetPton6 (hexText (ntop6Words src)) = some src := by
  have hW : ntop6Words src = (ntop6Words src).getD 0 0 :: wordsFrom src 1 7 := by
    rw [← wordsFrom_succ]
    exact (ntop6Words_range src).symm
  have hbytes : (ntop6Words src).flatMap groupBytes = src := by
    rw [← ntop6Words_range src, flatMap_groupBytes_range hs 8 0 le_rfl, List.drop_zero,
      List.take_of_length_le (by omega)]
  rw [hW, hexText_cons, inetPton6_hexStart (ntop6Words_lt src 0), ← hexText_cons, ← hW]
  show (inetPton6Loop _ ⟨0, 0, [], none⟩ _).bind inetPton6Finish = _
  rw [pton6_hexText _ _ [] (mem_ntop6Words_lt src) (by simp [length_ntop6Words]),
    List.nil_append, hbytes, pton6Expand, if_pos hs]

/-- Of a leading `::` the first colon is skipped. -/
theorem inetPton6_colonColon (rest : List UInt8) : inetPton6 (58 :: 58 :: rest) = inetPton6Body (58 :: rest) :=
  rfl

/-- `inet_pton6` reads back an address from the text around its run of zero words. -/
theorem inetPton6_someRun {src : List UInt8} (hs : src.length = 16) {b l : Nat}
    (hbest : ntop6BestRun (ntop6Words src) = some (b, l)) :
    inetPton6 ((if b = 0 then [58] else (wordsFrom src 0 b).flatMap fun w => printfDigits 16 w ++ [58]) ++
      58 :: hexText (wordsFrom src (b + l) (8 - (b + l)))) = some src := by
  obtain ⟨hl, hbl, hz⟩ := ntop6BestRun_some hbest
  rw [length_ntop6Words] at hbl
  have key : ∀ c, (inetPton6Loop c ⟨0, 0, [], none⟩ (((wordsFrom src 0 b).flatMap fun w =>
      printfDigits 16 w ++ [58]) ++ 58 :: hexText (wordsFrom src (b + l) (8 - (b + l))))).bind
        inetPton6Finish = some src := by
    intro c
    rw [pton6_body _ _ c (mem_wordsFrom_lt src 0 b) (mem_wordsFrom_lt src _ _)
      (by simp only [wordsFrom, List.length_map, List.length_range']; omega)]
    simp only [wordsFrom, List.length_map, List.length_range']
    rw [flatMap_groupBytes_range hs b 0 (by omega),
      flatMap_groupBytes_range hs (8 - (b + l)) (b + l) (by omega), List.drop_zero,
      List.take_of_length_le (by simp only [List.length_drop, hs]; omega : (src.drop (2 * (b + l))).length ≤ 2 * (8 - (b + l)))]
    exact pton6Expand_run hs (by omega) hbl (bytes_zeroRun hs hbl hz)
  by_cases hb : b = 0
  · subst hb
    rw [if_pos rfl, List.singleton_append, inetPton6_colonColon]
    exact key _
  · rw [if_neg hb]
    obtain ⟨k, rfl⟩ : ∃ k, b = k + 1 := ⟨b - 1, by omega⟩
    have ht : ((wordsFrom src 0 (k + 1)).flatMap fun w => printfDigits 16 w ++ [58]) ++
        58 :: hexText (wordsFrom src (k + 1 + l) (8 - (k + 1 + l))) =
        printfDigits 16 ((ntop6Words src).getD 0 0) ++ (58 :: ((wordsFrom src 1 k).flatMap fun w =>
          printfDigits 16 w ++ [58]) ++ 58 :: hexText (wordsFrom src (k + 1 + l) (8 - (k + 1 + l)))) := by
      rw [wordsFrom_succ]
      simp
    rw [ht, inetPton6_hexStart (ntop6Words_lt src 0), ← ht]
    exact key _

/-- `inet_pton6` reads back an encapsulated IPv4 address from `::`, the `ffff:` of a mapped one
and the dotted quad. -/
theorem inetPton6_encText {src : List UInt8} (hs : src.length = 16) {l : Nat} (hl : l = 5 ∨ l = 6)
    (hbest : ntop6BestRun (ntop6Words src) = some (0, l)) :
    inetPton6 (58 :: 58 :: (if l = 5 then printfDigits 16 ((ntop6Words src).getD 5 0) ++ [58] else []) ++
      ntop4Text (src.drop 12)) = some src := by
  obtain ⟨-, hbl, hz⟩ := ntop6BestRun_some hbest
  rw [length_ntop6Words] at hbl
  have h4 : (src.drop 12).length = 4 := by simp [hs]
  obtain ⟨a, t, ht⟩ := List.exists_cons_of_ne_nil (List.ne_nil_of_length_pos (by omega : 0 < (src.drop 12).length))
  obtain ⟨b, c, d, rfl⟩ := List.length_eq_three.mp (by simpa [ht] using h4 : t.length = 3)
  have hrun := pton6Expand_run hs (b := 0) (l := l) (by omega) hbl (bytes_zeroRun hs hbl hz)
  have hT : ntop4Text [a, b, c, d] = printfDigits 10 a.toNat ++ 46 :: (printfDigits 10 b.toNat ++
      46 :: (printfDigits 10 c.toNat ++ 46 :: printfDigits 10 d.toNat)) := by
    simp [ntop4Text]
  have hdot : ∀ tp : List UInt8, tp.length ≤ 2 → ∃ v,
      inetPton6Loop (ntop4Text [a, b, c, d]) ⟨0, 0, tp, some 0⟩ (ntop4Text [a, b, c, d]) =
        some ⟨0, v, tp ++ [a, b, c, d], some 0⟩ := fun tp htp => by
    rw [hT]
    exact inetPton6Loop_dotted a.val.isLt (hT ▸ inetPton4_ntop4Text a b c d) (by omega)
  rw [List.cons_append, List.cons_append, inetPton6_colonColon, inetPton6Body,
    inetPton6Loop_colon_mark rfl rfl, ht, List.length_nil]
  rcases hl with rfl | rfl
  · have hw := ntop6Words_lt src 5
    rw [if_pos rfl, List.append_assoc, inetPton6Loop_group hw, List.singleton_append,
      inetPton6Loop_colon_store (by simpa using (printfDigits_hex hw).1) (by simp [ntop4Text])
        (by simp)]
    have h5 : groupBytes ((ntop6Words src).getD 5 0) ++ src.drop 12 = src.drop 10 := by
      have h := flatMap_groupBytes_range hs 1 5 (by omega)
      simp only [List.range'_one, List.map_cons, List.map_nil, List.flatMap_cons, List.flatMap_nil,
        List.append_nil] at h
      rw [h, show src.drop 12 = (src.drop (2 * 5)).drop (2 * 1) by rw [List.drop_drop],
        List.take_append_drop]
    dsimp only
    obtain ⟨v, hv⟩ := hdot ([] ++ groupBytes ((ntop6Words src).getD 5 0)) (by simp [groupBytes])
    rw [hv, ← ht, ← hrun, Option.some_bind, inetPton6Finish, if_neg (lt_irrefl 0), List.nil_append, h5]
    rfl
  · obtain ⟨v, hv⟩ := hdot [] (by simp)
    rw [if_neg (by decide), List.nil_append, hv, ← ht, ← hrun]
    simp [inetPton6Finish]

/-- `inet_pton6` reads back the sixteen bytes from the text `inet_ntop6` writes of them. -/
theorem inetPton6_inetNtop6 {src text : List UInt8} {size : Nat} (hs : src.length = 16)
    (h : inetNtop6 src size = .ok text) : inetPton6 text = some src := by
  obtain ⟨tp, htp, rfl⟩ := inetNtop6_ok h
  rcases hbest : ntop6BestRun (ntop6Words src) with _ | ⟨b, l⟩
  · rw [hbest, ntop6Format_noRun] at htp
    cases htp
    exact inetPton6_hexText hs
  · rw [hbest] at htp
    cases henc : ntop6Encapsulated (ntop6Words src) (some (b, l))
    case false =>
      rw [ntop6Format_someRun hbest henc] at htp
      cases htp
      have hpost := hexText_tail (wordsFrom src (b + l) (8 - (b + l)))
      have h8 : (wordsFrom src (b + l) (8 - (b + l)) = []) ↔ b + l = 8 := by
        have := (ntop6BestRun_some hbest).2.1
        simp only [wordsFrom, List.map_eq_nil_iff, List.range'_eq_nil, length_ntop6Words] at this ⊢
        omega
      simp only [Option.map_some', Option.some.injEq, ← h8]
      rw [← inetPton6_someRun hs hbest, ← hpost, List.append_assoc]
      split_ifs <;> simp
    case true =>
      obtain ⟨rfl, hl⟩ : b = 0 ∧ (l = 5 ∨ l = 6) := by
        simp only [ntop6Encapsulated, Bool.or_eq_true, beq_iff_eq, Option.some.injEq, Prod.mk.injEq,
          Bool.and_eq_true] at henc
        omega
      rw [ntop6Format_encText src hl henc] at htp
      cases htp
      rw [if_neg (by simp only [Option.map_some', Option.some.injEq]; omega)]
      exact inetPton6_encText hs hl hbest

/-! ### Both families -/

/-- `inet_pton` reads back an address from the text `inet_ntop` writes of it and its zero byte,
for an address of the family's size. -/
theorem inetPton_inetNtop {af : Int} {src text : List UInt8} {size : Nat}
    (hs : (af = AF_INET ∧ src.length = 4) ∨ (af = AF_INET6 ∧ src.length = 16))
    (h : inetNtop af src size = .ok text) : inetPton af (text ++ [0]) = (1, some src) := by
  have hc := (inetNtop_text h).2
  rw [inetPton, cString_append_zero (fun c hc' => (isAddrChar_ne (hc c hc')).1)]
  rcases hs with ⟨rfl, hs⟩ | ⟨rfl, hs⟩
  · obtain ⟨a, b, c, d, rfl⟩ : ∃ a b c d, src = [a, b, c, d] := by
      match src, hs with
      | [a, b, c, d], _ => exact ⟨a, b, c, d, rfl⟩
    rw [inetNtop, if_pos rfl, inetNtop4] at h
    split_ifs at h
    cases h
    rw [if_pos rfl, inetPton4_ntop4Text]
    rfl
  · rw [inetNtop, if_neg (by decide), if_pos rfl] at h
    rw [if_neg (by decide), if_pos rfl, inetPton6_inetNtop6 hs h]
    rfl

end KnotResolver
