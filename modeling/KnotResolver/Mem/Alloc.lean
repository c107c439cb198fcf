import Mathlib.Algebra.Order.Ring.Nat
import Mathlib.Algebra.BigOperators.Group.List
import KnotResolver.Text.CString

/-! The allocating helpers of `lib/utils.c`: `mm_realloc` resizes a block through a pool or libc,
`kr_strcatdup` sums the lengths of its strings in a `size_t` and copies them into one block, and
`kr_memreserve` grows the block of an array.  `malloc` and `mm_alloc` are an `Allocator` that
grants a block of the size asked or none, libc's `realloc` a `Realloc` that keeps what fits of the
old block, and sizes are `size_t`, taken modulo `2 ^ 64`.

`mm_realloc` copies `min(prev_size, size)` bytes in its pool branch, so a block resized again and
again keeps its bytes up to the smallest size it has had (`mmReallocRun_keeps`).

`kr_strcatdup` sums exactly: a sum past `SIZE_MAX` is caught at the addition that wraps, and a sum
equal to it at the `+ 1` for the zero byte, so a block reaches `malloc` only when it holds every
string and the zero byte, and the copies fill it and stay in it (`krStrcatdup_concat`).
`kr_memreserve` multiplies without a check: for an element size and count whose product wraps it
reports a capacity its block does not have (`krMemreserve_wraps`); where the product fits it
keeps its contract (`krMemreserve_reserves`). -/

namespace KnotResolver

def SIZE_MAX : Nat := 2 ^ 64 - 1

/-- `malloc`, or `mm_alloc` from a pool: a block of the size asked, or `NULL`. -/
structure Allocator where
  alloc : Nat → Option (List UInt8)
  length_alloc : ∀ n block, alloc n = some block → block.length = n

/-- An allocator that grants every request, with zeroed blocks. -/
def grantAll : Allocator where
  alloc n := some (List.replicate n 0)
  length_alloc n block h := by
    rw [Option.some.injEq] at h
    rw [← h, List.length_replicate]

/-! ### `mm_realloc` -/

/-- libc's `realloc(what, size)`: a block of `size` bytes that starts with as much of the old block
as fits, or `NULL`; `realloc(NULL, size)` is `malloc(size)`. -/
structure Realloc where
  run : Option (List UInt8) → Nat → Option (List UInt8)
  length_run : ∀ what size p, run what size = some p → p.length = size
  prefix_run : ∀ w size p, run (some w) size = some p →
    p.take (min w.length size) = w.take (min w.length size)

/-- A `realloc` that always succeeds and fills the bytes past the old block with zeros. -/
def reallocZero : Realloc where
  run what size := some ((what.getD []).take size ++ List.replicate (size - (what.getD []).length) 0)
  length_run what size p h := by
    rw [Option.some.injEq] at h
    subst h
    simp only [List.length_append, List.length_take, List.length_replicate]
    omega
  prefix_run w size p h := by
    rw [Option.some.injEq] at h
    subst h
    rw [Option.getD_some, List.take_append_of_le_length (by simp), List.take_take,
      Nat.min_eq_left (by omega)]

/-- `mm_realloc(mm, what, size, prev_size)`, `none` being `NULL`.  With a pool, a block of `size`
bytes from `mm->alloc`, into which `memcpy` copies `min(prev_size, size)` bytes of the old block;
freeing the old block leaves nothing the model keeps.  Without one, libc's `realloc`. -/
def mmRealloc (mm : Option Allocator) (realloc : Realloc) (what : Option (List UInt8))
    (size prevSize : Nat) : Option (List UInt8) :=
  match mm with
  | some mm =>
    match mm.alloc size with
    | none => none
    | some p =>
      match what with
      | some what => some (overwrite p 0 (what.take (if prevSize < size then prevSize else size)))
      | none => some p
  | none => realloc.run what size

/-- `mm_realloc` gives a block of the size asked, which starts with the first
`min(prev_size, size)` bytes of the old block when that block holds `prev_size` bytes. -/
theorem mmRealloc_some {mm : Option Allocator} {realloc : Realloc} {w p : List UInt8}
    {size prevSize : Nat} (hprev : prevSize ≤ w.length)
    (h : mmRealloc mm realloc (some w) size prevSize = some p) :
    p.length = size ∧ p.take (min prevSize size) = w.take (min prevSize size) := by
  cases mm with
  | some mm =>
    cases halloc : mm.alloc size with
    | none => simp [mmRealloc, halloc] at h
    | some q =>
      simp only [mmRealloc, halloc, Option.some.injEq] at h
      subst h
      have hq := mm.length_alloc _ _ halloc
      have hmin : (if prevSize < size then prevSize else size) = min prevSize size := by
        split_ifs <;> omega
      have hcopy : 0 + (w.take (min prevSize size)).length ≤ q.length := by
        simp only [List.length_take]
        omega
      rw [hmin]
      refine ⟨by rw [length_overwrite hcopy, hq], ?_⟩
      have ht := take_overwrite hcopy
      rwa [Nat.zero_add, List.take_zero, List.nil_append, List.length_take,
        Nat.min_eq_left (by omega : min prevSize size ≤ w.length)] at ht
  | none =>
    -- `realloc` keeps the first `min(w.length, size)` bytes, and `prev_size ≤ w.length`
    refine ⟨realloc.length_run _ _ _ h, ?_⟩
    have ht := congrArg (List.take (min prevSize size)) (realloc.prefix_run w size p h)
    have hm : min (min prevSize size) (min w.length size) = min prevSize size := by omega
    rwa [List.take_take, List.take_take, hm] at ht

/-- A block resized by `mm_realloc` to one size after another, each call passing the size before
it as `prev_size`; `none` once a call returns `NULL`. -/
def mmReallocRun (mm : Option Allocator) (realloc : Realloc) :
    List UInt8 → Nat → List Nat → Option (List UInt8)
  | w, _, [] => some w
  | w, prevSize, size :: sizes =>
    (mmRealloc mm realloc (some w) size prevSize).bind fun p => mmReallocRun mm realloc p size sizes

/-- However often a block is resized, its first bytes up to the smallest size it has had are
those it started with, and it has the size of the last call. -/
theorem mmReallocRun_keeps {mm : Option Allocator} {realloc : Realloc} :
    ∀ {sizes : List Nat} {w p : List UInt8} {prevSize : Nat}, prevSize ≤ w.length →
      mmReallocRun mm realloc w prevSize sizes = some p →
      (∀ m, m ≤ prevSize → (∀ s ∈ sizes, m ≤ s) → p.take m = w.take m) ∧
        p.length = sizes.getLast?.getD w.length
  | [], w, p, prevSize, _, h => by
    simp only [mmReallocRun, Option.some.injEq] at h
    subst h
    exact ⟨fun _ _ _ => rfl, rfl⟩
  | size :: sizes, w, p, prevSize, hprev, h => by
    simp only [mmReallocRun, Option.bind_eq_some] at h
    obtain ⟨q, hq, hrun⟩ := h
    obtain ⟨hlen, htake⟩ := mmRealloc_some hprev hq
    obtain ⟨ih, hlast⟩ := mmReallocRun_keeps hlen.ge hrun
    refine ⟨fun m hm hs => ?_, by rw [hlast, hlen, List.getLast?_cons, Option.getD_some]⟩
    have hms : m ≤ size := hs size (List.mem_cons_self _ _)
    calc p.take m = q.take m := ih m hms fun s hs' => hs s (List.mem_cons_of_mem _ hs')
      _ = (q.take (min prevSize size)).take m := by rw [List.take_take, Nat.min_eq_left (by omega)]
      _ = w.take m := by rw [htake, List.take_take, Nat.min_eq_left (by omega)]

/-- A two-byte block grown to 4 bytes, cut to 1 and grown to 3 keeps its first byte. -/
theorem mmReallocRun_keeps_example :
    2 ≤ ([7, 8] : List UInt8).length ∧
      mmReallocRun (some grantAll) reallocZero [7, 8] 2 [4, 1, 3] = some [7, 0, 0] ∧
      (∀ m, m ≤ 2 → (∀ s ∈ [4, 1, 3], m ≤ s) →
        ([7, 0, 0] : List UInt8).take m = ([7, 8] : List UInt8).take m) ∧
        ([7, 0, 0] : List UInt8).length = [4, 1, 3].getLast?.getD ([7, 8] : List UInt8).length :=
  ⟨by decide, by decide,
    @mmReallocRun_keeps (some grantAll) reallocZero [4, 1, 3] [7, 8] [7, 0, 0] 2 (by decide) (by decide)⟩

/-! ### `kr_strcatdup` -/

/-- A string argument: the bytes from a non-`NULL` pointer on, fewer than `2 ^ 64` in the 64-bit
address space. -/
structure Mem64 where
  bytes : List UInt8
  short : bytes.length < 2 ^ 64

/-- `strlen_safe(item)`, `NULL` being `none`. -/
def strlenSafe : Option Mem64 → Nat
  | none => 0
  | some s => strlen s.bytes

/-- The first loop of `kr_strcatdup`: the `size_t` total of the lengths, from `total` on, and
`none` where an addition wraps. -/
def strcatdupTotal (total : Nat) : List (Option Mem64) → Option Nat
  | [] => some total
  | item :: items =>
    let newLen := (total + strlenSafe item) % 2 ^ 64
    if newLen < total then none else strcatdupTotal newLen items

/-- The copies of the second loop, from `stream = result + off`: each string with its zero byte,
as `memcpy(stream, item, len + 1)` writes it. -/
def strcatdupWrites (off : Nat) : List (Option Mem64) → List (Nat × List UInt8)
  | [] => []
  | none :: items => strcatdupWrites off items
  | some s :: items => (off, cString s.bytes ++ [0]) :: strcatdupWrites (off + strlen s.bytes) items

/-- `kr_strcatdup(n, items...)`, with `n` the number of items: the block it returns, `none` for
`NULL`. -/
def krStrcatdup (malloc : Allocator) (items : List (Option Mem64)) : Option (List UInt8) :=
  if items.length < 1 then none
  else match strcatdupTotal 0 items with
    | none => none
    | some totalLen =>
      if totalLen > 0 then
        if (totalLen + 1) % 2 ^ 64 = 0 then none
        else (malloc.alloc ((totalLen + 1) % 2 ^ 64)).map fun result =>
          (strcatdupWrites 0 items).foldl (fun buf w => overwrite buf w.1 w.2) result
      else none

/-- The non-`NULL` strings, concatenated in order. -/
def strcatText : List (Option Mem64) → List UInt8
  | [] => []
  | none :: items => strcatText items
  | some s :: items => cString s.bytes ++ strcatText items

section Strcatdup

variable {items : List (Option Mem64)}

theorem strlenSafe_lt (item : Option Mem64) : strlenSafe item < 2 ^ 64 := by
  cases item with
  | none => exact Nat.two_pow_pos 64
  | some s => exact lt_of_le_of_lt (List.takeWhile_prefix _).length_le s.short

/-- The `size_t` total is the exact sum, or `none` when the sum passes `SIZE_MAX`. -/
theorem strcatdupTotal_eq : ∀ {total : Nat} (items : List (Option Mem64)), total < 2 ^ 64 →
    strcatdupTotal total items =
      if total + (items.map strlenSafe).sum < 2 ^ 64 then some (total + (items.map strlenSafe).sum)
      else none
  | _, [], ht => by simpa [strcatdupTotal] using ht
  | total, item :: items, ht => by
    have hl := strlenSafe_lt item
    simp only [strcatdupTotal, List.map_cons, List.sum_cons]
    by_cases hfit : total + strlenSafe item < 2 ^ 64
    · rw [Nat.mod_eq_of_lt hfit, if_neg (by omega), strcatdupTotal_eq items hfit, Nat.add_assoc]
    · have hwrap : (total + strlenSafe item) % 2 ^ 64 = total + strlenSafe item - 2 ^ 64 := by
        rw [Nat.mod_eq_sub_mod (by omega), Nat.mod_eq_of_lt (by omega)]
      rw [hwrap, if_pos (by omega), if_neg (by omega)]

theorem length_strcatText : ∀ items : List (Option Mem64),
    (strcatText items).length = (items.map strlenSafe).sum
  | [] => rfl
  | none :: items => by simp [strcatText, strlenSafe, length_strcatText items]
  | some s :: items => by simp [strcatText, strlenSafe, strlen, length_strcatText items]

/-- Each copy ends within the string's bytes and one zero byte after them. -/
theorem strcatdupWrites_bound : ∀ (off : Nat) (items : List (Option Mem64)),
    ∀ w ∈ strcatdupWrites off items, w.1 + w.2.length ≤ off + (items.map strlenSafe).sum + 1
  | _, [] => by simp [strcatdupWrites]
  | off, none :: items => by
    simpa [strcatdupWrites, strlenSafe] using strcatdupWrites_bound off items
  | off, some s :: items => by
    intro w hw
    simp only [strcatdupWrites, List.mem_cons] at hw
    have ih := strcatdupWrites_bound (off + strlen s.bytes) items
    simp only [List.map_cons, List.sum_cons, strlenSafe]
    rcases hw with rfl | hw
    · simp only [List.length_append, List.length_singleton, strlen]
      omega
    · have := ih w hw
      omega

/-- The copies, made over a block whose byte at `off` is `x`, write the strings from `off` on,
and the last zero byte where any string was copied. -/
theorem foldl_strcatdupWrites : ∀ (items : List (Option Mem64)) (pre rest : List UInt8) (x : UInt8),
    rest.length = (items.map strlenSafe).sum →
    (strcatdupWrites pre.length items).foldl (fun buf w => overwrite buf w.1 w.2) (pre ++ x :: rest) =
      pre ++ strcatText items ++ [if items.any Option.isSome then 0 else x]
  | [], pre, rest, x, hr => by
    obtain rfl : rest = [] := List.length_eq_zero.mp (by simpa using hr)
    simp [strcatdupWrites, strcatText]
  | none :: items, pre, rest, x, hr => by
    simpa [strcatdupWrites, strcatText, strlenSafe] using
      foldl_strcatdupWrites items pre rest x (by simpa [strlenSafe] using hr)
  | some s :: items, pre, rest, x, hr => by
    have hr' : rest.length = strlen s.bytes + (items.map strlenSafe).sum := by
      simpa [strlenSafe] using hr
    have hwrite : overwrite (pre ++ x :: rest) pre.length (cString s.bytes ++ [0]) =
        (pre ++ cString s.bytes) ++ 0 :: rest.drop (strlen s.bytes) := by
      simp only [overwrite, List.take_left, List.length_append, List.length_singleton,
        List.append_assoc, List.singleton_append]
      rw [List.drop_append_eq_append_drop]
      simp [strlen]
    have ih := foldl_strcatdupWrites items (pre ++ cString s.bytes) (rest.drop (strlen s.bytes)) 0
      (by rw [List.length_drop]; omega)
    simp only [strcatdupWrites, List.foldl_cons, hwrite, List.length_append] at ih ⊢
    rw [show pre.length + (cString s.bytes).length = pre.length + strlen s.bytes from rfl] at ih
    rw [ih]
    simp [strcatText]

/-- Strings of positive total length hold a non-`NULL` one. -/
theorem any_isSome_of_pos : ∀ items : List (Option Mem64), 0 < (items.map strlenSafe).sum →
    items.any Option.isSome = true
  | [], h => by simp at h
  | none :: items, h => by simpa [strlenSafe] using any_isSome_of_pos items (by simpa [strlenSafe] using h)
  | some _ :: _, _ => by simp

end Strcatdup

/-- `kr_strcatdup` returns the non-`NULL` strings concatenated and a zero byte, in a block of
their total length plus one that every copy stays in, when that total is from 1 to `SIZE_MAX - 1`
and `malloc` grants the block; for a total of 0 or from `SIZE_MAX` on it returns `NULL`. -/
theorem krStrcatdup_concat (malloc : Allocator) (items : List (Option Mem64)) :
    (1 ≤ (items.map strlenSafe).sum → (items.map strlenSafe).sum < SIZE_MAX →
      ∀ block, malloc.alloc ((items.map strlenSafe).sum + 1) = some block →
        krStrcatdup malloc items = some (strcatText items ++ [0]) ∧
        (strcatText items ++ [0]).length = (items.map strlenSafe).sum + 1 ∧
        ∀ w ∈ strcatdupWrites 0 items, w.1 + w.2.length ≤ (items.map strlenSafe).sum + 1) ∧
    ((items.map strlenSafe).sum = 0 ∨ SIZE_MAX ≤ (items.map strlenSafe).sum →
      krStrcatdup malloc items = none) := by
  have htotal := strcatdupTotal_eq items (Nat.two_pow_pos 64)
  simp only [Nat.zero_add] at htotal
  unfold krStrcatdup SIZE_MAX at *
  refine ⟨fun h1 h2 block hblock => ?_, fun h => ?_⟩
  · have hlen : block.length = (items.map strlenSafe).sum + 1 := malloc.length_alloc _ _ hblock
    have hn : ¬items.length < 1 := fun hn => by
      obtain rfl := List.length_eq_zero.mp (by omega : items.length = 0)
      simp at h1
    rcases block with _ | ⟨x, rest⟩
    · simp at hlen
    have hfill := foldl_strcatdupWrites items [] rest x (by simpa using hlen)
    rw [any_isSome_of_pos items (by omega), if_pos rfl, List.nil_append] at hfill
    rw [if_neg hn, htotal, if_pos (by omega)]
    dsimp only
    rw [if_pos (by omega), if_neg (by omega), Nat.mod_eq_of_lt (by omega), hblock]
    refine ⟨by simpa using hfill, by simp [length_strcatText], ?_⟩
    simpa using strcatdupWrites_bound 0 items
  · by_cases hn : items.length < 1
    · rw [if_pos hn]
    rw [if_neg hn, htotal]
    by_cases hfit : (items.map strlenSafe).sum < 2 ^ 64
    · rw [if_pos hfit]
      dsimp only
      rcases h with h | h
      · rw [if_neg (by omega)]
      · rw [if_pos (by omega), if_pos (by omega)]
    · rw [if_neg hfit]

/-! ### `kr_memreserve` -/

/-- `kr_memreserve(pool, &mem, elm_size, want, &have)`, where `array_next_count(want)` returns
`next`: the return code, `*mem` and `*have` (`haveCount`) after it.  The block's size `next * elm_size` and the
`memcpy` of the old elements are `size_t` products. -/
def krMemreserve (pool : Allocator) (mem : List UInt8) (elmSize want haveCount next : Nat) :
    Int × List UInt8 × Nat :=
  if haveCount ≥ want then (0, mem, haveCount)
  else
    match pool.alloc (next * elmSize % 2 ^ 64) with
    | some memNew => (0, overwrite memNew 0 (mem.take (haveCount * elmSize % 2 ^ 64)), next)
    | none => (-1, mem, haveCount)

/-- Where `next * elm_size` does not wrap, `kr_memreserve` keeps its contract: on success the
capacity covers `want`, the block holds that many elements and starts with the old ones; on
failure nothing changes. -/
theorem krMemreserve_reserves (pool : Allocator) (mem : List UInt8) (elmSize want haveCount next : Nat)
    (hroom : haveCount * elmSize ≤ mem.length) (hnext : want ≤ next) (hwrap : next * elmSize < 2 ^ 64) :
    ((krMemreserve pool mem elmSize want haveCount next).1 = 0 ∧
        want ≤ (krMemreserve pool mem elmSize want haveCount next).2.2 ∧
        (krMemreserve pool mem elmSize want haveCount next).2.2 * elmSize ≤
          (krMemreserve pool mem elmSize want haveCount next).2.1.length ∧
        (krMemreserve pool mem elmSize want haveCount next).2.1.take (haveCount * elmSize) =
          mem.take (haveCount * elmSize)) ∨
      ((krMemreserve pool mem elmSize want haveCount next).1 = -1 ∧
        (krMemreserve pool mem elmSize want haveCount next).2.1 = mem ∧
        (krMemreserve pool mem elmSize want haveCount next).2.2 = haveCount) := by
  unfold krMemreserve
  split_ifs with hhave
  · exact .inl ⟨rfl, hhave, hroom, rfl⟩
  · cases halloc : pool.alloc (next * elmSize % 2 ^ 64) with
    | none => exact .inr ⟨rfl, rfl, rfl⟩
    | some memNew =>
      have hlen : memNew.length = next * elmSize := by
        rw [pool.length_alloc _ _ halloc, Nat.mod_eq_of_lt hwrap]
      have hcopy : haveCount * elmSize ≤ next * elmSize := Nat.mul_le_mul_right _ (by omega)
      have hbytes : (mem.take (haveCount * elmSize)).length = haveCount * elmSize := by
        rw [List.length_take]
        omega
      rw [Nat.mod_eq_of_lt (by omega)]
      refine .inl ⟨rfl, hnext, ?_, ?_⟩
      · show next * elmSize ≤ (overwrite memNew 0 (mem.take (haveCount * elmSize))).length
        rw [length_overwrite (by omega)]
        omega
      · have htake := @take_overwrite memNew (mem.take (haveCount * elmSize)) 0 (by omega)
        rwa [Nat.zero_add, hbytes, List.take_zero, List.nil_append] at htake

theorem krMemreserve_reserves_example :
    2 * 1 ≤ [7, 8].length ∧ 3 ≤ 4 ∧ 4 * 1 < 2 ^ 64 ∧
    (((krMemreserve grantAll [7, 8] 1 3 2 4).1 = 0 ∧ 3 ≤ (krMemreserve grantAll [7, 8] 1 3 2 4).2.2 ∧
        (krMemreserve grantAll [7, 8] 1 3 2 4).2.2 * 1 ≤ (krMemreserve grantAll [7, 8] 1 3 2 4).2.1.length ∧
        (krMemreserve grantAll [7, 8] 1 3 2 4).2.1.take (2 * 1) = [7, 8].take (2 * 1)) ∨
      ((krMemreserve grantAll [7, 8] 1 3 2 4).1 = -1 ∧
        (krMemreserve grantAll [7, 8] 1 3 2 4).2.1 = [7, 8] ∧
        (krMemreserve grantAll [7, 8] 1 3 2 4).2.2 = 2)) :=
  ⟨by decide, by decide, by decide,
    krMemreserve_reserves grantAll [7, 8] 1 3 2 4 (by decide) (by decide) (by decide)⟩

/-- With elements of `2 ^ 63` bytes, growing an empty array to two elements asks `mm_alloc` for
`2 * 2 ^ 63 = 0` bytes modulo `2 ^ 64`: the call succeeds and reports room for two elements in an
empty block. -/
theorem krMemreserve_wraps :
    krMemreserve grantAll [] (2 ^ 63) 2 0 2 = (0, [], 2) ∧
      ([] : List UInt8).length < 2 * 2 ^ 63 := by
  decide

end KnotResolver
