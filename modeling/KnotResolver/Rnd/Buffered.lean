import Mathlib.Data.List.Nodup
import Mathlib.Data.List.Range
import Mathlib.Algebra.Order.Ring.Nat

/-! `kr_rnd_buffered` of `lib/utils.c`: random bytes served from a static 64-byte buffer that is
refilled from `gnutls_rnd` 64 bytes at a time; a request for more than 64 bytes goes to
`gnutls_rnd` directly.

`gnutls_rnd` is a stream that `rnd_noerror` reads in order, `rnd k` its value at position `k`;
the state holds the buffer, `buf_begin`, and how far the stream has been drawn.  The function
only moves values, so it is written for values of any type.  Run on the stream of positions,
with `none` for the buffer's initial contents, it shows where every delivered value comes from:
what was delivered so far and the unread part of the buffer are together a permutation of the
positions drawn (`RndInv`).  Mapping positions to bytes commutes with the function
(`krRndBuffered_map`), so every byte a caller gets is the stream's byte at a position drawn, and
no position is delivered twice (`krRndRun_fresh`). -/

namespace KnotResolver

variable {α β : Type}

/-- The static state of `kr_rnd_buffered`, and the position of `gnutls_rnd` in its stream. -/
structure RndState (α : Type) where
  /-- `static uint8_t buf[512/8]`. -/
  buf : List α
  /-- `static uint buf_begin`: the first unread value of `buf`. -/
  bufBegin : UInt32
  /-- The values `gnutls_rnd` has produced so far. -/
  drawn : Nat

/-- The state with each value of the buffer mapped by `f`. -/
def RndState.map (f : α → β) (s : RndState α) : RndState β := ⟨s.buf.map f, s.bufBegin, s.drawn⟩

/-- The state before the first call: `buf_begin = sizeof(buf)`, the buffer as static storage
starts, and nothing drawn. -/
def rndInitial (zero : α) : RndState α := ⟨List.replicate 64 zero, 64, 0⟩

/-- `rnd_noerror(data, size)` with the stream at `drawn`: the next `size` values. -/
def rndNoerror (rnd : Nat → α) (drawn size : Nat) : List α := (List.range' drawn size).map rnd

/-- `kr_rnd_buffered(data, size)`: the values written to `data`, and the state after.
`sizeof(buf) - buf_begin` is computed in `size_t` and its minimum with `size` kept in a `uint`. -/
def krRndBuffered (rnd : Nat → α) (s : RndState α) (size : UInt32) : List α × RndState α :=
  if size.toNat > 64 then
    (rndNoerror rnd s.drawn size.toNat, { s with drawn := s.drawn + size.toNat })
  else
    let size1 : UInt32 := UInt32.ofNat (min size.toNat ((64 + 2 ^ 64 - s.bufBegin.toNat) % 2 ^ 64))
    let chunk := (s.buf.drop s.bufBegin.toNat).take size1.toNat
    if size1 = size then (chunk, { s with bufBegin := s.bufBegin + size1 })
    else
      let size := size - size1
      let buf := rndNoerror rnd s.drawn 64
      (chunk ++ buf.take size.toNat, ⟨buf, size, s.drawn + 64⟩)

/-- Calls of `kr_rnd_buffered` with the sizes in order: what each wrote, and the state after. -/
def krRndRun (rnd : Nat → α) : RndState α → List UInt32 → List (List α) × RndState α
  | s, [] => ([], s)
  | s, size :: sizes =>
    let r := krRndBuffered rnd s size
    let rest := krRndRun rnd r.2 sizes
    (r.1 :: rest.1, rest.2)

/-! ### Moving values commutes with mapping them -/

theorem krRndBuffered_map (f : α → β) (rnd : Nat → α) (s : RndState α) (size : UInt32) :
    krRndBuffered (f ∘ rnd) (s.map f) size =
      ((krRndBuffered rnd s size).1.map f, (krRndBuffered rnd s size).2.map f) := by
  unfold krRndBuffered rndNoerror RndState.map
  simp only []
  split_ifs <;> simp [List.map_take, List.map_drop]

theorem krRndRun_map (f : α → β) (rnd : Nat → α) :
    ∀ (sizes : List UInt32) (s : RndState α),
      krRndRun (f ∘ rnd) (s.map f) sizes =
        ((krRndRun rnd s sizes).1.map (List.map f), (krRndRun rnd s sizes).2.map f)
  | [], _ => rfl
  | size :: sizes, s => by
    simp only [krRndRun, krRndBuffered_map, krRndRun_map f rnd sizes, List.map_cons]

/-! ### The three paths of one call -/

section Paths

variable {rnd : Nat → α} {s : RndState α} {size : UInt32}

/-- `MIN(size, sizeof(buf) - buf_begin)` with `buf_begin` within the buffer. -/
theorem toNat_size1 (hb : s.bufBegin.toNat ≤ 64) (hs : size.toNat ≤ 64) :
    (UInt32.ofNat (min size.toNat ((64 + 2 ^ 64 - s.bufBegin.toNat) % 2 ^ 64))).toNat =
      min size.toNat (64 - s.bufBegin.toNat) := by
  have hroom : (64 + 2 ^ 64 - s.bufBegin.toNat) % 2 ^ 64 = 64 - s.bufBegin.toNat := by
    rw [show 64 + 2 ^ 64 - s.bufBegin.toNat = (64 - s.bufBegin.toNat) + 2 ^ 64 by omega,
      Nat.add_mod_right, Nat.mod_eq_of_lt (by omega)]
  rw [hroom, UInt32.toNat_ofNat_of_lt (show _ < 2 ^ 32 by omega)]

/-- Over 64 bytes: straight from the stream. -/
theorem krRndBuffered_direct (h : 64 < size.toNat) :
    krRndBuffered rnd s size = (rndNoerror rnd s.drawn size.toNat, { s with drawn := s.drawn + size.toNat }) := by
  simp [krRndBuffered, h]

/-- At most the unread part of the buffer: from the buffer. -/
theorem krRndBuffered_chunk (hb : s.bufBegin.toNat ≤ 64) (h : size.toNat ≤ 64 - s.bufBegin.toNat) :
    krRndBuffered rnd s size =
      ((s.buf.drop s.bufBegin.toNat).take size.toNat, { s with bufBegin := s.bufBegin + size }) := by
  have h1 := toNat_size1 hb (show size.toNat ≤ 64 by omega)
  rw [min_eq_left h] at h1
  have heq : UInt32.ofNat (min size.toNat ((64 + 2 ^ 64 - s.bufBegin.toNat) % 2 ^ 64)) = size :=
    UInt32.toNat.inj h1
  simp only [krRndBuffered, if_neg (show ¬size.toNat > 64 by omega), heq, if_true]

/-- More than the unread part, at most 64 bytes: the rest of the buffer, then a refill. -/
theorem krRndBuffered_refill (hb : s.bufBegin.toNat ≤ 64) (h1 : 64 - s.bufBegin.toNat < size.toNat)
    (h2 : size.toNat ≤ 64) :
    krRndBuffered rnd s size =
      ((s.buf.drop s.bufBegin.toNat).take (64 - s.bufBegin.toNat) ++
          (rndNoerror rnd s.drawn 64).take (size.toNat - (64 - s.bufBegin.toNat)),
        ⟨rndNoerror rnd s.drawn 64, UInt32.ofNat (size.toNat - (64 - s.bufBegin.toNat)), s.drawn + 64⟩) := by
  have hs1 := toNat_size1 hb h2
  rw [min_eq_right h1.le] at hs1
  generalize hsz : UInt32.ofNat (min size.toNat ((64 + 2 ^ 64 - s.bufBegin.toNat) % 2 ^ 64)) = size1 at hs1
  have hne : size1 ≠ size := fun h => by rw [h] at hs1; omega
  have hsub : size - size1 = UInt32.ofNat (size.toNat - (64 - s.bufBegin.toNat)) := by
    apply UInt32.toNat.inj
    rw [UInt32.toNat_sub_of_le _ _ (show size1.toNat ≤ size.toNat by omega), hs1,
      UInt32.toNat_ofNat_of_lt (show _ < 2 ^ 32 by omega)]
  simp only [krRndBuffered, if_neg (show ¬size.toNat > 64 by omega), hsz, hne, if_false, hsub,
    hs1, UInt32.toNat_ofNat_of_lt (show size.toNat - (64 - s.bufBegin.toNat) < 2 ^ 32 by omega)]

end Paths

/-! ### Where the delivered values come from -/

/-- What every state of a run has: `buf_begin` within the buffer, and the buffer whole. -/
structure RndShape (s : RndState α) : Prop where
  begin_le : s.bufBegin.toNat ≤ 64
  length_buf : s.buf.length = 64

/-- The invariant of a run on the stream of positions: the values delivered so far and the
unread part of the buffer are together the positions drawn, each once. -/
structure RndInv (delivered : List (Option Nat)) (s : RndState (Option Nat)) extends RndShape s :
    Prop where
  perm : (delivered ++ s.buf.drop s.bufBegin.toNat).Perm ((List.range' 0 s.drawn).map some)

theorem rndShape_initial (zero : α) : RndShape (rndInitial zero) := ⟨le_rfl, List.length_replicate _ _⟩

theorem rndInv_initial : RndInv [] (rndInitial none) := by
  refine ⟨rndShape_initial none, ?_⟩
  rw [show (rndInitial (none : Option Nat)).bufBegin.toNat = 64 from rfl]
  simp [rndInitial]

theorem length_rndNoerror (rnd : Nat → α) (drawn size : Nat) :
    (rndNoerror rnd drawn size).length = size := by
  simp [rndNoerror]

/-- Each call keeps the shape and writes `size` values. -/
theorem RndShape.step {s : RndState α} (hs : RndShape s) (rnd : Nat → α) (size : UInt32) :
    RndShape (krRndBuffered rnd s size).2 ∧ (krRndBuffered rnd s size).1.length = size.toNat := by
  have hb := hs.begin_le
  by_cases hd : 64 < size.toNat
  · rw [krRndBuffered_direct hd]
    exact ⟨⟨hs.begin_le, hs.length_buf⟩, length_rndNoerror _ _ _⟩
  by_cases hc : size.toNat ≤ 64 - s.bufBegin.toNat
  · rw [krRndBuffered_chunk hb hc]
    have hadd : (s.bufBegin + size).toNat = s.bufBegin.toNat + size.toNat := by
      show (s.bufBegin.toNat + size.toNat) % 2 ^ 32 = _
      omega
    refine ⟨⟨by simp only [hadd]; omega, hs.length_buf⟩, ?_⟩
    simp [hs.length_buf]
    omega
  · rw [krRndBuffered_refill hb (by omega) (by omega)]
    refine ⟨⟨?_, length_rndNoerror _ _ _⟩, ?_⟩
    · simp only
      rw [UInt32.toNat_ofNat_of_lt (show _ < 2 ^ 32 by omega)]
      omega
    · simp [hs.length_buf, length_rndNoerror]
      omega

theorem perm_append_range' {l : List (Option Nat)} {n : Nat} (h : l.Perm ((List.range' 0 n).map some))
    (m : Nat) : (l ++ (List.range' n m).map some).Perm ((List.range' 0 (n + m)).map some) := by
  rw [Nat.add_comm n m, ← List.range'_append_1 0 n m, List.map_append, Nat.zero_add]
  exact h.append_right _

/-- Each call keeps the invariant, with what it delivers added to the values delivered. -/
theorem RndInv.step {d : List (Option Nat)} {s : RndState (Option Nat)} (hi : RndInv d s)
    (size : UInt32) : RndInv (d ++ (krRndBuffered some s size).1) (krRndBuffered some s size).2 := by
  have hb := hi.begin_le
  refine ⟨(hi.toRndShape.step some size).1, ?_⟩
  by_cases hd : 64 < size.toNat
  · rw [krRndBuffered_direct hd]
    have := perm_append_range' hi.perm size.toNat
    rw [List.append_assoc] at this ⊢
    exact (List.perm_append_comm.append_left d).trans (by simpa [rndNoerror, List.append_assoc] using this)
  by_cases hc : size.toNat ≤ 64 - s.bufBegin.toNat
  · rw [krRndBuffered_chunk hb hc]
    have hadd : (s.bufBegin + size).toNat = s.bufBegin.toNat + size.toNat := by
      show (s.bufBegin.toNat + size.toNat) % 2 ^ 32 = _
      omega
    simp only [hadd, List.append_assoc, ← List.drop_drop, List.take_append_drop]
    exact hi.perm
  · rw [krRndBuffered_refill hb (by omega) (by omega)]
    have hrest : (s.buf.drop s.bufBegin.toNat).take (64 - s.bufBegin.toNat) = s.buf.drop s.bufBegin.toNat :=
      List.take_of_length_le (by simp [hi.length_buf])
    simp only [hrest, List.append_assoc, UInt32.toNat_ofNat_of_lt
      (show size.toNat - (64 - s.bufBegin.toNat) < 2 ^ 32 by omega), List.take_append_drop]
    rw [← List.append_assoc d]
    exact perm_append_range' hi.perm 64

theorem RndInv.run : ∀ (sizes : List UInt32) {d : List (Option Nat)} {s : RndState (Option Nat)},
    RndInv d s → RndInv (d ++ (krRndRun some s sizes).1.flatten) (krRndRun some s sizes).2
  | [], _, _, hi => by simpa [krRndRun] using hi
  | size :: sizes, d, s, hi => by
    have := RndInv.run sizes (hi.step size)
    simpa [krRndRun, List.append_assoc] using this

theorem RndShape.run (rnd : Nat → α) : ∀ (sizes : List UInt32) {s : RndState α}, RndShape s →
    RndShape (krRndRun rnd s sizes).2 ∧ (krRndRun rnd s sizes).1.map List.length = sizes.map UInt32.toNat
  | [], _, hs => ⟨hs, rfl⟩
  | size :: sizes, s, hs => by
    obtain ⟨hs', hlen⟩ := hs.step rnd size
    obtain ⟨hrun, hlens⟩ := RndShape.run rnd sizes hs'
    exact ⟨hrun, by simp [krRndRun, hlen, hlens]⟩

theorem map_some_filterMap_id {l : List (Option Nat)} (h : ∀ x ∈ l, x.isSome) :
    (l.filterMap id).map some = l := by
  induction l with
  | nil => rfl
  | cons x xs ih =>
    obtain ⟨k, rfl⟩ := Option.isSome_iff_exists.mp (h x (List.mem_cons_self _ _))
    simp [ih fun y hy => h y (List.mem_cons_of_mem _ hy)]

/-- On the stream of positions, what a run from the initial state delivers is positions already
drawn, none of them twice. -/
theorem krRndRun_positions (sizes : List UInt32) :
    ∃ idx : List (List Nat), (krRndRun some (rndInitial none) sizes).1 = idx.map (List.map some) ∧
      idx.flatten.Nodup ∧ ∀ k ∈ idx.flatten, k < (krRndRun some (rndInitial none) sizes).2.drawn := by
  have hinv := rndInv_initial.run sizes
  simp only [List.nil_append] at hinv
  set t := krRndRun some (rndInitial none) sizes
  have hsub : ∀ x ∈ t.1.flatten, x ∈ (List.range' 0 t.2.drawn).map some :=
    fun x hx => hinv.perm.subset (List.mem_append_left _ hx)
  have hnodup : t.1.flatten.Nodup :=
    (List.nodup_append.mp (hinv.perm.nodup_iff.mpr
      ((List.nodup_map_iff (Option.some_injective _)).mpr (List.nodup_range' _ _)))).1
  have hsome : ∀ l ∈ t.1, (l.filterMap id).map some = l := fun l hl =>
    map_some_filterMap_id fun x hx => by
      obtain ⟨k, -, rfl⟩ := List.mem_map.mp (hsub x (List.mem_flatten_of_mem hl hx))
      rfl
  have hflat : (t.1.map (List.filterMap id)).flatten.map some = t.1.flatten := by
    rw [List.map_flatten, List.map_map]
    congr 1
    exact (List.map_congr_left fun l hl => hsome l hl).trans (List.map_id _)
  refine ⟨t.1.map (List.filterMap id), ?_, ?_, fun k hk => ?_⟩
  · rw [List.map_map]
    exact ((List.map_congr_left fun l hl => hsome l hl).trans (List.map_id _)).symm
  · rw [← hflat] at hnodup
    exact (List.nodup_map_iff (Option.some_injective _)).mp hnodup
  · simpa using hsub (some k) (hflat ▸ List.mem_map_of_mem some hk)

/-- Over any sequence of calls from the initial state, with the stream of bytes `stream`:
`buf_begin` stays within the buffer, every call writes all `size` bytes it was asked for, and
the bytes written are the stream's bytes at positions already drawn, none of them twice. -/
theorem krRndRun_fresh (stream : Nat → UInt8) (sizes : List UInt32) :
    (krRndRun stream (rndInitial 0) sizes).2.bufBegin.toNat ≤ 64 ∧
      (krRndRun stream (rndInitial 0) sizes).1.map List.length = sizes.map UInt32.toNat ∧
      ∃ idx : List (List Nat), (krRndRun stream (rndInitial 0) sizes).1 = idx.map (List.map stream) ∧
        idx.flatten.Nodup ∧ ∀ k ∈ idx.flatten, k < (krRndRun stream (rndInitial 0) sizes).2.drawn := by
  obtain ⟨hshape, hlen⟩ := RndShape.run stream sizes (rndShape_initial (0 : UInt8))
  obtain ⟨idx, hidx, hnodup, hlt⟩ := krRndRun_positions sizes
  -- the run on bytes is the run on positions, each position read from the stream
  have hmap : krRndRun stream (rndInitial 0) sizes =
      ((krRndRun some (rndInitial none) sizes).1.map (List.map fun o => o.elim 0 stream),
        (krRndRun some (rndInitial none) sizes).2.map fun o => o.elim 0 stream) := by
    rw [← krRndRun_map]
    rfl
  refine ⟨hshape.begin_le, hlen, idx, ?_, hnodup, ?_⟩
  · rw [hmap, hidx, List.map_map]
    simp only [Function.comp_def, List.map_map]
    rfl
  · rw [hmap]
    exact hlt

end KnotResolver
