import KnotResolver.Ranked.SetWire

/-! Runs of the ranked RR accumulator: the arrays reached from the empty one by any sequence of
`kr_ranked_rrarray_add` and `kr_ranked_rrarray_set_wire` calls, failed calls included.

What a call does to the entries' keys (query, `yielded`, and what `rrsets_match` compares) is said
once for each function (`krRankedRrarrayAdd_keys`, `map_key_krRankedRrarraySetWire`), and the
invariant of every run is derived from that.  The merge search of `kr_ranked_rrarray_add` stops at
an entry of another query, so a query can hold one RRset twice (`runCalls_query_duplicate`), against
the assumption `to_wire_ensure_unique` notes; what holds of every run is that no entry is yielded
and two such entries are parted by another query's entry (`accumulatorInv_runCalls`).  The merge
branch raises `to_wire` without calling `to_wire_ensure_unique`, so two entries on the wire can
form one RRset (`runCalls_wire_duplicate`).

What a call keeps of the entries is said the same way (`Call.apply_keeps`): every entry stays at its
index with its fields and records, whether the call succeeds or fails, so over any run no entry is
lost, moved or emptied (`foldl_keepsEntries`). -/

namespace KnotResolver

/-- A call on the accumulator: `kr_ranked_rrarray_add` with the allocations its pool grants, or
`kr_ranked_rrarray_set_wire`. -/
inductive Call
  | add (pool : Nat) (rr : Rrset) (rank : UInt8) (toWire : Bool) (qryUid : UInt32)
  | setWire (toWire : Bool) (qryUid : UInt32) (checkDups : Bool)
      (extraCheck : Option (RankedRrArrayEntry → Bool))

/-- The array after a call, whether it succeeds or fails. -/
def Call.apply : Call → RankedRrArray → RankedRrArray
  | .add pool rr rank toWire qryUid, array => (krRankedRrarrayAdd pool array rr rank toWire qryUid).2
  | .setWire toWire qryUid checkDups extraCheck, array =>
    (krRankedRrarraySetWire array toWire qryUid checkDups extraCheck).2

/-- The array after the calls, made in order from the empty array. -/
def runCalls (calls : List Call) : RankedRrArray :=
  calls.foldl (fun array c => c.apply array) []

/-- A `set_wire` that puts entries on the wire checks for duplicates. -/
def Call.checksDups : Call → Bool
  | .add .. => true
  | .setWire toWire _ checkDups _ => !toWire || checkDups

/-! ### Keys -/

/-- What the invariants read of an entry: its query, whether it was yielded, and what
`rrsets_match` compares. -/
def RankedRrArrayEntry.key (e : RankedRrArrayEntry) :
    UInt32 × Bool × UInt16 × UInt16 × Option UInt16 × Dname :=
  (e.qryUid, e.yielded, e.rr.matchKey)

open RankedRrArrayEntry (key)

@[simp] theorem key_clearConflict (e0 e : RankedRrArrayEntry) : (clearConflict e0 e).key = e.key := by
  rw [clearConflict_eq_with]
  rfl

theorem map_key_set {array : RankedRrArray} {i : Nat} {e e' : RankedRrArrayEntry}
    (h : array[i]? = some e) (hk : e'.key = e.key) : (array.set i e').map key = array.map key := by
  have hi : i < array.length := (List.getElem?_eq_some_iff.mp h).1
  apply List.ext_getElem?
  intro k
  simp only [List.getElem?_map, List.getElem?_set]
  split
  · subst_vars; simp [h, hk, hi]
  · rfl

theorem map_key_toWireEnsureUnique (array : RankedRrArray) (index : Nat) :
    (toWireEnsureUnique array index).2.map key = array.map key := by
  cases h0 : array[index]? with
  | none => simp [toWireEnsureUnique, h0]
  | some e0 =>
    rw [toWireEnsureUnique_eq h0]
    split <;> simp [Function.comp_def]

theorem map_key_setWireLoop (toWire : Bool) (u : UInt32) (checkDups : Bool)
    (extraCheck : Option (RankedRrArrayEntry → Bool)) :
    ∀ (n : Nat) (array : RankedRrArray) (i : Nat),
      (setWireLoop toWire u checkDups extraCheck array i n).2.map key = array.map key
  | 0, _, _ => rfl
  | n + 1, array, i => by
    have ih := map_key_setWireLoop toWire u checkDups extraCheck n
    simp only [setWireLoop]
    split
    · rfl
    · rename_i entry he
      have hset : (array.set i { entry with toWire }).map key = array.map key := map_key_set he rfl
      split
      · exact ih array (i + 1)
      split
      · exact ih array (i + 1)
      split
      · split
        · rw [map_key_toWireEnsureUnique, hset]
        · rw [ih, map_key_toWireEnsureUnique, hset]
      · rw [ih, hset]

/-- `kr_ranked_rrarray_set_wire` changes `to_wire` alone. -/
theorem map_key_krRankedRrarraySetWire (array : RankedRrArray) (toWire : Bool) (u : UInt32)
    (checkDups : Bool) (extraCheck : Option (RankedRrArrayEntry → Bool)) :
    (krRankedRrarraySetWire array toWire u checkDups extraCheck).2.map key = array.map key :=
  map_key_setWireLoop _ _ _ _ _ _ _

/-- A call of `kr_ranked_rrarray_add` keeps the key of every entry, or finds no entry of the query
to merge with and appends one. -/
theorem krRankedRrarrayAdd_keys (pool : Nat) (array : RankedRrArray) (rr : Rrset) (rank : UInt8)
    (toWire : Bool) (u : UInt32) :
    (krRankedRrarrayAdd pool array rr rank toWire u).2.map key = array.map key ∨
      addSearch array rr u array.length = none ∧
        (krRankedRrarrayAdd pool array rr rank toWire u).2.map key =
          (array ++ [newEntry rr rank toWire u]).map key := by
  cases hs : addSearch array rr u array.length with
  | some p =>
    obtain ⟨i, e⟩ := p
    obtain ⟨-, he, -, -, hm⟩ := addSearch_some hs
    left
    by_cases hok : e.rank = rank ∧ e.cached = false
    · rw [krRankedRrarrayAdd_merge hs hok]
      refine map_key_set he ?_
      simp only [key, matchKey_mergedEntry hm]
      rfl
    · rw [krRankedRrarrayAdd_eexist hs hok]
  | none =>
    by_cases hp : pool < 3
    · left
      rw [krRankedRrarrayAdd_enomem hs hp]
    · right
      refine ⟨rfl, ?_⟩
      rw [krRankedRrarrayAdd_append hs (by omega)]
      split <;> simp [Function.comp_def]

/-! ### The invariant of every run -/

/-- Two entries of one query that form the same RRset are parted by an entry of another query. -/
def SeparatedDuplicates (array : RankedRrArray) : Prop :=
  ∀ (i j : Nat) (ei ej : RankedRrArrayEntry), i < j → array[i]? = some ei → array[j]? = some ej →
    ei.qryUid = ej.qryUid → rrsetsMatch ei.rr ej.rr = true →
      ∃ (k : Nat) (ek : RankedRrArrayEntry), i < k ∧ k < j ∧ array[k]? = some ek ∧
        ek.qryUid ≠ ei.qryUid

/-- What every array the calls reach satisfies: no entry is yielded (only the resolver's
`yielded` marking, outside these calls, sets it), and duplicates within a query are parted. -/
structure AccumulatorInv (array : RankedRrArray) : Prop where
  notYielded : ∀ e ∈ array, e.yielded = false
  separated : SeparatedDuplicates array

theorem accumulatorInv_nil : AccumulatorInv [] where
  notYielded := by simp
  separated _ _ _ _ _ h := by simp at h

theorem exists_of_map_key_eq {array array' : RankedRrArray} (h : array.map key = array'.map key)
    {k : Nat} {e' : RankedRrArrayEntry} (he' : array'[k]? = some e') :
    ∃ e, array[k]? = some e ∧ e.qryUid = e'.qryUid ∧ e.yielded = e'.yielded ∧
      e.rr.matchKey = e'.rr.matchKey := by
  have hk : (array.map key)[k]? = (array'.map key)[k]? := by rw [h]
  simp only [List.getElem?_map, he', Option.map_some'] at hk
  obtain ⟨e, he, hke⟩ := Option.map_eq_some'.mp hk
  simp only [key, Prod.mk.injEq] at hke
  exact ⟨e, he, hke.1, hke.2.1, hke.2.2⟩

/-- The invariant reads the keys alone. -/
theorem AccumulatorInv.of_map_key {array array' : RankedRrArray} (hi : AccumulatorInv array)
    (h : array'.map key = array.map key) : AccumulatorInv array' where
  notYielded e' he' := by
    obtain ⟨k, hk⟩ := List.mem_iff_getElem?.mp he'
    obtain ⟨e, he, -, hy, -⟩ := exists_of_map_key_eq h.symm hk
    exact hy ▸ hi.notYielded e (List.mem_iff_getElem?.mpr ⟨k, he⟩)
  separated i j ei' ej' hij hi' hj' hu hm := by
    obtain ⟨ei, hei, hui, -, hmi⟩ := exists_of_map_key_eq h.symm hi'
    obtain ⟨ej, hej, huj, -, hmj⟩ := exists_of_map_key_eq h.symm hj'
    have hm' : rrsetsMatch ei.rr ej.rr = true := by
      rw [rrsetsMatch_iff, hmi, hmj]
      exact rrsetsMatch_iff.mp hm
    obtain ⟨k, ek, hik, hkj, hek, hne⟩ := hi.separated i j ei ej hij hei hej (by rw [hui, huj, hu]) hm'
    obtain ⟨ek', hek', huk, -, -⟩ := exists_of_map_key_eq h hek
    exact ⟨k, ek', hik, hkj, hek', by rw [huk, ← hui]; exact hne⟩

/-- Appending an entry that the merge search did not find keeps the invariant: an earlier entry of
the query forming the same RRset would have been found, unless another query's entry lies between. -/
theorem AccumulatorInv.append {array : RankedRrArray} (hi : AccumulatorInv array) {rr : Rrset}
    {rank : UInt8} {toWire : Bool} {u : UInt32} (hs : addSearch array rr u array.length = none) :
    AccumulatorInv (array ++ [newEntry rr rank toWire u]) where
  notYielded e he := by
    rcases List.mem_append.mp he with he | he
    · exact hi.notYielded e he
    · rw [List.mem_singleton.mp he]
      rfl
  separated i j ei ej hij hi' hj' hu hm := by
    by_cases hj : j < array.length
    · rw [List.getElem?_append_left hj] at hj'
      rw [List.getElem?_append_left (by omega)] at hi'
      obtain ⟨k, ek, hik, hkj, hek, hne⟩ := hi.separated i j ei ej hij hi' hj' hu hm
      exact ⟨k, ek, hik, hkj, by rw [List.getElem?_append_left (by omega)]; exact hek, hne⟩
    · -- `ej` is the new entry
      have hjl : j = array.length := by
        have := (List.getElem?_eq_some_iff.mp hj').1
        simp only [List.length_append, List.length_singleton] at this
        omega
      subst hjl
      rw [List.getElem?_concat_length, Option.some.injEq] at hj'
      subst hj'
      rw [List.getElem?_append_left hij] at hi'
      obtain ⟨_, hie⟩ := List.getElem?_eq_some_iff.mp hi'
      by_contra hno
      have hrun : ∀ k (hk : k < array.length), i ≤ k → k < array.length →
          array[k].qryUid = u ∧ array[k].yielded = false := by
        intro k hk hik _
        refine ⟨?_, hi.notYielded _ (List.getElem_mem hk)⟩
        rcases Nat.eq_or_lt_of_le hik with rfl | hik
        · rw [hie]; exact hu
        · by_contra hne
          exact hno ⟨k, array[k], hik, hk, by simp [List.getElem?_append_left hk],
            by rw [hu]; exact hne⟩
      have hfalse := addSearch_none hs le_rfl i hij hrun
      rw [hie] at hfalse
      exact Bool.false_ne_true (hfalse.symm.trans hm)

/-- Every call keeps the invariant, whether it succeeds or fails. -/
theorem AccumulatorInv.apply {array : RankedRrArray} (hi : AccumulatorInv array) (c : Call) :
    AccumulatorInv (c.apply array) := by
  cases c with
  | add pool rr rank toWire u =>
    rcases krRankedRrarrayAdd_keys pool array rr rank toWire u with h | ⟨hs, h⟩
    · exact hi.of_map_key h
    · exact (hi.append hs).of_map_key h
  | setWire toWire u checkDups extraCheck =>
    exact hi.of_map_key (map_key_krRankedRrarraySetWire array toWire u checkDups extraCheck)

theorem accumulatorInv_foldl (calls : List Call) :
    ∀ array, AccumulatorInv array → AccumulatorInv (calls.foldl (fun array c => c.apply array) array) := by
  induction calls with
  | nil => exact fun _ hi => hi
  | cons c calls ih => exact fun array hi => ih _ (hi.apply c)

/-- In every array the calls reach, no entry is yielded, and two entries of one query that form
the same RRset have an entry of another query between them. -/
theorem accumulatorInv_runCalls (calls : List Call) : AccumulatorInv (runCalls calls) :=
  accumulatorInv_foldl calls [] accumulatorInv_nil

/-! ### Entries persist -/

/-- `array'` keeps every entry of `array` at its index, with at most its `to_wire` changed and
records added. -/
def KeepsEntries (array array' : RankedRrArray) : Prop :=
  ∀ (i : Nat) (e : RankedRrArrayEntry), array[i]? = some e →
    ∃ e', array'[i]? = some e' ∧ KeepsEntry e e'

theorem KeepsEntry.trans {e₁ e₂ e₃ : RankedRrArrayEntry} (h₁ : KeepsEntry e₁ e₂)
    (h₂ : KeepsEntry e₂ e₃) : KeepsEntry e₁ e₃ :=
  ⟨h₂.owner.trans h₁.owner, h₂.rclass.trans h₁.rclass, h₂.type.trans h₁.type,
    h₂.qryUid.trans h₁.qryUid, h₂.rank.trans h₁.rank, h₂.cached.trans h₁.cached,
    h₂.yielded.trans h₁.yielded, fun r hr => h₂.rdata r (h₁.rdata r hr)⟩

section Keeps

variable {array array' array'' : RankedRrArray}

theorem KeepsEntries.refl (array : RankedRrArray) : KeepsEntries array array :=
  fun _ e h => ⟨e, h, .refl e⟩

theorem KeepsEntries.trans (h₁ : KeepsEntries array array') (h₂ : KeepsEntries array' array'') :
    KeepsEntries array array'' := fun i e h => by
  obtain ⟨e', h', k'⟩ := h₁ i e h
  obtain ⟨e'', h'', k''⟩ := h₂ i e' h'
  exact ⟨e'', h'', k'.trans k''⟩

theorem keepsEntries_set {i : Nat} {e e' : RankedRrArrayEntry} (he : array[i]? = some e)
    (hk : KeepsEntry e e') : KeepsEntries array (array.set i e') := fun k ek hk' => by
  rw [List.getElem?_set]
  by_cases hik : i = k
  · subst hik
    rw [he, Option.some.injEq] at hk'
    subst hk'
    exact ⟨e', by simp [(List.getElem?_eq_some_iff.mp he).1], hk⟩
  · exact ⟨ek, by rw [if_neg hik, hk'], .refl ek⟩

theorem keepsEntries_map {f : RankedRrArrayEntry → RankedRrArrayEntry}
    (hf : ∀ e, KeepsEntry e (f e)) : KeepsEntries array (array.map f) := fun i e h =>
  ⟨f e, by rw [List.getElem?_map, h]; rfl, hf e⟩

end Keeps

/-- Every call keeps every entry at its index, whether it succeeds or fails, and adds at most one
entry. -/
theorem Call.apply_keeps (c : Call) (array : RankedRrArray) :
    KeepsEntries array (c.apply array) ∧ (c.apply array).length ≤ array.length + 1 := by
  cases c with
  | add pool rr rank toWire u =>
    simp only [Call.apply]
    cases hs : addSearch array rr u array.length with
    | some p =>
      obtain ⟨i, e⟩ := p
      by_cases hok : e.rank = rank ∧ e.cached = false
      · -- a merge, failed or not, leaves the merged entry in its place
        rw [krRankedRrarrayAdd_merge hs hok, List.length_set]
        exact ⟨keepsEntries_set (addSearch_some hs).2.1 keepsEntry_mergedEntry, by omega⟩
      · rw [krRankedRrarrayAdd_eexist hs hok]
        exact ⟨.refl array, Nat.le_succ _⟩
    | none =>
      by_cases hp : pool < 3
      · rw [krRankedRrarrayAdd_enomem hs hp]
        exact ⟨.refl array, Nat.le_succ _⟩
      · rw [krRankedRrarrayAdd_append hs (by omega)]
        have h := @addKeeps_append array rr rank toWire u
        exact ⟨h.2.1, by rcases h.1 with h | h <;> dsimp only <;> omega⟩
  | setWire toWire u checkDups extraCheck =>
    simp only [Call.apply, krRankedRrarraySetWire_eq_map, setWireMap, List.length_map]
    exact ⟨keepsEntries_map fun _ => keepsEntry_setWireEntry, by omega⟩

/-- Over any run of calls from any array, failed calls included, every entry stays at its index
with its owner, class, type, query, rank, `cached` and `yielded`, and keeps all its records; the
calls add at most one entry each. -/
theorem foldl_keepsEntries (calls : List Call) (array : RankedRrArray) :
    KeepsEntries array (calls.foldl (fun array c => c.apply array) array) ∧
      (calls.foldl (fun array c => c.apply array) array).length ≤ array.length + calls.length := by
  induction calls generalizing array with
  | nil => exact ⟨.refl array, by simp⟩
  | cons c calls ih =>
    obtain ⟨hk, hl⟩ := c.apply_keeps array
    obtain ⟨hk', hl'⟩ := ih (c.apply array)
    exact ⟨hk.trans hk', by simp only [List.foldl_cons, List.length_cons] at hl' ⊢; omega⟩

/-- Query 1 adds an RRset, query 2 the same, and query 1 again. -/
def queryInterleaving : List Call :=
  [.add 3 exampleRr 0 false 1, .add 3 exampleRr 0 false 2, .add 3 exampleRr 0 false 1]

/-- The third call's merge search stops at query 2's entry, and query 1 holds the RRset twice. -/
theorem runCalls_query_duplicate :
    ∃ e₀ e₂, (runCalls queryInterleaving)[0]? = some e₀ ∧ (runCalls queryInterleaving)[2]? = some e₂ ∧
      e₀.qryUid = e₂.qryUid ∧ rrsetsMatch e₀.rr e₂.rr = true :=
  ⟨newEntry exampleRr 0 false 1, newEntry exampleRr 0 false 1, rfl, rfl, rfl, rfl⟩

/-! ### Entries on the wire -/

/-- Query 2 adds an RRset for the answer; query 1 adds it off the wire, as glue, and then for the
answer. -/
def glueThenAnswer : List Call :=
  [.add 3 exampleRr 0 true 2, .add 3 exampleRr 0 false 1, .add 3 exampleRr 0 true 1]

/-- The third call merges into query 1's entry and raises its `to_wire`, leaving query 2's entry on
the wire: two entries on the wire form one RRset, with no `set_wire` in the run. -/
theorem runCalls_wire_duplicate :
    glueThenAnswer.all Call.checksDups = true ∧
      ∃ e₀ e₁, (runCalls glueThenAnswer)[0]? = some e₀ ∧ (runCalls glueThenAnswer)[1]? = some e₁ ∧
        e₀.toWire = true ∧ e₁.toWire = true ∧ rrsetsMatch e₀.rr e₁.rr = true :=
  ⟨rfl, newEntry exampleRr 0 true 2, { newEntry exampleRr 0 false 1 with toWire := true },
    rfl, rfl, rfl, rfl, rfl⟩

end KnotResolver
