import KnotResolver.Wire.Rdata

/-! The ranked RR accumulator of `lib/utils.c`: an array of entries, each an RRset with the rank it
was validated to, the uid of the query that added it, and flags.  `to_wire` marks the entries bound
for the answer.  `kr_ranked_rrarray_add` merges a new RRset into the adding query's entry when the
search from the end of the array finds one before any yielded entry or entry of another query, and
appends it otherwise; `to_wire_ensure_unique` then takes off the wire every other query's entry
that forms the same RRset.  `kr_ranked_rrarray_set_wire` sets the flag of a query's entries.

Each function is written as the source has it, loops included; `to_wire_ensure_unique` is then
shown to act on each entry alone, and `rrsets_match` to compare one key of each RRset. -/

namespace KnotResolver

/-- `ranked_rr_array_entry_t`. -/
structure RankedRrArrayEntry where
  qryUid : UInt32
  rank : UInt8
  revalidationCnt : UInt8
  cached : Bool
  yielded : Bool
  toWire : Bool
  rr : Rrset

/-- `ranked_rr_array_t`: the entries `at[0..len)`.  The capacity is not modelled. -/
abbrev RankedRrArray := List RankedRrArrayEntry

/-- `rrsets_match`: the RRsets would form one set, with the same type, class and owner and, for
RRSIG, the same type covered by their first records. -/
def rrsetsMatch (rr1 rr2 : Rrset) : Bool :=
  let m := rr1.type == rr2.type && rr1.rclass == rr2.rclass
  let m := if m && rr2.type == KNOT_RRTYPE_RRSIG then m && rr1.coveredFirst == rr2.coveredFirst
    else m
  m && knotDnameIsEqual rr1.owner rr2.owner

/-- What `rrsets_match` compares: type, class, owner, and for RRSIG the covered type. -/
def Rrset.matchKey (rr : Rrset) : UInt16 × UInt16 × Option UInt16 × Dname :=
  (rr.type, rr.rclass, if rr.type = KNOT_RRTYPE_RRSIG then rr.coveredFirst else none, rr.owner)

theorem rrsetsMatch_iff {rr1 rr2 : Rrset} : rrsetsMatch rr1 rr2 = true ↔ rr1.matchKey = rr2.matchKey := by
  unfold rrsetsMatch Rrset.matchKey knotDnameIsEqual
  by_cases ht : rr1.type = rr2.type
  · by_cases hs : rr2.type = KNOT_RRTYPE_RRSIG <;> simp [ht, hs, and_assoc]
  · simp [ht]

/-! ### `to_wire_ensure_unique` -/

/-- What the loop of `to_wire_ensure_unique` does to the entry `ei`, against `e0`: an entry of
another query on the wire that forms the same RRset leaves the wire. -/
def clearConflict (e0 ei : RankedRrArrayEntry) : RankedRrArrayEntry :=
  if ei.qryUid == e0.qryUid || !ei.toWire then ei
  else if rrsetsMatch ei.rr e0.rr then { ei with toWire := false } else ei

/-- The loop body at `i`; `e0` is read through the array at `index`, as the C pointer is. -/
def ensureUniqueStep (index : Nat) (array : RankedRrArray) (i : Nat) : RankedRrArray :=
  match array[index]?, array[i]? with
  | some e0, some ei => array.set i (clearConflict e0 ei)
  | _, _ => array

/-- `for (ssize_t i = n - 1; i >= 0; --i)`. -/
def ensureUniqueLoop (index : Nat) : RankedRrArray → Nat → RankedRrArray
  | array, 0 => array
  | array, n + 1 => ensureUniqueLoop index (ensureUniqueStep index array n) n

/-- `to_wire_ensure_unique(array, index)`: its return code and the array after it. -/
def toWireEnsureUnique (array : RankedRrArray) (index : Nat) : Int × RankedRrArray :=
  match array[index]? with
  | none => (krError EINVAL, array)
  | some e0 => if !e0.toWire then (0, array) else (0, ensureUniqueLoop index array array.length)

@[simp] theorem clearConflict_self (e0 : RankedRrArrayEntry) : clearConflict e0 e0 = e0 := by
  simp [clearConflict]

/-- The loop down from `n` clears the conflicts among the first `n` entries and leaves the rest. -/
theorem ensureUniqueLoop_eq {index : Nat} {e0 : RankedRrArrayEntry} :
    ∀ (n : Nat) (array : RankedRrArray), array[index]? = some e0 →
      ensureUniqueLoop index array n =
        array.mapIdx fun i e => if i < n then clearConflict e0 e else e
  | 0, array, _ => by
    rw [ensureUniqueLoop]
    exact (List.ext_getElem (by simp) fun i _ _ => by simp).symm
  | n + 1, array, h0 => by
    have hstep : ensureUniqueStep index array n =
        array.mapIdx fun i e => if i = n then clearConflict e0 e else e := by
      by_cases hn : n < array.length
      · have hs : ensureUniqueStep index array n = array.set n (clearConflict e0 array[n]) := by
          simp [ensureUniqueStep, h0, List.getElem?_eq_getElem hn]
        rw [hs]
        apply List.ext_getElem (by simp)
        intro i h1 h2
        rw [List.getElem_set, List.getElem_mapIdx]
        split <;> simp_all [eq_comm]
      · have hs : ensureUniqueStep index array n = array := by
          simp [ensureUniqueStep, h0, List.getElem?_eq_none (by omega : array.length ≤ n)]
        rw [hs]
        apply List.ext_getElem (by simp)
        intro i h1 h2
        rw [List.getElem_mapIdx, if_neg (by omega)]
    have h0' : (ensureUniqueStep index array n)[index]? = some e0 := by
      rw [hstep, List.getElem?_mapIdx, h0]
      simp only [Option.map_some']
      split <;> simp_all
    rw [ensureUniqueLoop, ensureUniqueLoop_eq n _ h0', hstep]
    apply List.ext_getElem (by simp)
    intro i h1 h2
    simp only [List.getElem_mapIdx]
    by_cases hi : i = n
    · simp [hi]
    · by_cases hin : i < n
      · simp [hi, hin, show i < n + 1 by omega]
      · simp [hi, hin, show ¬ i < n + 1 by omega]

/-- `to_wire_ensure_unique` at an entry on the wire clears the conflicts of every entry; at an
entry off the wire it does nothing. -/
theorem toWireEnsureUnique_eq {array : RankedRrArray} {index : Nat} {e0 : RankedRrArrayEntry}
    (h0 : array[index]? = some e0) :
    toWireEnsureUnique array index =
      (0, if e0.toWire then array.map (clearConflict e0) else array) := by
  unfold toWireEnsureUnique
  rw [h0]
  by_cases hw : e0.toWire
  · simp only [hw, Bool.not_true, Bool.false_eq_true, if_false, if_true,
      ensureUniqueLoop_eq _ _ h0]
    exact congrArg _ (List.ext_getElem (by simp) fun i h1 _ => by simp at h1; simp [h1])
  · simp [hw]

/-! ### `kr_ranked_rrarray_add` -/

/-- The merge search of `kr_ranked_rrarray_add` from index `i - 1` down: the entry to merge with
and its index, if one forms the same RRset before a yielded entry, an entry of another query or
the start of the array. -/
def addSearch (array : RankedRrArray) (rr : Rrset) (qryUid : UInt32) :
    Nat → Option (Nat × RankedRrArrayEntry)
  | 0 => none
  | i + 1 =>
    match array[i]? with
    | none => none
    | some stashed =>
      if stashed.yielded then none
      else if stashed.qryUid != qryUid then none
      else if !rrsetsMatch stashed.rr rr then addSearch array rr qryUid i
      else some (i, stashed)

/-- The entry that `kr_ranked_rrarray_add` appends. -/
def newEntry (rr : Rrset) (rank : UInt8) (toWire : Bool) (qryUid : UInt32) : RankedRrArrayEntry :=
  { qryUid, rank, revalidationCnt := 0, cached := false, yielded := false, toWire, rr }

/-- `kr_ranked_rrarray_add(array, rr, rank, to_wire, qry_uid, pool)`: its return code and the
array after it.  The append path takes three allocations from the pool (`array_reserve_mm`, the
entry, `knot_rrset_copy`), each refusal giving `ENOMEM`; the merge path takes those of
`knot_rdataset_merge`, after setting `to_wire`. -/
def krRankedRrarrayAdd (pool : Nat) (array : RankedRrArray) (rr : Rrset) (rank : UInt8)
    (toWire : Bool) (qryUid : UInt32) : Int × RankedRrArray :=
  match addSearch array rr qryUid array.length with
  | some (i, stashed) =>
    if !(stashed.rank == rank && !stashed.cached) then (krError EEXIST, array)
    else
      let stashed := { stashed with toWire := stashed.toWire || toWire }
      let merged := knotRdatasetMerge pool stashed.rr.rrs rr.rrs.rdata
      (merged.1, array.set i { stashed with rr := { stashed.rr with rrs := merged.2 } })
  | none =>
    if pool < 3 then (krError ENOMEM, array)
    else toWireEnsureUnique (array ++ [newEntry rr rank toWire qryUid]) array.length

/-! ### `kr_ranked_rrarray_set_wire` -/

/-- The loop of `kr_ranked_rrarray_set_wire` at index `i`, with `n` iterations left;
`extraCheck = none` is the `NULL` predicate. -/
def setWireLoop (toWire : Bool) (qryUid : UInt32) (checkDups : Bool)
    (extraCheck : Option (RankedRrArrayEntry → Bool)) :
    RankedRrArray → Nat → Nat → Int × RankedRrArray
  | array, _, 0 => (0, array)
  | array, i, n + 1 =>
    match array[i]? with
    | none => (0, array)
    | some entry =>
      if entry.qryUid != qryUid then setWireLoop toWire qryUid checkDups extraCheck array (i + 1) n
      else if extraCheck.any (fun f => !f entry) then
        setWireLoop toWire qryUid checkDups extraCheck array (i + 1) n
      else
        let array := array.set i { entry with toWire }
        if checkDups then
          let r := toWireEnsureUnique array i
          if r.1 ≠ 0 then r else setWireLoop toWire qryUid checkDups extraCheck r.2 (i + 1) n
        else setWireLoop toWire qryUid checkDups extraCheck array (i + 1) n

/-- `kr_ranked_rrarray_set_wire(array, to_wire, qry_uid, check_dups, extraCheck)`. -/
def krRankedRrarraySetWire (array : RankedRrArray) (toWire : Bool) (qryUid : UInt32)
    (checkDups : Bool) (extraCheck : Option (RankedRrArrayEntry → Bool)) : Int × RankedRrArray :=
  setWireLoop toWire qryUid checkDups extraCheck array 0 array.length

/-! ### What the search finds -/

section Search

variable {array : RankedRrArray} {rr : Rrset} {u : UInt32}

/-- A found entry is at its index, of the query, not yielded, forming the same RRset. -/
theorem addSearch_some {n i : Nat} {e : RankedRrArrayEntry} (h : addSearch array rr u n = some (i, e)) :
    i < n ∧ array[i]? = some e ∧ e.qryUid = u ∧ e.yielded = false ∧ rrsetsMatch e.rr rr = true := by
  induction n with
  | zero => cases h
  | succ n ih =>
    simp only [addSearch] at h
    split at h
    · cases h
    · rename_i stashed hs
      split at h
      · cases h
      split at h
      · cases h
      split at h
      · exact (ih h).imp_left (by omega)
      · cases h
        simp_all

/-- When the search finds nothing, no entry of the query's run at the end of the array, before a
yielded entry, forms the same RRset. -/
theorem addSearch_none {n : Nat} (h : addSearch array rr u n = none) (hn : n ≤ array.length) :
    ∀ j (hj : j < n), (∀ k (hk : k < array.length), j ≤ k → k < n →
      array[k].qryUid = u ∧ array[k].yielded = false) →
      rrsetsMatch array[j].rr rr = false := by
  induction n with
  | zero => intro j hj; omega
  | succ n ih =>
    intro j hj hrun
    have hn' : n < array.length := by omega
    obtain ⟨hu, hy⟩ := hrun n hn' (by omega) (by omega)
    simp only [addSearch, List.getElem?_eq_getElem hn', hy, hu, bne_self_eq_false,
      Bool.false_eq_true, if_false] at h
    by_cases hm : rrsetsMatch array[n].rr rr
    · simp [hm] at h
    · simp only [hm, Bool.not_false, if_true] at h
      rcases Nat.lt_succ_iff_lt_or_eq.mp hj with hj | rfl
      · exact ih h (by omega) j hj fun k hk h1 h2 => hrun k hk h1 (by omega)
      · simpa using hm

end Search

/-! ### The branches of `kr_ranked_rrarray_add` -/

section Add

variable {pool : Nat} {array : RankedRrArray} {rr : Rrset} {rank : UInt8} {toWire : Bool}
  {u : UInt32} {i : Nat} {e : RankedRrArrayEntry}

/-- The entry after a merge: `to_wire` raised by the call's flag, and the records merged. -/
def mergedEntry (pool : Nat) (e : RankedRrArrayEntry) (rr : Rrset) (toWire : Bool) :
    RankedRrArrayEntry :=
  { e with toWire := e.toWire || toWire,
           rr := { e.rr with rrs := (knotRdatasetMerge pool e.rr.rrs rr.rrs.rdata).2 } }

theorem krRankedRrarrayAdd_eexist (hs : addSearch array rr u array.length = some (i, e))
    (hbad : ¬(e.rank = rank ∧ e.cached = false)) :
    krRankedRrarrayAdd pool array rr rank toWire u = (krError EEXIST, array) := by
  have : (!(e.rank == rank && !e.cached)) = true := by
    cases hc : e.cached <;> simp_all
  simp [krRankedRrarrayAdd, hs, this]

theorem krRankedRrarrayAdd_merge (hs : addSearch array rr u array.length = some (i, e))
    (hok : e.rank = rank ∧ e.cached = false) :
    krRankedRrarrayAdd pool array rr rank toWire u =
      ((knotRdatasetMerge pool e.rr.rrs rr.rrs.rdata).1, array.set i (mergedEntry pool e rr toWire)) := by
  simp [krRankedRrarrayAdd, hs, hok, mergedEntry]

theorem krRankedRrarrayAdd_enomem (hs : addSearch array rr u array.length = none) (hp : pool < 3) :
    krRankedRrarrayAdd pool array rr rank toWire u = (krError ENOMEM, array) := by
  simp [krRankedRrarrayAdd, hs, hp]

theorem krRankedRrarrayAdd_append (hs : addSearch array rr u array.length = none) (hp : 3 ≤ pool) :
    krRankedRrarrayAdd pool array rr rank toWire u =
      (0, if toWire then (array ++ [newEntry rr rank toWire u]).map
        (clearConflict (newEntry rr rank toWire u)) else array ++ [newEntry rr rank toWire u]) := by
  simp only [krRankedRrarrayAdd, hs, if_neg (Nat.not_lt.mpr hp)]
  rw [toWireEnsureUnique_eq (show (array ++ [newEntry rr rank toWire u])[array.length]? =
    some (newEntry rr rank toWire u) by simp)]
  rfl

/-- A merge into an entry that forms the same RRset as `rr` keeps what `rrsets_match` compares:
the first record of a merge is the first of one of the two sets, and both cover one type. -/
theorem matchKey_mergedEntry (hm : rrsetsMatch e.rr rr = true) :
    (mergedEntry pool e rr toWire).rr.matchKey = e.rr.matchKey := by
  have hk := rrsetsMatch_iff.mp hm
  simp only [Rrset.matchKey, Prod.mk.injEq] at hk
  obtain ⟨ht, -, hc, -⟩ := hk
  simp only [mergedEntry, Rrset.matchKey, Prod.mk.injEq, true_and, and_true]
  split
  · rename_i hrr
    have hrr' : rr.type = KNOT_RRTYPE_RRSIG := ht ▸ hrr
    rw [if_pos hrr, if_pos hrr'] at hc
    simp only [Rrset.coveredFirst] at hc ⊢
    rcases @head?_knotRdatasetMerge pool e.rr.rrs _ rr.rrs.sorted with h | h <;>
      rw [h]
    exact hc.symm
  · rfl

end Add

end KnotResolver
