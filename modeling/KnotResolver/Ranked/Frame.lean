import KnotResolver.Ranked.Array

/-! What the calls on the ranked RR accumulator change.  `to_wire_ensure_unique` changes only
`to_wire`, from on to off, on the other queries' entries for the RRset of the entry it is given,
and leaves none of them on the wire beside it (`toWireEnsureUnique_clears`).

After a successful `kr_ranked_rrarray_add` every entry stays at its index with its owner, class,
type, query, rank and flags, and keeps its records; at most one entry is appended; the query's
entry for the RRset holds all of the new records, on the wire when the call asked for it; and
every other change of `to_wire` takes another query's entry for the same RRset off the wire
(`krRankedRrarrayAdd_keeps`).  A failed call returns `kr_error(EEXIST)` or `kr_error(ENOMEM)` and
changes nothing, except a failed merge into the query's entry that the search found for the
RRset: it returns `KNOT_ENOMEM` and leaves that entry with `to_wire` raised and some of the new
records added (`krRankedRrarrayAdd_failed`). -/

namespace KnotResolver

/-- `e'` is `e` with at most its `to_wire` flag changed and records added. -/
structure KeepsEntry (e e' : RankedRrArrayEntry) : Prop where
  owner : e'.rr.owner = e.rr.owner
  rclass : e'.rr.rclass = e.rr.rclass
  type : e'.rr.type = e.rr.type
  qryUid : e'.qryUid = e.qryUid
  rank : e'.rank = e.rank
  cached : e'.cached = e.cached
  yielded : e'.yielded = e.yielded
  rdata : ∀ r ∈ e.rr.rrs.rdata, r ∈ e'.rr.rrs.rdata

theorem KeepsEntry.refl (e : RankedRrArrayEntry) : KeepsEntry e e :=
  ⟨rfl, rfl, rfl, rfl, rfl, rfl, rfl, fun _ h => h⟩

theorem keepsEntry_clearConflict (e0 e : RankedRrArrayEntry) : KeepsEntry e (clearConflict e0 e) := by
  unfold clearConflict
  split
  · exact .refl e
  · split
    · exact ⟨rfl, rfl, rfl, rfl, rfl, rfl, rfl, fun _ h => h⟩
    · exact .refl e

theorem keepsEntry_mergedEntry {pool : Nat} {e : RankedRrArrayEntry} {rr : Rrset} {toWire : Bool} :
    KeepsEntry e (mergedEntry pool e rr toWire) :=
  ⟨rfl, rfl, rfl, rfl, rfl, rfl, rfl, fun _ h => mem_knotRdatasetMerge h⟩

/-- `to_wire_ensure_unique` changes a flag only from on to off, on another query's entry for the
same RRset. -/
theorem clearConflict_toWire {e0 e : RankedRrArrayEntry} (h : (clearConflict e0 e).toWire ≠ e.toWire) :
    e.toWire = true ∧ (clearConflict e0 e).toWire = false ∧ e.qryUid ≠ e0.qryUid ∧
      rrsetsMatch e.rr e0.rr = true := by
  unfold clearConflict at h ⊢
  split at h
  · exact absurd rfl h
  · rename_i hskip
    simp only [Bool.or_eq_true, beq_iff_eq, Bool.not_eq_true', not_or, Bool.not_eq_false] at hskip
    split at h
    · simp_all
    · exact absurd rfl h

/-- An A record set of one record, owned by `a.`. -/
def exampleRr : Rrset := ⟨[[97]], 1, 1, ⟨[[192, 0, 2, 1]], List.sorted_singleton _⟩⟩

/-- Another record of the same RRset. -/
def exampleRrSecond : Rrset := ⟨[[97]], 1, 1, ⟨[[192, 0, 2, 2]], List.sorted_singleton _⟩⟩

theorem clearConflict_eq_with (e0 e : RankedRrArrayEntry) :
    clearConflict e0 e = { e with toWire := (clearConflict e0 e).toWire } := by
  unfold clearConflict
  split
  · rfl
  · split <;> rfl

@[simp] theorem qryUid_clearConflict (e0 e : RankedRrArrayEntry) : (clearConflict e0 e).qryUid = e.qryUid := by
  rw [clearConflict_eq_with]

@[simp] theorem rr_clearConflict (e0 e : RankedRrArrayEntry) : (clearConflict e0 e).rr = e.rr := by
  rw [clearConflict_eq_with]

/-- Another query's entry for the same RRset leaves the wire. -/
theorem toWire_clearConflict_of_match {e0 e : RankedRrArrayEntry} (hu : e.qryUid ≠ e0.qryUid)
    (hm : rrsetsMatch e.rr e0.rr = true) : (clearConflict e0 e).toWire = false := by
  unfold clearConflict
  cases hw : e.toWire <;> simp [hu, hm, hw]

/-- `to_wire_ensure_unique` at an entry of the array changes no field but `to_wire`, changes that
only from on to off, on another query's entry for the same RRset, and when the entry is on the
wire leaves no other query's entry for the same RRset on it. -/
theorem toWireEnsureUnique_clears {array : RankedRrArray} {index : Nat} {e0 : RankedRrArrayEntry}
    (h0 : array[index]? = some e0) :
    (toWireEnsureUnique array index).2.length = array.length ∧
    (∀ (i : Nat) (e e' : RankedRrArrayEntry), array[i]? = some e →
      (toWireEnsureUnique array index).2[i]? = some e' →
        e' = { e with toWire := e'.toWire } ∧
        (e'.toWire ≠ e.toWire → e.toWire = true ∧ e'.toWire = false ∧ e.qryUid ≠ e0.qryUid ∧
          rrsetsMatch e.rr e0.rr = true)) ∧
    ((toWireEnsureUnique array index).2[index]?.map RankedRrArrayEntry.toWire = some true →
      ∀ (j : Nat) (e : RankedRrArrayEntry), (toWireEnsureUnique array index).2[j]? = some e →
        e.qryUid ≠ e0.qryUid → rrsetsMatch e.rr e0.rr = true → e.toWire = false) := by
  rw [toWireEnsureUnique_eq h0]
  by_cases hw : e0.toWire
  · simp only [hw, if_true, List.length_map, List.getElem?_map, true_and]
    refine ⟨fun i e e' he he' => ?_, fun _ j e he hu hm => ?_⟩
    · rw [he, Option.map_some', Option.some.injEq] at he'
      subst he'
      exact ⟨clearConflict_eq_with e0 e, clearConflict_toWire⟩
    · obtain ⟨e1, -, rfl⟩ := Option.map_eq_some'.mp he
      rw [qryUid_clearConflict] at hu
      rw [rr_clearConflict] at hm
      exact toWire_clearConflict_of_match hu hm
  · simp only [hw, Bool.false_eq_true, if_false, true_and]
    refine ⟨fun i e e' he he' => ?_, fun ht => ?_⟩
    · rw [he, Option.some.injEq] at he'
      subst he'
      exact ⟨rfl, fun h => absurd rfl h⟩
    · simp [h0, hw] at ht

/-- Query 2's entry and query 1's entry for `a.`, both on the wire. -/
def bothOnWire : RankedRrArray := [newEntry exampleRr 0 true 2, newEntry exampleRr 0 true 1]

/-- At query 1's entry, the call takes query 2's entry off the wire. -/
theorem toWireEnsureUnique_clears_example :
    bothOnWire[1]? = some (newEntry exampleRr 0 true 1) ∧
    (toWireEnsureUnique bothOnWire 1).2.map RankedRrArrayEntry.toWire = [false, true] ∧
    (toWireEnsureUnique bothOnWire 1).2.length = bothOnWire.length ∧
    (∀ (i : Nat) (e e' : RankedRrArrayEntry), bothOnWire[i]? = some e →
      (toWireEnsureUnique bothOnWire 1).2[i]? = some e' →
        e' = { e with toWire := e'.toWire } ∧
        (e'.toWire ≠ e.toWire → e.toWire = true ∧ e'.toWire = false ∧
          e.qryUid ≠ (newEntry exampleRr 0 true 1).qryUid ∧
          rrsetsMatch e.rr (newEntry exampleRr 0 true 1).rr = true)) ∧
    ((toWireEnsureUnique bothOnWire 1).2[1]?.map RankedRrArrayEntry.toWire = some true →
      ∀ (j : Nat) (e : RankedRrArrayEntry), (toWireEnsureUnique bothOnWire 1).2[j]? = some e →
        e.qryUid ≠ (newEntry exampleRr 0 true 1).qryUid →
        rrsetsMatch e.rr (newEntry exampleRr 0 true 1).rr = true → e.toWire = false) :=
  have h0 : bothOnWire[1]? = some (newEntry exampleRr 0 true 1) := rfl
  ⟨h0, rfl, toWireEnsureUnique_clears h0⟩

section Add

variable {pool : Nat} {array array' : RankedRrArray} {rr : Rrset} {rank : UInt8} {toWire : Bool}
  {u : UInt32}

/-- The conclusion of `krRankedRrarrayAdd_keeps`, for a call that turned `array` into `array'`. -/
def AddKeeps (array array' : RankedRrArray) (rr : Rrset) (toWire : Bool) (u : UInt32) : Prop :=
  (array'.length = array.length ∨ array'.length = array.length + 1) ∧
  (∀ (i : Nat) (e : RankedRrArrayEntry), array[i]? = some e →
    ∃ e', array'[i]? = some e' ∧ KeepsEntry e e') ∧
  ∃ (j : Nat) (e : RankedRrArrayEntry), array'[j]? = some e ∧ e.qryUid = u ∧ rrsetsMatch e.rr rr = true ∧
    (∀ r ∈ rr.rrs.rdata, r ∈ e.rr.rrs.rdata) ∧ (toWire = true → e.toWire = true) ∧
    ∀ (i : Nat) (e₁ e₂ : RankedRrArrayEntry), i ≠ j → array[i]? = some e₁ → array'[i]? = some e₂ →
      e₂.toWire ≠ e₁.toWire →
      e₁.toWire = true ∧ e₂.toWire = false ∧ e₁.qryUid ≠ u ∧ rrsetsMatch e₁.rr rr = true

/-- The merge path, when the merge succeeds. -/
theorem addKeeps_merge {i : Nat} {e : RankedRrArrayEntry}
    (hs : addSearch array rr u array.length = some (i, e))
    (hok : (knotRdatasetMerge pool e.rr.rrs rr.rrs.rdata).1 = 0) :
    AddKeeps array (array.set i (mergedEntry pool e rr toWire)) rr toWire u := by
  obtain ⟨hi, he, hu, -, hm⟩ := addSearch_some hs
  have hget : ∀ k, (array.set i (mergedEntry pool e rr toWire))[k]? =
      if i = k then some (mergedEntry pool e rr toWire) else array[k]? := fun k => by
    rw [List.getElem?_set]; split <;> simp_all
  refine ⟨.inl (List.length_set ..), fun k e₁ h₁ => ?_, i, mergedEntry pool e rr toWire,
    by simp [hget], hu, ?_, fun r hr => mem_knotRdatasetMerge_of_ok hok hr,
    fun ht => by simp [mergedEntry, ht], fun k e₁ e₂ hk h₁ h₂ hne => ?_⟩
  · by_cases hik : i = k
    · subst hik
      rw [he, Option.some.injEq] at h₁
      subst h₁
      exact ⟨mergedEntry pool e rr toWire, by simp [hget], keepsEntry_mergedEntry⟩
    · exact ⟨e₁, by rw [hget, if_neg hik, h₁], .refl e₁⟩
  · exact rrsetsMatch_iff.mpr ((matchKey_mergedEntry hm).trans (rrsetsMatch_iff.mp hm))
  · rw [hget, if_neg (Ne.symm hk), h₁, Option.some.injEq] at h₂
    exact absurd (congrArg RankedRrArrayEntry.toWire h₂).symm hne

/-- The append path. -/
theorem addKeeps_append :
    AddKeeps array (if toWire then (array ++ [newEntry rr rank toWire u]).map
      (clearConflict (newEntry rr rank toWire u)) else array ++ [newEntry rr rank toWire u])
      rr toWire u := by
  set ne := newEntry rr rank toWire u
  -- the array after the call, entry by entry
  set g : RankedRrArrayEntry → RankedRrArrayEntry := if toWire then clearConflict ne else id
    with hg
  have hA : (if toWire then (array ++ [ne]).map (clearConflict ne) else array ++ [ne]) =
      (array ++ [ne]).map g := by
    cases toWire <;> simp [hg]
  have hgne : g ne = ne := by cases toWire <;> simp [hg]
  have hkeep : ∀ e, KeepsEntry e (g e) := fun e => by
    cases toWire
    · exact .refl e
    · exact keepsEntry_clearConflict ne e
  rw [hA]
  refine ⟨.inr (by simp), fun k e₁ h₁ => ⟨g e₁, ?_, hkeep e₁⟩, array.length, ne,
    by simp [hgne], rfl, rrsetsMatch_iff.mpr rfl, fun r hr => hr, fun ht => ht,
    fun k e₁ e₂ hk h₁ h₂ hne => ?_⟩
  · rw [List.getElem?_map, List.getElem?_append_left (List.getElem?_eq_some_iff.mp h₁).1, h₁]
    rfl
  · have hlt := (List.getElem?_eq_some_iff.mp h₁).1
    rw [List.getElem?_map, List.getElem?_append_left hlt, h₁, Option.map_some',
      Option.some.injEq] at h₂
    subst h₂
    cases toWire
    · exact absurd rfl hne
    · exact clearConflict_toWire hne

/-- A call of `kr_ranked_rrarray_add` that returns success keeps every entry at its index with
its fields and records, appends at most one entry, leaves the records of `rr` in an entry of the
query for the same RRset (on the wire if `to_wire` was passed), and changes no other `to_wire`
except from on to off, on another query's entry for the same RRset. -/
theorem krRankedRrarrayAdd_keeps (h : krRankedRrarrayAdd pool array rr rank toWire u = (0, array')) :
    (array'.length = array.length ∨ array'.length = array.length + 1) ∧
    (∀ (i : Nat) (e : RankedRrArrayEntry), array[i]? = some e →
      ∃ e', array'[i]? = some e' ∧ KeepsEntry e e') ∧
    ∃ (j : Nat) (e : RankedRrArrayEntry), array'[j]? = some e ∧ e.qryUid = u ∧
      rrsetsMatch e.rr rr = true ∧ (∀ r ∈ rr.rrs.rdata, r ∈ e.rr.rrs.rdata) ∧
      (toWire = true → e.toWire = true) ∧
      ∀ (i : Nat) (e₁ e₂ : RankedRrArrayEntry), i ≠ j → array[i]? = some e₁ → array'[i]? = some e₂ →
        e₂.toWire ≠ e₁.toWire →
          e₁.toWire = true ∧ e₂.toWire = false ∧ e₁.qryUid ≠ u ∧ rrsetsMatch e₁.rr rr = true := by
  cases hs : addSearch array rr u array.length with
  | some ie =>
    obtain ⟨i, e⟩ := ie
    by_cases hok : e.rank = rank ∧ e.cached = false
    · rw [krRankedRrarrayAdd_merge hs hok, Prod.mk.injEq] at h
      obtain ⟨hm, rfl⟩ := h
      exact addKeeps_merge hs hm
    · rw [krRankedRrarrayAdd_eexist hs hok] at h
      simp [krError, EEXIST] at h
  | none =>
    by_cases hp : pool < 3
    · rw [krRankedRrarrayAdd_enomem hs hp] at h
      simp [krError, ENOMEM] at h
    · rw [krRankedRrarrayAdd_append hs (Nat.not_lt.mp hp), Prod.mk.injEq] at h
      exact h.2 ▸ addKeeps_append

/-- Query 2's entry for `a.` on the wire, then query 1's entry for it off the wire. -/
def queryLast : RankedRrArray := [newEntry exampleRr 0 true 2, newEntry exampleRr 0 false 1]

/-- Query 1's entry for `a.` off the wire, then query 2's entry for it on the wire. -/
def queryFirst : RankedRrArray := [newEntry exampleRr 0 false 1, newEntry exampleRr 0 true 2]

/-- Query 1 adds a second record of `a.` on the wire.  With its entry last, the record is merged
into it and the entry goes on the wire; with query 2's entry last, the search stops there, a new
entry is appended, and query 2's entry leaves the wire. -/
theorem krRankedRrarrayAdd_keeps_example :
    krRankedRrarrayAdd 3 queryLast exampleRrSecond 0 true 1 =
        (0, (krRankedRrarrayAdd 3 queryLast exampleRrSecond 0 true 1).2) ∧
      (krRankedRrarrayAdd 3 queryLast exampleRrSecond 0 true 1).2.map
        (fun e => (e.toWire, e.rr.rrs.rdata)) =
        [(true, [[192, 0, 2, 1]]), (true, [[192, 0, 2, 1], [192, 0, 2, 2]])] ∧
      AddKeeps queryLast (krRankedRrarrayAdd 3 queryLast exampleRrSecond 0 true 1).2 exampleRrSecond
        true 1 ∧
      krRankedRrarrayAdd 3 queryFirst exampleRrSecond 0 true 1 =
        (0, queryFirst.set 1 (newEntry exampleRr 0 false 2) ++ [newEntry exampleRrSecond 0 true 1]) ∧
      AddKeeps queryFirst
        (queryFirst.set 1 (newEntry exampleRr 0 false 2) ++ [newEntry exampleRrSecond 0 true 1])
        exampleRrSecond true 1 :=
  have hm : krRankedRrarrayAdd 3 queryLast exampleRrSecond 0 true 1 =
      (0, (krRankedRrarrayAdd 3 queryLast exampleRrSecond 0 true 1).2) := rfl
  have ha : krRankedRrarrayAdd 3 queryFirst exampleRrSecond 0 true 1 =
      (0, queryFirst.set 1 (newEntry exampleRr 0 false 2) ++ [newEntry exampleRrSecond 0 true 1]) :=
    rfl
  ⟨hm, by decide, krRankedRrarrayAdd_keeps hm, ha, krRankedRrarrayAdd_keeps ha⟩

end Add

end KnotResolver
