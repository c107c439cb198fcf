import KnotResolver.Ranked.Frame

/-! `kr_ranked_rrarray_set_wire` entry by entry.  The loop sets the flag of each entry of the query
that `extraCheck` accepts, and with `check_dups` runs `to_wire_ensure_unique` at it, which walks
the whole array again and may clear entries the outer loop has not reached yet.  What the call
leaves is still a function of each entry alone (`krRankedRrarraySetWire_eq_map`): a selected entry
takes the flag, and when the flag is on and duplicates are checked, another query's entry on the
wire leaves it exactly when it forms the same RRset as some selected entry.  The outer loop is
taken one step at a time (`setWireLoop_succ`), over the entries it has passed and those ahead.
From the one-pass form, a second call with the same arguments changes nothing
(`krRankedRrarraySetWire_idem`). -/

namespace KnotResolver

/-- Whether `kr_ranked_rrarray_set_wire` sets the flag of `e`: an entry of the query that
`extraCheck`, if given, accepts. -/
def setWireSelects (qryUid : UInt32) (extraCheck : Option (RankedRrArrayEntry → Bool))
    (e : RankedRrArrayEntry) : Bool :=
  e.qryUid == qryUid && !extraCheck.any fun f => !f e

/-- Whether `e` is another query's entry on the wire that forms the same RRset as an entry of
`sel` that the call selects. -/
def wireConflict (sel : RankedRrArray) (qryUid : UInt32)
    (extraCheck : Option (RankedRrArrayEntry → Bool)) (e : RankedRrArrayEntry) : Bool :=
  e.qryUid != qryUid && e.toWire &&
    sel.any fun e0 => setWireSelects qryUid extraCheck e0 && rrsetsMatch e.rr e0.rr

/-- An entry the call does not select, once the selected entries of `sel` have had their flag set
and, with `check_dups`, `to_wire_ensure_unique` run at them. -/
def offWire (sel : RankedRrArray) (toWire : Bool) (qryUid : UInt32) (checkDups : Bool)
    (extraCheck : Option (RankedRrArrayEntry → Bool)) (e : RankedRrArrayEntry) :
    RankedRrArrayEntry :=
  if checkDups && toWire && wireConflict sel qryUid extraCheck e then { e with toWire := false }
  else e

/-- What `kr_ranked_rrarray_set_wire` makes of the entry `e`, the selected entries being those of
`sel`. -/
def setWireEntry (sel : RankedRrArray) (toWire : Bool) (qryUid : UInt32) (checkDups : Bool)
    (extraCheck : Option (RankedRrArrayEntry → Bool)) (e : RankedRrArrayEntry) :
    RankedRrArrayEntry :=
  if setWireSelects qryUid extraCheck e then { e with toWire }
  else offWire sel toWire qryUid checkDups extraCheck e

/-- `kr_ranked_rrarray_set_wire` as one pass over the entries. -/
def setWireMap (array : RankedRrArray) (toWire : Bool) (qryUid : UInt32) (checkDups : Bool)
    (extraCheck : Option (RankedRrArrayEntry → Bool)) : RankedRrArray :=
  array.map (setWireEntry array toWire qryUid checkDups extraCheck)

section Entry

variable {sel : RankedRrArray} {toWire checkDups : Bool} {u : UInt32}
  {extraCheck : Option (RankedRrArrayEntry → Bool)} {a e : RankedRrArrayEntry}

theorem qryUid_of_setWireSelects (h : setWireSelects u extraCheck e = true) : e.qryUid = u := by
  simp only [setWireSelects, Bool.and_eq_true, beq_iff_eq] at h
  exact h.1

@[simp] theorem wireConflict_nil : wireConflict [] u extraCheck e = false := by
  simp [wireConflict]

theorem wireConflict_of_qryUid (h : e.qryUid = u) : wireConflict sel u extraCheck e = false := by
  simp [wireConflict, h]

theorem wireConflict_append_of_not_selects (ha : setWireSelects u extraCheck a = false) :
    wireConflict (sel ++ [a]) u extraCheck e = wireConflict sel u extraCheck e := by
  simp [wireConflict, List.any_append, ha]

theorem offWire_of_not (h : (checkDups && toWire) = false) :
    offWire sel toWire u checkDups extraCheck e = e := by
  simp [offWire, h]

theorem offWire_of_qryUid (h : e.qryUid = u) : offWire sel toWire u checkDups extraCheck e = e := by
  simp [offWire, wireConflict_of_qryUid h]

@[simp] theorem offWire_nil : offWire [] toWire u checkDups extraCheck e = e := by
  simp [offWire]

@[simp] theorem qryUid_offWire : (offWire sel toWire u checkDups extraCheck e).qryUid = e.qryUid := by
  unfold offWire; split <;> rfl

theorem setWireSelects_offWire :
    setWireSelects u extraCheck (offWire sel toWire u checkDups extraCheck e) =
      setWireSelects u extraCheck e := by
  by_cases h : e.qryUid = u
  · rw [offWire_of_qryUid h]
  · simp [setWireSelects, beq_eq_false_iff_ne.mpr h]

/-- Passing an entry the call does not select changes no entry. -/
theorem offWire_append_of_not_selects (ha : setWireSelects u extraCheck a = false) :
    offWire (sel ++ [a]) toWire u checkDups extraCheck = offWire sel toWire u checkDups extraCheck :=
  funext fun _ => by simp only [offWire, wireConflict_append_of_not_selects ha]

theorem setWireEntry_append_of_not_selects (ha : setWireSelects u extraCheck a = false) :
    setWireEntry (sel ++ [a]) toWire u checkDups extraCheck =
      setWireEntry sel toWire u checkDups extraCheck :=
  funext fun _ => by simp only [setWireEntry, offWire_append_of_not_selects ha]

/-- `to_wire_ensure_unique` at a selected entry put on the wire clears the other queries' entries
on the wire for its RRset, which is what passing it adds to `offWire`. -/
theorem clearConflict_offWire (ha : setWireSelects u extraCheck a = true) :
    clearConflict { a with toWire := true } (offWire sel true u true extraCheck e) =
      offWire (sel ++ [a]) true u true extraCheck e := by
  have hu := qryUid_of_setWireSelects ha
  have hc' : wireConflict (sel ++ [a]) u extraCheck e =
      (wireConflict sel u extraCheck e || (e.qryUid != u && e.toWire && rrsetsMatch e.rr a.rr)) := by
    simp only [wireConflict, List.any_append, List.any_cons, List.any_nil, ha, Bool.true_and,
      Bool.or_false]
    cases e.qryUid != u <;> cases e.toWire <;> simp
  cases hc : wireConflict sel u extraCheck e
  · -- not cleared yet: the walk at `a` decides
    simp only [offWire, hc, hc', Bool.false_or, Bool.true_and]
    unfold clearConflict
    by_cases hq : e.qryUid = u <;> cases hw : e.toWire <;> simp [hq, hw, hu]
  · -- cleared already, and off the wire the walk leaves it
    simp [offWire, hc, hc', clearConflict]

theorem clearConflict_setWireEntry (ha : setWireSelects u extraCheck a = true) :
    clearConflict { a with toWire := true } (setWireEntry sel true u true extraCheck e) =
      setWireEntry (sel ++ [a]) true u true extraCheck e := by
  unfold setWireEntry
  split
  · rename_i he
    have hq : e.qryUid = a.qryUid := by
      simp only [setWireSelects, Bool.and_eq_true, beq_iff_eq] at ha he
      rw [he.1, ha.1]
    simp [clearConflict, hq]
  · exact clearConflict_offWire ha

@[simp] theorem qryUid_setWireEntry :
    (setWireEntry sel toWire u checkDups extraCheck e).qryUid = e.qryUid := by
  unfold setWireEntry; split <;> simp

@[simp] theorem rr_setWireEntry : (setWireEntry sel toWire u checkDups extraCheck e).rr = e.rr := by
  unfold setWireEntry offWire; split_ifs <;> rfl

/-- `kr_ranked_rrarray_set_wire` changes no field of an entry but `to_wire`. -/
theorem keepsEntry_setWireEntry : KeepsEntry e (setWireEntry sel toWire u checkDups extraCheck e) := by
  unfold setWireEntry offWire
  split_ifs
  all_goals first | exact .refl e | exact ⟨rfl, rfl, rfl, rfl, rfl, rfl, rfl, fun _ h => h⟩

/-- An entry the call leaves selected was selected before: `extraCheck` may read the flag the call
changed, so selection can only be lost. -/
theorem setWireSelects_of_setWireEntry
    (h : setWireSelects u extraCheck (setWireEntry sel toWire u checkDups extraCheck e) = true) :
    setWireSelects u extraCheck e = true := by
  unfold setWireEntry at h
  split at h
  · assumption
  · rwa [setWireSelects_offWire] at h

/-- A conflict with the entries the call leaves is a conflict with those it was given. -/
theorem wireConflict_of_map_setWireEntry {sel' : RankedRrArray}
    (h : wireConflict (sel.map (setWireEntry sel' toWire u checkDups extraCheck)) u extraCheck e) :
    wireConflict sel u extraCheck e := by
  simp only [wireConflict, List.any_map, Bool.and_eq_true, List.any_eq_true, Function.comp_apply,
    rr_setWireEntry] at h ⊢
  obtain ⟨hqw, e0, hmem, hs, hm⟩ := h
  exact ⟨hqw, e0, hmem, setWireSelects_of_setWireEntry hs, hm⟩

/-- An entry of the query that already holds the flag is left as it is. -/
theorem setWireEntry_of_toWire (hq : e.qryUid = u) (hw : e.toWire = toWire) :
    setWireEntry sel toWire u checkDups extraCheck e = e := by
  unfold setWireEntry
  split
  · subst hw; rfl
  · exact offWire_of_qryUid hq

/-- Clearing again against fewer conflicts changes nothing. -/
theorem offWire_offWire {sel' : RankedRrArray}
    (hle : wireConflict sel' u extraCheck e → wireConflict sel u extraCheck e) :
    offWire sel' toWire u checkDups extraCheck (offWire sel toWire u checkDups extraCheck e) =
      offWire sel toWire u checkDups extraCheck e := by
  by_cases hc : (checkDups && toWire && wireConflict sel u extraCheck e) = true
  · -- taken off the wire, it conflicts with nothing
    rw [show offWire sel toWire u checkDups extraCheck e = { e with toWire := false } from if_pos hc]
    simp [offWire, wireConflict]
  · -- kept, and no conflict with `sel'` either
    rw [show offWire sel toWire u checkDups extraCheck e = e from if_neg hc]
    refine if_neg fun h => hc ?_
    simp only [Bool.and_eq_true] at h ⊢
    exact ⟨h.1, hle h.2⟩

/-- A second pass over the entries the call leaves changes none of them. -/
theorem setWireEntry_setWireEntry :
    setWireEntry (sel.map (setWireEntry sel toWire u checkDups extraCheck)) toWire u checkDups
        extraCheck (setWireEntry sel toWire u checkDups extraCheck e) =
      setWireEntry sel toWire u checkDups extraCheck e := by
  by_cases hs : setWireSelects u extraCheck e = true
  · -- selected: the entry holds the flag and stays as it is
    rw [show setWireEntry sel toWire u checkDups extraCheck e = { e with toWire } from if_pos hs]
    exact setWireEntry_of_toWire (qryUid_of_setWireSelects hs : e.qryUid = u) rfl
  · -- passed over: still not selected, and cleared at most once
    rw [show setWireEntry sel toWire u checkDups extraCheck e =
        offWire sel toWire u checkDups extraCheck e from if_neg hs, setWireEntry,
      if_neg (by rwa [setWireSelects_offWire])]
    exact offWire_offWire wireConflict_of_map_setWireEntry

end Entry

/-! ### The loop -/

section Loop

variable {toWire checkDups : Bool} {u : UInt32} {extraCheck : Option (RankedRrArrayEntry → Bool)}

/-- One iteration of the loop of `kr_ranked_rrarray_set_wire` at the entry `x`: a selected entry
takes the flag, and `to_wire_ensure_unique` then clears the conflicts of every entry when the flag
is on and duplicates are checked. -/
theorem setWireLoop_succ {array : RankedRrArray} {i n : Nat} {x : RankedRrArrayEntry}
    (h : array[i]? = some x) :
    setWireLoop toWire u checkDups extraCheck array i (n + 1) =
      setWireLoop toWire u checkDups extraCheck
        (if setWireSelects u extraCheck x then
          if checkDups && toWire then
            (array.set i { x with toWire }).map (clearConflict { x with toWire })
          else array.set i { x with toWire }
        else array) (i + 1) n := by
  have hset : (array.set i { x with toWire })[i]? = some { x with toWire } := by
    rw [List.getElem?_set_self (List.getElem?_eq_some_iff.mp h).1]
  simp only [setWireLoop, h]
  by_cases hs : setWireSelects u extraCheck x = true
  · -- the flag is set, and `to_wire_ensure_unique` returns 0 at an index that holds an entry
    have hq : (x.qryUid != u) = false := by simp [qryUid_of_setWireSelects hs]
    have hx : (extraCheck.any fun f => !f x) = false := by simp_all [setWireSelects]
    simp only [hq, hx, Bool.false_eq_true, if_false, hs, if_true]
    cases checkDups
    · rfl
    · rw [toWireEnsureUnique_eq hset]
      cases toWire <;> rfl
  · simp only [Bool.not_eq_true] at hs
    simp only [hs, Bool.false_eq_true, if_false]
    split_ifs <;> simp_all [setWireSelects]

/-- The loop from the entry `a`, with the entries `pre` passed and `post` ahead, moves on to the
entries after `a` with `a` passed. -/
theorem setWireLoop_step (pre post : RankedRrArray) (a : RankedRrArrayEntry) (n : Nat) :
    setWireLoop toWire u checkDups extraCheck
        (pre.map (setWireEntry pre toWire u checkDups extraCheck) ++
          (a :: post).map (offWire pre toWire u checkDups extraCheck)) pre.length (n + 1) =
      setWireLoop toWire u checkDups extraCheck
        ((pre ++ [a]).map (setWireEntry (pre ++ [a]) toWire u checkDups extraCheck) ++
          post.map (offWire (pre ++ [a]) toWire u checkDups extraCheck)) (pre.length + 1) n := by
  have hat : (pre.map (setWireEntry pre toWire u checkDups extraCheck) ++
      (a :: post).map (offWire pre toWire u checkDups extraCheck))[pre.length]? =
        some (offWire pre toWire u checkDups extraCheck a) := by
    rw [List.getElem?_append_right (by simp)]
    simp
  rw [setWireLoop_succ hat, setWireSelects_offWire]
  congr 1
  cases ha : setWireSelects u extraCheck a
  · -- an entry not selected is passed over, and passing it changes nothing
    simp [setWireEntry_append_of_not_selects ha, offWire_append_of_not_selects ha, setWireEntry,
      ha]
  · have hu := qryUid_of_setWireSelects ha
    have hset : (pre.map (setWireEntry pre toWire u checkDups extraCheck) ++
        (a :: post).map (offWire pre toWire u checkDups extraCheck)).set pre.length
          { a with toWire } =
        pre.map (setWireEntry pre toWire u checkDups extraCheck) ++
          { a with toWire } :: post.map (offWire pre toWire u checkDups extraCheck) := by
      rw [List.set_append_right _ _ (by simp)]
      simp
    rw [offWire_of_qryUid hu, if_pos rfl, hset]
    have hentry : setWireEntry (pre ++ [a]) toWire u checkDups extraCheck a = { a with toWire } := by
      simp [setWireEntry, ha]
    by_cases hdup : (checkDups && toWire) = true
    · -- `to_wire_ensure_unique` at `a` adds `a` to the entries that clear the others
      obtain ⟨rfl, rfl⟩ : checkDups = true ∧ toWire = true := by simpa using hdup
      simp only [hdup, if_true, List.map_append, List.map_cons, List.map_map, clearConflict_self]
      rw [show clearConflict { a with toWire := true } ∘ setWireEntry pre true u true extraCheck =
          setWireEntry (pre ++ [a]) true u true extraCheck from
            funext fun _ => clearConflict_setWireEntry ha,
        show clearConflict { a with toWire := true } ∘ offWire pre true u true extraCheck =
          offWire (pre ++ [a]) true u true extraCheck from funext fun _ => clearConflict_offWire ha]
      simp [hentry]
    · -- otherwise nothing but `a` changes
      simp only [Bool.not_eq_true] at hdup
      have hoff : ∀ sel, offWire sel toWire u checkDups extraCheck = id :=
        fun _ => funext fun _ => offWire_of_not hdup
      rw [if_neg (by simp [hdup])]
      simp [hoff, setWireEntry, ha]

theorem setWireLoop_map : ∀ (post pre : RankedRrArray),
    setWireLoop toWire u checkDups extraCheck
        (pre.map (setWireEntry pre toWire u checkDups extraCheck) ++
          post.map (offWire pre toWire u checkDups extraCheck)) pre.length post.length =
      (0, setWireMap (pre ++ post) toWire u checkDups extraCheck)
  | [], pre => by simp [setWireLoop, setWireMap]
  | a :: post, pre => by
    have ih := setWireLoop_map post (pre ++ [a])
    rw [List.length_append, List.length_singleton] at ih
    rw [List.length_cons, setWireLoop_step, ih]
    simp

end Loop

/-- `kr_ranked_rrarray_set_wire` returns 0 and leaves each entry as `setWireEntry` makes it: a
selected entry takes the flag, and with the flag on and duplicates checked another query's entry on
the wire leaves it exactly when it forms the same RRset as a selected entry; every other entry is
kept. -/
theorem krRankedRrarraySetWire_eq_map (array : RankedRrArray) (toWire : Bool) (u : UInt32)
    (checkDups : Bool) (extraCheck : Option (RankedRrArrayEntry → Bool)) :
    krRankedRrarraySetWire array toWire u checkDups extraCheck =
      (0, setWireMap array toWire u checkDups extraCheck) := by
  have h := @setWireLoop_map toWire checkDups u extraCheck array []
  have hid : offWire [] toWire u checkDups extraCheck = id := funext fun _ => offWire_nil
  simp only [List.map_nil, List.nil_append, List.length_nil, hid, List.map_id] at h
  exact h

/-- A second `kr_ranked_rrarray_set_wire` with the same arguments changes nothing, whatever
`extraCheck` reads: the entries it selects were selected by the first and hold the flag already,
and another query's entry still on the wire conflicts with none of them. -/
theorem krRankedRrarraySetWire_idem (array : RankedRrArray) (toWire : Bool) (u : UInt32)
    (checkDups : Bool) (extraCheck : Option (RankedRrArrayEntry → Bool)) :
    krRankedRrarraySetWire (krRankedRrarraySetWire array toWire u checkDups extraCheck).2 toWire u
        checkDups extraCheck =
      krRankedRrarraySetWire array toWire u checkDups extraCheck := by
  rw [krRankedRrarraySetWire_eq_map array, krRankedRrarraySetWire_eq_map, setWireMap, setWireMap,
    List.map_map]
  exact congrArg _ (List.map_congr_left fun _ _ => setWireEntry_setWireEntry)

/-- After `kr_ranked_rrarray_set_wire` puts a query's entries on the wire checking duplicates, every
entry it selected is on the wire, and every entry on the wire that forms the same RRset as one of
them belongs to the query. -/
theorem krRankedRrarraySetWire_unique (array : RankedRrArray) (u : UInt32)
    (extraCheck : Option (RankedRrArrayEntry → Bool)) {i : Nat} {e : RankedRrArrayEntry}
    (he : array[i]? = some e) (hsel : setWireSelects u extraCheck e = true) :
    ∃ e', (krRankedRrarraySetWire array true u true extraCheck).2[i]? = some e' ∧ e'.toWire = true ∧
      ∀ (j : Nat) (ej : RankedRrArrayEntry),
        (krRankedRrarraySetWire array true u true extraCheck).2[j]? = some ej → ej.toWire = true →
          rrsetsMatch ej.rr e'.rr = true → ej.qryUid = u := by
  rw [krRankedRrarraySetWire_eq_map]
  refine ⟨{ e with toWire := true }, by simp [setWireMap, he, setWireEntry, hsel], rfl,
    fun j ej hj hw hm => ?_⟩
  simp only [setWireMap, List.getElem?_map] at hj
  obtain ⟨d, hd, rfl⟩ := Option.map_eq_some'.mp hj
  rw [rr_setWireEntry] at hm
  rw [qryUid_setWireEntry]
  by_contra hq
  have hns : setWireSelects u extraCheck d = false := by
    simp [setWireSelects, beq_eq_false_iff_ne.mpr hq]
  by_cases hc : wireConflict array u extraCheck d = true
  · -- a conflict is taken off the wire
    simp [setWireEntry, hns, offWire, hc] at hw
  · -- so `d` is on the wire with no conflict, yet the selected `e` is one
    simp only [setWireEntry, hns, offWire, hc, Bool.and_false, Bool.false_eq_true, if_false] at hw
    exact hc (by simpa [wireConflict, hq, hw] using ⟨e, List.mem_iff_getElem?.mpr ⟨i, he⟩, hsel, hm⟩)

/-- Query 1 puts its entry on the wire beside query 2's entry for the same RRset, which leaves it. -/
theorem krRankedRrarraySetWire_unique_example :
    [newEntry exampleRr 0 false 1, newEntry exampleRr 0 true 2][0]? =
        some (newEntry exampleRr 0 false 1) ∧
      setWireSelects 1 none (newEntry exampleRr 0 false 1) = true ∧
      ∃ e', (krRankedRrarraySetWire [newEntry exampleRr 0 false 1, newEntry exampleRr 0 true 2]
          true 1 true none).2[0]? = some e' ∧ e'.toWire = true ∧
        ∀ (j : Nat) (ej : RankedRrArrayEntry),
          (krRankedRrarraySetWire [newEntry exampleRr 0 false 1, newEntry exampleRr 0 true 2]
            true 1 true none).2[j]? = some ej → ej.toWire = true →
            rrsetsMatch ej.rr e'.rr = true → ej.qryUid = 1 :=
  ⟨rfl, rfl, krRankedRrarraySetWire_unique _ 1 none rfl rfl⟩

end KnotResolver
