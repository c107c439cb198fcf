import KnotResolver.Dnssec.Rrsig

/-! `kr_rrset_validate_with_key`, `kr_rrset_validate` and `kr_dnskeys_trusted` of
`lib/dnssec.c`.

`kr_rrset_validate_with_key` tries every record of every RRSIG RRset of a section, in two nested
loops that thread one `ret` through `continue` and `break`: a record that passes
`validate_rrsig_rr` and the signature check, but whose wildcard proof fails, leaves that proof's
code in `ret`, and the loops stop at the first record that passes everything.  The body of the
inner loop is said once (`recordStep_cases`): it accepts exactly the records of
`SignatureAccepted`, and otherwise goes on with a nonzero `ret`; its `break` on a negative trim
is never taken.  So the function returns `kr_ok()` exactly when some record is accepted
(`krRrsetValidateWithKey_eq_zero_iff`), and `kr_dnskeys_trusted` exactly when one key, at one
index, is a zone key, not revoked, made from its data, anchored, and validates the DNSKEY set
(`krDnskeysTrusted_eq_zero_iff`). -/

namespace KnotResolver

variable {Key : Type}

/-- What record `j` of `rrsig` must meet: (1) the bullets of `validate_rrsig_rr`; (2) the
signature check, with the labels a wildcard expansion added trimmed from the owner; (3) after an
expansion, the proof over the authority section that the answer is not a closer name, by NSEC3
when the zone has it and by NSEC otherwise. -/
def SignatureAccepted (lib : DnssecLib Key) (pkt : Packet) (covered rrsig : Rrset) (j : Nat)
    (keys : Rrset) (keyPos : Nat) (key : Key) (zoneName : Dname) (timestamp : UInt32)
    (hasNsec3 : Bool) : Prop :=
  let labels := (knotRrsigLabels (knotRdatasetAt rrsig.rrs j)).toNat
  let expanded := labels < signedLabels covered.owner
  let trim : Int := if expanded then (knotDnameLabels covered.owner : Int) - labels else 0
  RrsigRecordValid lib covered rrsig j keys keyPos key zoneName timestamp ∧
    lib.checkSignature rrsig j key covered trim = 0 ∧
    (expanded →
      (if hasNsec3 then lib.nsec3WildcardAnswerResponseCheck pkt covered.owner (trim - 1)
        else lib.nsecWildcardAnswerResponseCheck pkt covered.owner) = 0)

/-- The arguments of `kr_rrset_validate_with_key` that its loops read, the key made. -/
structure ValidationCall (Key : Type) where
  lib : DnssecLib Key
  pkt : Packet
  covered : Rrset
  keys : Rrset
  keyPos : Nat
  key : Key
  zoneName : Dname
  timestamp : UInt32
  hasNsec3 : Bool

namespace ValidationCall

/-- The body of the inner loop at record `j` of `rrsig`, `ret` as the loop has it: `.yield` goes
on to the next record (`continue`), `.done` leaves the loop (`break`). -/
def recordStep (c : ValidationCall Key) (rrsig : Rrset) (j : Nat) (ret : Int) : ForInStep Int :=
  let val := validateRrsigRr c.lib c.covered rrsig j c.keys c.keyPos c.key c.zoneName c.timestamp
  if val.1 ≠ 0 then .yield ret
  else
    let trimLabels := if val.2 then wildcardRadixLenDiff c.covered.owner rrsig j else 0
    if val.2 ∧ trimLabels < 0 then .done ret
    else if c.lib.checkSignature rrsig j c.key c.covered trimLabels ≠ 0 then .yield ret
    else if val.2 then
      let ret := if !c.hasNsec3 then c.lib.nsecWildcardAnswerResponseCheck c.pkt c.covered.owner
        else c.lib.nsec3WildcardAnswerResponseCheck c.pkt c.covered.owner (trimLabels - 1)
      if ret ≠ 0 then .yield ret else .done 0
    else .done 0

/-- `for (uint16_t j = 0; j < rrsig->rrs.rr_count; ++j)`, from record `j` with `n` left. -/
def recordLoop (c : ValidationCall Key) (rrsig : Rrset) : Nat → Nat → Int → Int
  | _, 0, ret => ret
  | j, n + 1, ret =>
    match c.recordStep rrsig j ret with
    | .done ret => ret
    | .yield ret => c.recordLoop rrsig (j + 1) n ret

/-- `for (unsigned i = 0; i < sec->count; ++i)`: the RRSIG RRsets of the section, until one
validates. -/
def sectionLoop (c : ValidationCall Key) : List Rrset → Int → Int
  | [], ret => ret
  | rrsig :: rest, ret =>
    if rrsig.type ≠ KNOT_RRTYPE_RRSIG then c.sectionLoop rest ret
    else
      let ret := c.recordLoop rrsig 0 rrsig.rrs.rdata.length ret
      if ret = 0 then ret else c.sectionLoop rest ret

/-- `SignatureAccepted` for the call's arguments. -/
def Accepted (c : ValidationCall Key) (rrsig : Rrset) (j : Nat) : Prop :=
  SignatureAccepted c.lib c.pkt c.covered rrsig j c.keys c.keyPos c.key c.zoneName c.timestamp
    c.hasNsec3

/-- A record that passes `validate_rrsig_rr` with an expansion has a positive trim. -/
theorem wildcardRadixLenDiff_pos {owner : Dname} {rrsig : Rrset} {j : Nat}
    (h : (knotRrsigLabels (knotRdatasetAt rrsig.rrs j)).toNat < signedLabels owner) :
    0 < wildcardRadixLenDiff owner rrsig j := by
  have := signedLabels_le owner
  unfold wildcardRadixLenDiff
  omega

/-- The inner loop's body accepts exactly the records of `SignatureAccepted`; on any other
record it goes on with a nonzero `ret`. -/
theorem recordStep_cases (c : ValidationCall Key) (rrsig : Rrset) (j : Nat) {ret : Int}
    (hret : ret ≠ 0) :
    (c.Accepted rrsig j ∧ c.recordStep rrsig j ret = .done 0) ∨
      (¬c.Accepted rrsig j ∧ ∃ ret', ret' ≠ 0 ∧ c.recordStep rrsig j ret = .yield ret') := by
  unfold Accepted SignatureAccepted recordStep
  simp only []
  by_cases hv : (validateRrsigRr c.lib c.covered rrsig j c.keys c.keyPos c.key c.zoneName
      c.timestamp).1 = 0
  · have hvalid := validateRrsigRr_eq_zero_iff.mp hv
    rw [validateRrsigRr_wildcard hv]
    simp only [hv, ne_eq, not_true_eq_false, if_false, hvalid, true_and, decide_eq_true_eq]
    by_cases hexp : (knotRrsigLabels (knotRdatasetAt rrsig.rrs j)).toNat <
        signedLabels c.covered.owner
    · have hpos := wildcardRadixLenDiff_pos hexp
      unfold wildcardRadixLenDiff at hpos
      simp only [hexp, if_true, true_and, true_implies, wildcardRadixLenDiff,
        not_lt.mpr hpos.le, and_false, if_false]
      split_ifs <;> simp_all <;> refine ⟨_, ?_, rfl⟩ <;> assumption
    · simp only [hexp, if_false, false_and, false_implies, and_true]
      split_ifs <;> simp_all
      refine ⟨_, ?_, rfl⟩
      assumption
  · exact .inr ⟨fun h => hv (validateRrsigRr_eq_zero_iff.mpr h.1), ret, hret, by simp [hv]⟩

/-- From a nonzero `ret`, the inner loop ends in `kr_ok()` exactly when one of its records is
accepted. -/
theorem recordLoop_eq_zero_iff (c : ValidationCall Key) (rrsig : Rrset) :
    ∀ (n j : Nat) {ret : Int}, ret ≠ 0 →
      (c.recordLoop rrsig j n ret = 0 ↔ ∃ k, j ≤ k ∧ k < j + n ∧ c.Accepted rrsig k)
  | 0, j, ret, hret => by
    simp only [recordLoop, hret, false_iff, not_exists, not_and]
    omega
  | n + 1, j, ret, hret => by
    rcases c.recordStep_cases rrsig j hret with ⟨hacc, hstep⟩ | ⟨hnacc, ret', hret', hstep⟩
    · simp only [recordLoop, hstep, true_iff]
      exact ⟨j, le_rfl, by omega, hacc⟩
    · simp only [recordLoop, hstep]
      rw [recordLoop_eq_zero_iff c rrsig n (j + 1) hret']
      constructor
      · rintro ⟨k, h1, h2, hk⟩
        exact ⟨k, by omega, by omega, hk⟩
      · rintro ⟨k, h1, h2, hk⟩
        rcases Nat.eq_or_lt_of_le h1 with rfl | h1
        · exact absurd hk hnacc
        · exact ⟨k, h1, by omega, hk⟩

/-- From a nonzero `ret`, the outer loop ends in `kr_ok()` exactly when some RRSIG RRset of the
list has an accepted record. -/
theorem sectionLoop_eq_zero_iff (c : ValidationCall Key) :
    ∀ (l : List Rrset) {ret : Int}, ret ≠ 0 →
      (c.sectionLoop l ret = 0 ↔ ∃ rrsig ∈ l, rrsig.type = KNOT_RRTYPE_RRSIG ∧
        ∃ j < rrsig.rrs.rdata.length, c.Accepted rrsig j)
  | [], ret, hret => by simp [sectionLoop, hret]
  | rrsig :: rest, ret, hret => by
    have hrec := c.recordLoop_eq_zero_iff rrsig rrsig.rrs.rdata.length 0 hret
    simp only [Nat.zero_le, zero_add, true_and] at hrec
    simp only [sectionLoop, List.mem_cons, exists_eq_or_imp]
    by_cases ht : rrsig.type = KNOT_RRTYPE_RRSIG
    · simp only [ht, ne_eq, not_true_eq_false, if_false, true_and]
      split
      · exact iff_of_true ‹_› (.inl (hrec.mp ‹_›))
      · rw [sectionLoop_eq_zero_iff c rest ‹_›, or_iff_right (mt hrec.mpr ‹_›)]
    · simp only [ht, ne_eq, not_false_eq_true, if_true, false_and, false_or]
      exact sectionLoop_eq_zero_iff c rest hret

/-- Two calls whose inner-loop bodies agree run the same loops. -/
theorem recordLoop_congr {c c' : ValidationCall Key} (h : c.recordStep = c'.recordStep)
    (rrsig : Rrset) : ∀ j n ret, c.recordLoop rrsig j n ret = c'.recordLoop rrsig j n ret
  | _, 0, _ => rfl
  | j, n + 1, ret => by
    simp only [recordLoop, h]
    cases c'.recordStep rrsig j ret with
    | done r => rfl
    | yield r => exact recordLoop_congr h rrsig (j + 1) n r

theorem sectionLoop_congr {c c' : ValidationCall Key} (h : c.recordStep = c'.recordStep) :
    ∀ l ret, c.sectionLoop l ret = c'.sectionLoop l ret
  | [], _ => rfl
  | rrsig :: rest, ret => by
    simp only [sectionLoop, recordLoop_congr h, sectionLoop_congr h rest]

end ValidationCall

/-- `kr_rrset_validate_with_key(pkt, section_id, covered, keys, key_pos, key, zone_name,
timestamp, has_nsec3)`; `key = none` is the `NULL` key, made from record `key_pos` of `keys`. -/
def krRrsetValidateWithKey (lib : DnssecLib Key) (pkt : Packet) (sectionId : KnotSection)
    (covered keys : Rrset) (keyPos : Nat) (key : Option Key) (zoneName : Dname)
    (timestamp : UInt32) (hasNsec3 : Bool) : Int :=
  let key : Except Int Key := match key with
    | some key => .ok key
    | none => krDnssecKeyFromRdata lib (some keys.owner) (knotRdatasetAt keys.rrs keyPos)
  match key with
  | .error ret => ret
  | .ok key =>
    (ValidationCall.mk lib pkt covered keys keyPos key zoneName timestamp hasNsec3).sectionLoop
      (knotPktSection pkt sectionId) (krError ENOENT)

/-- `kr_rrset_validate_with_key` returns `kr_ok()` exactly when the key can be made and some
record of an RRSIG RRset of the section meets the bullets of `validate_rrsig_rr`, the signature
check with its trim, and after a wildcard expansion the denial check. -/
theorem krRrsetValidateWithKey_eq_zero_iff (lib : DnssecLib Key) (pkt : Packet)
    (sectionId : KnotSection) (covered keys : Rrset) (keyPos : Nat) (key : Option Key)
    (zoneName : Dname) (timestamp : UInt32) (hasNsec3 : Bool) :
    krRrsetValidateWithKey lib pkt sectionId covered keys keyPos key zoneName timestamp hasNsec3 = 0 ↔
      ∃ k, (key = some k ∨
          key = none ∧ krDnssecKeyFromRdata lib (some keys.owner) (knotRdatasetAt keys.rrs keyPos) = .ok k) ∧
        ∃ rrsig ∈ knotPktSection pkt sectionId, rrsig.type = KNOT_RRTYPE_RRSIG ∧
          ∃ j < rrsig.rrs.rdata.length,
            SignatureAccepted lib pkt covered rrsig j keys keyPos k zoneName timestamp hasNsec3 := by
  have hloop := fun k : Key =>
    (ValidationCall.mk lib pkt covered keys keyPos k zoneName timestamp hasNsec3).sectionLoop_eq_zero_iff
      (knotPktSection pkt sectionId) (show krError ENOENT ≠ 0 by simp [ENOENT])
  cases key with
  | some k =>
    simp only [krRrsetValidateWithKey, hloop]
    exact ⟨fun h => ⟨k, by simp, h⟩, fun ⟨k', hk, h⟩ => by
      rcases hk with hk | ⟨hk, -⟩ <;> cases hk
      exact h⟩
  | none =>
    cases hmk : krDnssecKeyFromRdata lib (some keys.owner) (knotRdatasetAt keys.rrs keyPos) with
    | error ret =>
      simp only [krRrsetValidateWithKey, hmk, krDnssecKeyFromRdata_error_ne_zero hmk, false_iff]
      rintro ⟨k, hk | ⟨-, hk⟩, -⟩ <;> cases hk
    | ok k =>
      simp only [krRrsetValidateWithKey, hmk, hloop]
      exact ⟨fun h => ⟨k, by simp, h⟩, fun ⟨k', hk, h⟩ => by
        rcases hk with hk | ⟨-, hk⟩ <;> cases hk
        exact h⟩

/-- The loop of `kr_rrset_validate` from key `i`, `n` keys left. -/
def krRrsetValidateLoop (lib : DnssecLib Key) (pkt : Packet) (sectionId : KnotSection)
    (covered keys : Rrset) (zoneName : Dname) (timestamp : UInt32) (hasNsec3 : Bool) :
    Nat → Nat → Int
  | _, 0 => krError ENOENT
  | i, n + 1 =>
    let ret := krRrsetValidateWithKey lib pkt sectionId covered keys i none zoneName timestamp
      hasNsec3
    if ret = 0 then ret
    else krRrsetValidateLoop lib pkt sectionId covered keys zoneName timestamp hasNsec3 (i + 1) n

/-- `kr_rrset_validate(pkt, section_id, covered, keys, zone_name, timestamp, has_nsec3)`: every
key of `keys` in turn, each made from its record. -/
def krRrsetValidate (lib : DnssecLib Key) (pkt : Packet) (sectionId : KnotSection)
    (covered keys : Rrset) (zoneName : Dname) (timestamp : UInt32) (hasNsec3 : Bool) : Int :=
  krRrsetValidateLoop lib pkt sectionId covered keys zoneName timestamp hasNsec3 0
    keys.rrs.rdata.length

theorem krRrsetValidateLoop_eq_zero_iff (lib : DnssecLib Key) (pkt : Packet)
    (sectionId : KnotSection) (covered keys : Rrset) (zoneName : Dname) (timestamp : UInt32)
    (hasNsec3 : Bool) : ∀ n i,
      krRrsetValidateLoop lib pkt sectionId covered keys zoneName timestamp hasNsec3 i n = 0 ↔
        ∃ k, i ≤ k ∧ k < i + n ∧
          krRrsetValidateWithKey lib pkt sectionId covered keys k none zoneName timestamp hasNsec3 = 0
  | 0, i => by
    simp only [krRrsetValidateLoop, krError_eq_zero_iff, ENOENT, false_iff, not_exists, not_and]
    omega
  | n + 1, i => by
    simp only [krRrsetValidateLoop]
    split
    · exact iff_of_true ‹_› ⟨i, le_rfl, by omega, ‹_›⟩
    · rw [krRrsetValidateLoop_eq_zero_iff lib pkt sectionId covered keys zoneName timestamp hasNsec3 n]
      constructor
      · rintro ⟨k, h1, h2, hk⟩
        exact ⟨k, by omega, by omega, hk⟩
      · rintro ⟨k, h1, h2, hk⟩
        rcases Nat.eq_or_lt_of_le h1 with rfl | h1
        · exact absurd hk ‹_›
        · exact ⟨k, h1, by omega, hk⟩

/-- `kr_rrset_validate` returns `kr_ok()` exactly when one key of the set, made from its record,
validates the RRset. -/
theorem krRrsetValidate_eq_zero_iff (lib : DnssecLib Key) (pkt : Packet)
    (sectionId : KnotSection) (covered keys : Rrset) (zoneName : Dname) (timestamp : UInt32)
    (hasNsec3 : Bool) :
    krRrsetValidate lib pkt sectionId covered keys zoneName timestamp hasNsec3 = 0 ↔
      ∃ i < keys.rrs.rdata.length,
        krRrsetValidateWithKey lib pkt sectionId covered keys i none zoneName timestamp hasNsec3 = 0 := by
  rw [krRrsetValidate, krRrsetValidateLoop_eq_zero_iff]
  simp only [Nat.zero_le, zero_add, true_and]

/-! ### More keys -/

/-- `kr_rrset_validate_with_key` reads of the key set only its owner and the record at `key_pos`. -/
theorem krRrsetValidateWithKey_congr {lib : DnssecLib Key} {pkt : Packet} {sectionId : KnotSection}
    {covered keys keys' : Rrset} {keyPos keyPos' : Nat} {key : Option Key} {zoneName : Dname}
    {timestamp : UInt32} {hasNsec3 : Bool} (howner : keys'.owner = keys.owner)
    (hat : knotRdatasetAt keys'.rrs keyPos' = knotRdatasetAt keys.rrs keyPos) :
    krRrsetValidateWithKey lib pkt sectionId covered keys' keyPos' key zoneName timestamp hasNsec3 =
      krRrsetValidateWithKey lib pkt sectionId covered keys keyPos key zoneName timestamp hasNsec3 := by
  have hstep : ∀ k : Key,
      (ValidationCall.mk lib pkt covered keys' keyPos' k zoneName timestamp hasNsec3).recordStep =
        (ValidationCall.mk lib pkt covered keys keyPos k zoneName timestamp hasNsec3).recordStep :=
    fun k => by
      funext rrsig j ret
      simp only [ValidationCall.recordStep, validateRrsigRr_congr howner hat]
  simp only [krRrsetValidateWithKey, howner, hat, ValidationCall.sectionLoop_congr (hstep _)]

/-- A key set that holds every record of `keys`, under the same owner, validates every RRset that
`keys` validates: more DNSKEY records never make `kr_rrset_validate` fail. -/
theorem krRrsetValidate_mono {lib : DnssecLib Key} {pkt : Packet} {sectionId : KnotSection}
    {covered keys keys' : Rrset} {zoneName : Dname} {timestamp : UInt32} {hasNsec3 : Bool}
    (howner : keys'.owner = keys.owner) (hsub : ∀ r ∈ keys.rrs.rdata, r ∈ keys'.rrs.rdata)
    (h : krRrsetValidate lib pkt sectionId covered keys zoneName timestamp hasNsec3 = 0) :
    krRrsetValidate lib pkt sectionId covered keys' zoneName timestamp hasNsec3 = 0 := by
  rw [krRrsetValidate, krRrsetValidateLoop_eq_zero_iff] at h ⊢
  obtain ⟨k, -, hk, hv⟩ := h
  -- the record of key `k` is in `keys'` too, at some index `k'`
  obtain ⟨k', hk', hr⟩ := List.getElem_of_mem (hsub _ (List.getElem_mem (by simpa using hk)))
  have hat : knotRdatasetAt keys'.rrs k' = knotRdatasetAt keys.rrs k := by
    simp only [knotRdatasetAt, List.getD_eq_getElem?_getD, List.getElem?_eq_getElem hk', hr,
      List.getElem?_eq_getElem (show k < keys.rrs.rdata.length by simpa using hk), Option.getD_some]
  exact ⟨k', Nat.zero_le _, by simpa using hk', (krRrsetValidateWithKey_congr howner hat).trans hv⟩

/-- A library whose keys carry no data and whose checks all pass. -/
def passingLib : DnssecLib Unit where
  keyNew := some ()
  keySetRdata _ _ := some ()
  keySetDname _ _ := some ()
  keyGetKeytag _ := 0
  checkSignature _ _ _ _ _ := 0
  nsecWildcardAnswerResponseCheck _ _ := 0
  nsec3WildcardAnswerResponseCheck _ _ _ := 0
  authenticateReferral _ _ := 0

/-- An A RRset at the root. -/
def rootA : Rrset := ⟨[], 1, 1, ⟨[[192, 0, 2, 1]], List.sorted_singleton _⟩⟩

/-- Its RRSIG by the root zone: type A, algorithm 0, no labels, valid at time 0, key tag 0. -/
def rootRrsig : Rrset :=
  ⟨[], KNOT_RRTYPE_RRSIG, 1,
    ⟨[[0, 1, 0, 0, 0, 0, 0, 0, 0, 0, 0, 0, 0, 0, 0, 0, 0, 0, 0]], List.sorted_singleton _⟩⟩

/-- The root zone's DNSKEY set (type 48): one zone key of algorithm 0. -/
def rootKeys : Rrset := ⟨[], 48, 1, ⟨[[1, 0, 3, 0]], List.sorted_singleton _⟩⟩

/-- A second key added to the root zone's set keeps the A RRset validated. -/
theorem krRrsetValidate_mono_example :
    ({ rootKeys with rrs := rootKeys.rrs.add [1, 0, 3, 8] } : Rrset).owner = rootKeys.owner ∧
      (∀ r ∈ rootKeys.rrs.rdata,
        r ∈ ({ rootKeys with rrs := rootKeys.rrs.add [1, 0, 3, 8] } : Rrset).rrs.rdata) ∧
      krRrsetValidate passingLib ⟨[rootRrsig], [], []⟩ .answer rootA rootKeys [] 0 false = 0 ∧
      krRrsetValidate passingLib ⟨[rootRrsig], [], []⟩ .answer rootA
        { rootKeys with rrs := rootKeys.rrs.add [1, 0, 3, 8] } [] 0 false = 0 :=
  ⟨rfl, fun _ hr => mem_rdataInsert.mpr (.inr hr), by decide,
    @krRrsetValidate_mono _ passingLib _ _ rootA rootKeys _ _ _ _ rfl
      (fun _ hr => mem_rdataInsert.mpr (.inr hr)) (by decide)⟩

/-! ### `kr_dnskeys_trusted` -/

/-- Key `i` of `keys` is a zone key, not revoked, made from its record, anchored by `ta`, and
validates the DNSKEY set itself. -/
def KeyTrustedAt (lib : DnssecLib Key) (pkt : Packet) (sectionId : KnotSection) (keys ta : Rrset)
    (zoneName : Dname) (timestamp : UInt32) (hasNsec3 : Bool) (i : Nat) : Prop :=
  ∃ key, wireReadU16 (knotRdatasetAt keys.rrs i) 0 &&& 0x0100 ≠ 0 ∧
    wireReadU16 (knotRdatasetAt keys.rrs i) 0 &&& 0x0080 = 0 ∧
    krDnssecKeyFromRdata lib (some keys.owner) (knotRdatasetAt keys.rrs i) = .ok key ∧
    lib.authenticateReferral ta key = 0 ∧
    krRrsetValidateWithKey lib pkt sectionId keys keys i (some key) zoneName timestamp hasNsec3 = 0

/-- The loop of `kr_dnskeys_trusted` from key `i`, `n` keys left. -/
def krDnskeysTrustedLoop (lib : DnssecLib Key) (pkt : Packet) (sectionId : KnotSection)
    (keys ta : Rrset) (zoneName : Dname) (timestamp : UInt32) (hasNsec3 : Bool) :
    Nat → Nat → Int
  | _, 0 => krError ENOENT
  | i, n + 1 =>
    let keyData := knotRdatasetAt keys.rrs i
    let next := krDnskeysTrustedLoop lib pkt sectionId keys ta zoneName timestamp hasNsec3 (i + 1) n
    if !krDnssecKeyZsk keyData || krDnssecKeyRevoked keyData then next
    else
      match krDnssecKeyFromRdata lib (some keys.owner) keyData with
      | .error _ => next
      | .ok key =>
        if lib.authenticateReferral ta key ≠ 0 then next
        else if krRrsetValidateWithKey lib pkt sectionId keys keys i (some key) zoneName timestamp
            hasNsec3 ≠ 0 then next
        else 0

/-- `kr_dnskeys_trusted(pkt, section_id, keys, ta, zone_name, timestamp, has_nsec3)`. -/
def krDnskeysTrusted (lib : DnssecLib Key) (pkt : Packet) (sectionId : KnotSection)
    (keys ta : Rrset) (zoneName : Dname) (timestamp : UInt32) (hasNsec3 : Bool) : Int :=
  krDnskeysTrustedLoop lib pkt sectionId keys ta zoneName timestamp hasNsec3 0 keys.rrs.rdata.length

/-- The loop body at key `i` returns `kr_ok()` exactly when key `i` is trusted, and goes on to the
next key otherwise. -/
theorem krDnskeysTrustedLoop_succ (lib : DnssecLib Key) (pkt : Packet) (sectionId : KnotSection)
    (keys ta : Rrset) (zoneName : Dname) (timestamp : UInt32) (hasNsec3 : Bool) (i n : Nat) :
    (KeyTrustedAt lib pkt sectionId keys ta zoneName timestamp hasNsec3 i ∧
        krDnskeysTrustedLoop lib pkt sectionId keys ta zoneName timestamp hasNsec3 i (n + 1) = 0) ∨
      (¬KeyTrustedAt lib pkt sectionId keys ta zoneName timestamp hasNsec3 i ∧
        krDnskeysTrustedLoop lib pkt sectionId keys ta zoneName timestamp hasNsec3 i (n + 1) =
          krDnskeysTrustedLoop lib pkt sectionId keys ta zoneName timestamp hasNsec3 (i + 1) n) := by
  simp only [KeyTrustedAt, krDnskeysTrustedLoop, krDnssecKeyZsk, krDnssecKeyRevoked, dnskeyFlags]
  by_cases hf : wireReadU16 (knotRdatasetAt keys.rrs i) 0 &&& 0x0100 ≠ 0 ∧
      wireReadU16 (knotRdatasetAt keys.rrs i) 0 &&& 0x0080 = 0
  · simp only [hf, ne_eq, bne_iff_ne, not_false_eq_true, Bool.not_true, Bool.false_or,
      decide_eq_true_eq, not_true_eq_false, if_false, true_and]
    cases hk : krDnssecKeyFromRdata lib (some keys.owner) (knotRdatasetAt keys.rrs i) with
    | error e => simp
    | ok key =>
      simp only [Except.ok.injEq, exists_eq_left']
      split_ifs <;> simp_all
  · right
    refine ⟨fun ⟨_, h1, h2, _⟩ => hf ⟨h1, h2⟩, ?_⟩
    rw [if_pos]
    simp only [not_and_or, not_not] at hf
    rcases hf with hf | hf <;> simp [hf]

theorem krDnskeysTrustedLoop_eq_zero_iff (lib : DnssecLib Key) (pkt : Packet)
    (sectionId : KnotSection) (keys ta : Rrset) (zoneName : Dname) (timestamp : UInt32)
    (hasNsec3 : Bool) : ∀ n i,
      krDnskeysTrustedLoop lib pkt sectionId keys ta zoneName timestamp hasNsec3 i n = 0 ↔
        ∃ k, i ≤ k ∧ k < i + n ∧ KeyTrustedAt lib pkt sectionId keys ta zoneName timestamp hasNsec3 k
  | 0, i => by
    simp only [krDnskeysTrustedLoop, krError_eq_zero_iff, ENOENT, false_iff, not_exists, not_and]
    omega
  | n + 1, i => by
    rcases krDnskeysTrustedLoop_succ lib pkt sectionId keys ta zoneName timestamp hasNsec3 i n with
      ⟨ht, h⟩ | ⟨ht, h⟩
    · exact iff_of_true h ⟨i, le_rfl, by omega, ht⟩
    · rw [h, krDnskeysTrustedLoop_eq_zero_iff lib pkt sectionId keys ta zoneName timestamp hasNsec3 n]
      constructor
      · rintro ⟨k, h1, h2, hk⟩
        exact ⟨k, by omega, by omega, hk⟩
      · rintro ⟨k, h1, h2, hk⟩
        rcases Nat.eq_or_lt_of_le h1 with rfl | h1
        · exact absurd hk ht
        · exact ⟨k, h1, by omega, hk⟩

/-- `kr_dnskeys_trusted` returns `kr_ok()` exactly when one index `i` holds a key that is a zone
key and not revoked, is made from its record, is anchored by `ta`, and validates the DNSKEY set:
the anchor match and the signature are those of the same key. -/
theorem krDnskeysTrusted_eq_zero_iff (lib : DnssecLib Key) (pkt : Packet)
    (sectionId : KnotSection) (keys ta : Rrset) (zoneName : Dname) (timestamp : UInt32)
    (hasNsec3 : Bool) :
    krDnskeysTrusted lib pkt sectionId keys ta zoneName timestamp hasNsec3 = 0 ↔
      ∃ i < keys.rrs.rdata.length, ∃ key,
        wireReadU16 (knotRdatasetAt keys.rrs i) 0 &&& 0x0100 ≠ 0 ∧
        wireReadU16 (knotRdatasetAt keys.rrs i) 0 &&& 0x0080 = 0 ∧
        krDnssecKeyFromRdata lib (some keys.owner) (knotRdatasetAt keys.rrs i) = .ok key ∧
        lib.authenticateReferral ta key = 0 ∧
        krRrsetValidateWithKey lib pkt sectionId keys keys i (some key) zoneName timestamp
          hasNsec3 = 0 := by
  rw [krDnskeysTrusted, krDnskeysTrustedLoop_eq_zero_iff]
  simp only [Nat.zero_le, zero_add, true_and, KeyTrustedAt]

end KnotResolver
