import Mathlib.Data.UInt
import KnotResolver.Wire.Rdata

/-! The DNSSEC records and keys as `lib/dnssec.c` reads them, and `validate_rrsig_rr`, the check of
one RRSIG record against the RRset it covers, the zone and the key (RFC 4035, 5.3.1).

An RRSIG record's data is read at libknot's fixed offsets: the type covered at 0, the algorithm at
2, the labels at 3, the expiration at 8, the inception at 12, the key tag at 16 and the signer's
name from 18 on.  The key, libdnssec's `dnssec_key_t`, and the functions of libdnssec and of
`lib/dnssec/` that this source calls without defining them are parameters, gathered in
`DnssecLib`: every result below holds whatever they compute.

`validate_rrsig_rr` returns `kr_ok()` exactly when the record meets the bullets it checks
(`validateRrsigRr_eq_zero_iff`), and it has then flagged a wildcard expansion exactly when the
record has fewer labels than the owner (`validateRrsigRr_wildcard`). -/

namespace KnotResolver

/-! ### Packets and names -/

/-- `knot_section_t`. -/
inductive KnotSection
  | answer
  | authority
  | additional
  deriving DecidableEq, Repr

/-- `knot_pkt_t`, with the RRsets of its sections. -/
structure Packet where
  answer : List Rrset
  authority : List Rrset
  additional : List Rrset

/-- `knot_pkt_section(pkt, section_id)`: the RRsets of the section. -/
def knotPktSection (pkt : Packet) : KnotSection → List Rrset
  | .answer => pkt.answer
  | .authority => pkt.authority
  | .additional => pkt.additional

/-- `knot_dname_labels(name, NULL)`. -/
def knotDnameLabels (name : Dname) : Nat := name.length

/-- `knot_dname_is_wildcard`: the leftmost label is `*`. -/
def knotDnameIsWildcard (name : Dname) : Bool := name.head? == some [42]

/-- `knot_dname_cmp(d1, d2) == 0`: libknot orders names canonically, with ASCII letters compared
without case, so two names compare equal when their lower-case forms are equal. -/
def knotDnameCmpEq (d1 d2 : Dname) : Bool := d1.toLower == d2.toLower

theorem one_le_knotDnameLabels {name : Dname} (h : knotDnameIsWildcard name = true) :
    1 ≤ knotDnameLabels name := by
  cases name with
  | nil => simp [knotDnameIsWildcard] at h
  | cons l ls => simp [knotDnameLabels]

/-! ### Record fields -/

/-- `knot_rdataset_at(rrs, pos)`: the bytes of record `pos`. -/
def knotRdatasetAt (rrs : Rdataset) (pos : Nat) : List UInt8 := rrs.rdata.getD pos ([] : List UInt8)

/-- `wire_read_u32`: the big-endian 32-bit number at byte `off`. -/
def wireReadU32 (bytes : List UInt8) (off : Nat) : UInt32 :=
  UInt32.ofNat ((((bytes.getD off 0).toNat * 256 + (bytes.getD (off + 1) 0).toNat) * 256 +
    (bytes.getD (off + 2) 0).toNat) * 256 + (bytes.getD (off + 3) 0).toNat)

/-- `knot_rrsig_algorithm`. -/
def knotRrsigAlgorithm (r : List UInt8) : UInt8 := r.getD 2 0

/-- `knot_rrsig_labels`. -/
def knotRrsigLabels (r : List UInt8) : UInt8 := r.getD 3 0

/-- `knot_rrsig_sig_expiration`. -/
def knotRrsigSigExpiration (r : List UInt8) : UInt32 := wireReadU32 r 8

/-- `knot_rrsig_sig_inception`. -/
def knotRrsigSigInception (r : List UInt8) : UInt32 := wireReadU32 r 12

/-- `knot_rrsig_key_tag`. -/
def knotRrsigKeyTag (r : List UInt8) : UInt16 := wireReadU16 r 16

/-- `knot_rrsig_signer_name`: the name from byte 18 on.  The packet parser of libknot admits only
RRSIG data with a well-formed name there; data without one gives `none`, as a `NULL` would. -/
def knotRrsigSignerName (r : List UInt8) : Option Dname := Dname.ofWire (r.drop 18)

/-- `knot_dnskey_alg`: the algorithm of a DNSKEY record, its fourth byte. -/
def knotDnskeyAlg (r : List UInt8) : UInt8 := r.getD 3 0

/-- `wire_read_u16(dnskey_rdata) & mask`: whether a bit of `mask` is set in the DNSKEY flags,
the record's first two bytes. -/
def dnskeyFlags (mask : UInt16) (dnskeyRdata : List UInt8) : Bool :=
  wireReadU16 dnskeyRdata 0 &&& mask != 0

/-- `kr_dnssec_key_zsk`: the ZONE bit 0x0100 of the DNSKEY flags. -/
def krDnssecKeyZsk (dnskeyRdata : List UInt8) : Bool := dnskeyFlags 0x0100 dnskeyRdata

/-- `kr_dnssec_key_ksk`: the SEP bit 0x0001 of the DNSKEY flags. -/
def krDnssecKeyKsk (dnskeyRdata : List UInt8) : Bool := dnskeyFlags 0x0001 dnskeyRdata

/-- `kr_dnssec_key_revoked`: the REVOKE bit 0x0080 of the DNSKEY flags. -/
def krDnssecKeyRevoked (dnskeyRdata : List UInt8) : Bool := dnskeyFlags 0x0080 dnskeyRdata

/-! ### Keys -/

/-- The functions that the validation calls and this source does not define: libdnssec's keys,
and the signature and denial checks of `lib/dnssec/signature.c`, `nsec.c` and `nsec3.c`.  A
function that returns a libdnssec error code gives `none` for any code but `DNSSEC_EOK`. -/
structure DnssecLib (Key : Type) where
  /-- `dnssec_key_new`: a new key, `none` when it cannot be allocated. -/
  keyNew : Option Key
  /-- `dnssec_key_set_rdata(key, rdata)`. -/
  keySetRdata : Key → List UInt8 → Option Key
  /-- `dnssec_key_set_dname(key, dname)`. -/
  keySetDname : Key → Dname → Option Key
  /-- `dnssec_key_get_keytag(key)`. -/
  keyGetKeytag : Key → UInt16
  /-- `kr_check_signature(rrsigs, pos, key, covered, trim_labels)`. -/
  checkSignature : Rrset → Nat → Key → Rrset → Int → Int
  /-- `kr_nsec_wildcard_answer_response_check(pkt, KNOT_AUTHORITY, sname)`. -/
  nsecWildcardAnswerResponseCheck : Packet → Dname → Int
  /-- `kr_nsec3_wildcard_answer_response_check(pkt, KNOT_AUTHORITY, sname, trim_to_next)`. -/
  nsec3WildcardAnswerResponseCheck : Packet → Dname → Int → Int
  /-- `kr_authenticate_referral(ref, key)`. -/
  authenticateReferral : Rrset → Key → Int

variable {Key : Type}

/-- `kr_dnssec_key_from_rdata(&key, kown, rdata, rdlen)`: the key, or the error code. -/
def krDnssecKeyFromRdata (lib : DnssecLib Key) (kown : Option Dname) (rdata : List UInt8) :
    Except Int Key :=
  if rdata.length = 0 then .error (krError EINVAL)
  else match lib.keyNew with
    | none => .error (krError ENOMEM)
    | some newKey =>
      match lib.keySetRdata newKey rdata with
      | none => .error (krError ENOMEM)
      | some newKey =>
        match kown with
        | none => .ok newKey
        | some kown =>
          match lib.keySetDname newKey kown with
          | none => .error (krError ENOMEM)
          | some newKey => .ok newKey

/-- A key that cannot be made gives a nonzero code. -/
theorem krDnssecKeyFromRdata_error_ne_zero {lib : DnssecLib Key} {kown : Option Dname}
    {rdata : List UInt8} {ret : Int} (h : krDnssecKeyFromRdata lib kown rdata = .error ret) :
    ret ≠ 0 := by
  unfold krDnssecKeyFromRdata at h
  split at h
  · cases h; simp [EINVAL]
  · split at h
    · cases h; simp [ENOMEM]
    · split at h
      · cases h; simp [ENOMEM]
      · split at h
        · cases h
        · split at h
          · cases h; simp [ENOMEM]
          · cases h

/-! ### `validate_rrsig_rr` -/

/-- `validate_rrsig_rr(&flags, covered, rrsigs, sig_pos, keys, key_pos, key, zone_name,
timestamp)`: the return code, and whether it set `FLG_WILDCARD_EXPANSION` in `flags`, which the
caller clears before each call. -/
def validateRrsigRr (lib : DnssecLib Key) (covered rrsigs : Rrset) (sigPos : Nat) (keys : Rrset)
    (keyPos : Nat) (key : Key) (zoneName : Dname) (timestamp : UInt32) : Int × Bool :=
  let sig := knotRdatasetAt rrsigs.rrs sigPos
  -- bullet 1
  if covered.rclass ≠ rrsigs.rclass ∨ !knotDnameIsEqual covered.owner rrsigs.owner then
    (krError EINVAL, false)
  else
    -- bullet 2
    match knotRrsigSignerName sig with
    | none => (krError EINVAL, false)
    | some signerName =>
      if !knotDnameCmpEq signerName zoneName then (krError EINVAL, false)
      -- bullet 3
      else if knotRrsigTypeCovered sig ≠ covered.type then (krError EINVAL, false)
      else
        -- bullet 4
        let rrsigLabels : Int := (knotRrsigLabels sig).toNat
        let dnameLabels : Int :=
          knotDnameLabels covered.owner - if knotDnameIsWildcard covered.owner then 1 else 0
        if rrsigLabels > dnameLabels then (krError EINVAL, false)
        else
          let flags := decide (rrsigLabels < dnameLabels)
          -- bullets 5 and 6
          if knotRrsigSigExpiration sig < timestamp then (krError EINVAL, flags)
          else if knotRrsigSigInception sig > timestamp then (krError EINVAL, flags)
          -- bullet 7
          else if !knotDnameCmpEq keys.owner signerName ∨
              knotDnskeyAlg (knotRdatasetAt keys.rrs keyPos) ≠ knotRrsigAlgorithm sig ∨
              lib.keyGetKeytag key ≠ knotRrsigKeyTag sig then (krError EINVAL, flags)
          else (0, flags)

/-- `wildcard_radix_len_diff(expanded, rrsigs, sig_pos)`: the labels a wildcard expansion
added. -/
def wildcardRadixLenDiff (expanded : Dname) (rrsigs : Rrset) (sigPos : Nat) : Int :=
  knotDnameLabels expanded - (knotRrsigLabels (knotRdatasetAt rrsigs.rrs sigPos)).toNat

/-- The labels of an owner name that its signature covers: an asterisk label does not count
(RFC 4034, 3.1.3). -/
def signedLabels (owner : Dname) : Nat :=
  knotDnameLabels owner - if knotDnameIsWildcard owner then 1 else 0

theorem signedLabels_cast (owner : Dname) :
    (signedLabels owner : Int) =
      knotDnameLabels owner - if knotDnameIsWildcard owner then 1 else 0 := by
  unfold signedLabels
  split
  · have := one_le_knotDnameLabels ‹_›
    omega
  · simp

theorem signedLabels_le (owner : Dname) : signedLabels owner ≤ knotDnameLabels owner :=
  Nat.sub_le _ _

/-- The bullets of RFC 4035, 5.3.1 that `validate_rrsig_rr` checks, for record `sigPos` of
`rrsigs`: owner and class, signer, type covered, labels, validity period, and the key. -/
def RrsigRecordValid (lib : DnssecLib Key) (covered rrsigs : Rrset) (sigPos : Nat) (keys : Rrset)
    (keyPos : Nat) (key : Key) (zoneName : Dname) (timestamp : UInt32) : Prop :=
  let sig := knotRdatasetAt rrsigs.rrs sigPos
  covered.rclass = rrsigs.rclass ∧ covered.owner = rrsigs.owner ∧
    (∃ signer, knotRrsigSignerName sig = some signer ∧ signer.toLower = zoneName.toLower ∧
      keys.owner.toLower = signer.toLower) ∧
    knotRrsigTypeCovered sig = covered.type ∧
    (knotRrsigLabels sig).toNat ≤ signedLabels covered.owner ∧
    timestamp ≤ knotRrsigSigExpiration sig ∧ knotRrsigSigInception sig ≤ timestamp ∧
    knotDnskeyAlg (knotRdatasetAt keys.rrs keyPos) = knotRrsigAlgorithm sig ∧
    lib.keyGetKeytag key = knotRrsigKeyTag sig

section Validate

/-- A check of `validate_rrsig_rr` that fails returns `kr_error(EINVAL)`, never 0. -/
theorem fst_ite_einval_eq_zero {c : Prop} [Decidable c] {b : Bool} {p : Int × Bool} :
    (if c then (krError EINVAL, b) else p).1 = 0 ↔ ¬c ∧ p.1 = 0 := by
  split_ifs <;> simp [*, EINVAL]

variable {lib : DnssecLib Key} {covered rrsigs keys : Rrset} {sigPos keyPos : Nat} {key : Key}
  {zoneName : Dname} {timestamp : UInt32}

/-- `validate_rrsig_rr` accepts a record exactly when it meets the bullets. -/
theorem validateRrsigRr_eq_zero_iff :
    (validateRrsigRr lib covered rrsigs sigPos keys keyPos key zoneName timestamp).1 = 0 ↔
      RrsigRecordValid lib covered rrsigs sigPos keys keyPos key zoneName timestamp := by
  unfold validateRrsigRr RrsigRecordValid
  cases hs : knotRrsigSignerName (knotRdatasetAt rrsigs.rrs sigPos) with
  | none => simp only [hs]; split <;> simp [EINVAL]
  | some signer =>
    simp only [hs, knotDnameIsEqual, knotDnameCmpEq, beq_iff_eq, Bool.not_eq_true',
      beq_eq_false_iff_ne, ← signedLabels_cast, fst_ite_einval_eq_zero, not_or, ne_eq, not_not,
      gt_iff_lt, not_lt, UInt32.not_lt, Int.ofNat_le, and_true, Option.some.injEq, exists_eq_left']
    exact ⟨fun ⟨⟨a, b⟩, c, d, e, f, g, h, i, j⟩ => ⟨a, b, ⟨c, h⟩, d, e, f, g, i, j⟩,
      fun ⟨a, b, ⟨c, h⟩, d, e, f, g, i, j⟩ => ⟨⟨a, b⟩, c, d, e, f, g, h, i, j⟩⟩

/-- An accepted record has flagged a wildcard expansion exactly when it has fewer labels than the
owner, past an asterisk. -/
theorem validateRrsigRr_wildcard
    (h : (validateRrsigRr lib covered rrsigs sigPos keys keyPos key zoneName timestamp).1 = 0) :
    (validateRrsigRr lib covered rrsigs sigPos keys keyPos key zoneName timestamp).2 =
      decide ((knotRrsigLabels (knotRdatasetAt rrsigs.rrs sigPos)).toNat <
        signedLabels covered.owner) := by
  unfold validateRrsigRr at h ⊢
  cases hs : knotRrsigSignerName (knotRdatasetAt rrsigs.rrs sigPos) with
  | none => simp only [hs] at h; split at h <;> simp [EINVAL] at h
  | some signer =>
    simp only [hs, knotDnameIsEqual, knotDnameCmpEq, beq_iff_eq, Bool.not_eq_true',
      beq_eq_false_iff_ne, ← signedLabels_cast, fst_ite_einval_eq_zero] at h ⊢
    obtain ⟨h1, h2, h3, h4, h5, h6, h7, -⟩ := h
    simp only [if_neg h1, if_neg h2, if_neg h3, if_neg h4, if_neg h5, if_neg h6, if_neg h7]
    simp only [Int.ofNat_lt]

/-- `validate_rrsig_rr` reads of the key set only its owner and the record at `key_pos`. -/
theorem validateRrsigRr_congr {keys' : Rrset} {keyPos' : Nat} (howner : keys'.owner = keys.owner)
    (hat : knotRdatasetAt keys'.rrs keyPos' = knotRdatasetAt keys.rrs keyPos) :
    validateRrsigRr lib covered rrsigs sigPos keys' keyPos' key zoneName timestamp =
      validateRrsigRr lib covered rrsigs sigPos keys keyPos key zoneName timestamp := by
  simp only [validateRrsigRr, howner, hat]

end Validate

end KnotResolver
