import KnotResolver.Dnssec.Rrsig

/-! The key helpers of `lib/dnssec.c`: `kr_dnssec_key_tag`, the tag of a DS or DNSKEY record,
and `kr_dnssec_key_match`, whether two DNSKEY records hold the same key.

`kr_dnssec_key_match` accepts exactly two records that make keys of one algorithm and one public
key, whatever their order (`krDnssecKeyMatch_eq_zero_iff`, `krDnssecKeyMatch_comm`). -/

namespace KnotResolver

/-- `KNOT_RRTYPE_DS`. -/
def KNOT_RRTYPE_DS : UInt16 := 43

/-- `KNOT_RRTYPE_DNSKEY`. -/
def KNOT_RRTYPE_DNSKEY : UInt16 := 48

variable {Key : Type}

/-- `kr_dnssec_key_tag(rrtype, rdata, rdlen)`: for DS the tag stored in its first two bytes, for
DNSKEY the tag libdnssec computes of the key the record makes. -/
def krDnssecKeyTag (lib : DnssecLib Key) (rrtype : UInt16) (rdata : List UInt8) : Int :=
  if rdata.length = 0 ∨ (rrtype ≠ KNOT_RRTYPE_DS ∧ rrtype ≠ KNOT_RRTYPE_DNSKEY) then
    krError EINVAL
  else if rrtype = KNOT_RRTYPE_DS then (wireReadU16 rdata 0).toNat
  else if rrtype = KNOT_RRTYPE_DNSKEY then
    match krDnssecKeyFromRdata lib none rdata with
    | .error ret => ret
    | .ok key => (lib.keyGetKeytag key).toNat
  else krError EINVAL

/-- The libdnssec accessors `kr_dnssec_key_match` reads of a key: `dnssec_key_get_algorithm`,
and `dnssec_key_get_pubkey`, `none` where it does not return `DNSSEC_EOK`. -/
structure DnssecKeyView (Key : Type) where
  getAlgorithm : Key → UInt8
  getPubkey : Key → Option (List UInt8)

/-- `kr_dnssec_key_match(key_a_rdata, key_a_rdlen, key_b_rdata, key_b_rdlen)`: 0 when the two
records make keys of one algorithm whose public keys have one size and the same bytes
(`memcmp`), `kr_error(ENOENT)` when they do not, and the first key's error, then the second's,
when a key cannot be made. -/
def krDnssecKeyMatch (lib : DnssecLib Key) (view : DnssecKeyView Key) (keyA keyB : List UInt8) :
    Int :=
  match krDnssecKeyFromRdata lib none keyA with
  | .error ret => ret
  | .ok a =>
    match krDnssecKeyFromRdata lib none keyB with
    | .error ret => ret
    | .ok b =>
      if view.getAlgorithm a = view.getAlgorithm b then
        match view.getPubkey a, view.getPubkey b with
        | some pkA, some pkB =>
          if pkA.length = pkB.length ∧ pkA.take pkA.length = pkB.take pkA.length then 0
          else krError ENOENT
        | _, _ => krError ENOENT
      else krError ENOENT

section Match

variable {lib : DnssecLib Key} {view : DnssecKeyView Key} {keyA keyB : List UInt8}

/-- `memcmp` over the common size of two byte strings of one size is their equality. -/
theorem take_length_eq_iff {a b : List UInt8} :
    (a.length = b.length ∧ a.take a.length = b.take a.length) ↔ a = b := by
  constructor
  · rintro ⟨hl, ht⟩
    rwa [List.take_length, hl, List.take_length] at ht
  · rintro rfl
    exact ⟨rfl, rfl⟩

/-- `kr_dnssec_key_match` returns 0 exactly for two records that make keys of one algorithm and
one public key. -/
theorem krDnssecKeyMatch_eq_zero_iff :
    krDnssecKeyMatch lib view keyA keyB = 0 ↔
      ∃ a b pk, krDnssecKeyFromRdata lib none keyA = .ok a ∧
        krDnssecKeyFromRdata lib none keyB = .ok b ∧
        view.getAlgorithm a = view.getAlgorithm b ∧
        view.getPubkey a = some pk ∧ view.getPubkey b = some pk := by
  have henoent : krError ENOENT ≠ 0 := by decide
  unfold krDnssecKeyMatch
  split
  · rename_i ret hret
    simp [hret, krDnssecKeyFromRdata_error_ne_zero hret]
  · rename_i a ha
    split
    · rename_i ret hret
      simp [hret, krDnssecKeyFromRdata_error_ne_zero hret]
    · rename_i b hb
      simp only [ha, hb, Except.ok.injEq, exists_and_left, exists_eq_left']
      split_ifs with halg
      · split
        · rename_i pkA pkB hpa hpb
          simp only [take_length_eq_iff]
          split_ifs with hpk
          · exact iff_of_true rfl ⟨halg, pkA, hpa, hpk ▸ hpb⟩
          · refine iff_of_false henoent ?_
            rintro ⟨-, pk, h1, h2⟩
            exact hpk ((Option.some.inj (hpa.symm.trans h1)).trans
              (Option.some.inj (hpb.symm.trans h2)).symm)
        · rename_i hnot
          refine iff_of_false henoent ?_
          rintro ⟨-, pk, h1, h2⟩
          exact hnot pk pk h1 h2
      · exact iff_of_false henoent fun h => halg h.1

/-- Whether two records hold the same key does not depend on their order. -/
theorem krDnssecKeyMatch_comm :
    krDnssecKeyMatch lib view keyA keyB = 0 ↔ krDnssecKeyMatch lib view keyB keyA = 0 := by
  simp only [krDnssecKeyMatch_eq_zero_iff]
  constructor <;>
  · rintro ⟨a, b, pk, ha, hb, halg, hpa, hpb⟩
    exact ⟨b, a, pk, hb, ha, halg.symm, hpb, hpa⟩

end Match

end KnotResolver
