import KnotResolver.Text.CString
import KnotResolver.Wire.Rdata
import KnotResolver.Cache.Rrkey

/-! The helpers of `lib/utils.c` that read or rewrite a packet's header: `kr_pkt_make_auth_header`,
`flags_to_str`, `pkt_recycle`, `kr_pkt_recycle` and `kr_pkt_clear_payload`, over the accessors
of libknot's `packet/wire.h` as they read and write the twelve header bytes.  The accessors'
two-byte writes are also the port stores of `kr_inaddr_set_port`. -/

namespace KnotResolver

/-! ### The header accessors -/

/-- `KNOT_WIRE_HEADER_SIZE`. -/
def KNOT_WIRE_HEADER_SIZE : Nat := 12

/-- libknot's `knot_wire_set_*` of one flag: `wire[byte] |= mask`. -/
def knotWireSetFlag (byte : Nat) (mask : UInt8) (wire : List UInt8) : List UInt8 :=
  wire.set byte (wire.getD byte 0 ||| mask)

/-- libknot's `knot_wire_clear_*` of one flag: `wire[byte] &= ~mask`. -/
def knotWireClearFlag (byte : Nat) (mask : UInt8) (wire : List UInt8) : List UInt8 :=
  wire.set byte (wire.getD byte 0 &&& ~~~mask)

def knotWireSetAa (wire : List UInt8) : List UInt8 := knotWireSetFlag 2 0x04 wire
def knotWireClearAd (wire : List UInt8) : List UInt8 := knotWireClearFlag 3 0x20 wire

/-- `wire_write_u16`: `v` in big-endian order at byte `off`. -/
def wireWriteU16 (wire : List UInt8) (off : Nat) (v : UInt16) : List UInt8 :=
  overwrite wire off [UInt8.ofNat (v.toNat / 256), UInt8.ofNat v.toNat]

def knotWireGetQdcount (wire : List UInt8) : UInt16 := wireReadU16 wire 4
def knotWireGetAncount (wire : List UInt8) : UInt16 := wireReadU16 wire 6
def knotWireGetNscount (wire : List UInt8) : UInt16 := wireReadU16 wire 8
def knotWireGetArcount (wire : List UInt8) : UInt16 := wireReadU16 wire 10

def knotWireSetQdcount (wire : List UInt8) (v : UInt16) : List UInt8 := wireWriteU16 wire 4 v
def knotWireSetAncount (wire : List UInt8) (v : UInt16) : List UInt8 := wireWriteU16 wire 6 v
def knotWireSetNscount (wire : List UInt8) (v : UInt16) : List UInt8 := wireWriteU16 wire 8 v
def knotWireSetArcount (wire : List UInt8) (v : UInt16) : List UInt8 := wireWriteU16 wire 10 v

section Accessors

variable {wire : List UInt8} {byte i off : Nat} {mask : UInt8}

theorem length_wireWriteU16 (h : off + 2 ≤ wire.length) (v : UInt16) :
    (wireWriteU16 wire off v).length = wire.length :=
  length_overwrite h

/-- The two bytes written, high one first. -/
theorem getD_wireWriteU16_within {k : Nat} (h : off + 2 ≤ wire.length) (hk : k < 2) (v : UInt16) :
    (wireWriteU16 wire off v).getD (off + k) 0 =
      [UInt8.ofNat (v.toNat / 256), UInt8.ofNat v.toNat].getD k 0 := by
  have hlen : (wire.take off).length = off := by simp only [List.length_take]; omega
  rw [wireWriteU16, overwrite, List.append_assoc, List.getD_append_right _ _ _ _ (by omega), hlen,
    Nat.add_sub_cancel_left, List.getD_append _ _ _ _ (by simpa using hk)]

/-- A write of two bytes leaves every byte outside them. -/
theorem getD_wireWriteU16 (h : off + 2 ≤ wire.length) (hi : i < off ∨ off + 2 ≤ i) (v : UInt16) :
    (wireWriteU16 wire off v).getD i 0 = wire.getD i 0 := by
  rcases hi with hi | hi
  · have hlen : (wire.take off).length = off := by simp only [List.length_take]; omega
    rw [wireWriteU16, overwrite, List.append_assoc, List.getD_append _ _ _ _ (by omega),
      List.getD_eq_getElem?_getD, List.getElem?_take_of_lt hi, ← List.getD_eq_getElem?_getD]
  · exact getD_overwrite h hi

/-- A second write of the same number at the same place changes nothing. -/
theorem wireWriteU16_wireWriteU16_self (h : off + 2 ≤ wire.length) (v : UInt16) :
    wireWriteU16 (wireWriteU16 wire off v) off v = wireWriteU16 wire off v :=
  overwrite_overwrite_self h

/-- The number written is read back. -/
theorem wireReadU16_wireWriteU16 (h : off + 2 ≤ wire.length) (v : UInt16) :
    wireReadU16 (wireWriteU16 wire off v) off = v := by
  have e0 := getD_wireWriteU16_within h (by decide : 0 < 2) v
  have e1 := getD_wireWriteU16_within h (by decide : 1 < 2) v
  rw [Nat.add_zero] at e0
  have hv : v.toNat < 65536 := v.val.isLt
  rw [wireReadU16, e0, e1]
  simp only [List.getD_cons_zero, List.getD_cons_succ]
  have hx : (UInt8.ofNat (v.toNat / 256)).toNat * 256 + (UInt8.ofNat v.toNat).toNat = v.toNat := by
    show (v.toNat / 256) % 256 * 256 + v.toNat % 256 = v.toNat
    omega
  apply UInt16.toNat.inj
  rw [hx, UInt16.toNat_ofNat_of_lt (by unfold UInt16.size; omega)]

end Accessors

/-! ### `kr_pkt_make_auth_header` -/

/-- `kr_pkt_make_auth_header(pkt)`, of `pkt->wire`. -/
def krPktMakeAuthHeader (wire : List UInt8) : List UInt8 := knotWireSetAa (knotWireClearAd wire)

/-! ### `flags_to_str` -/

/-- libknot's `knot_wire_get_*` of one flag: the flag's bit of the header byte that holds it. -/
def knotWireFlag (byte : Nat) (mask : UInt8) (wire : List UInt8) : UInt8 :=
  wire.getD byte 0 &&& mask

def knotWireGetQr (wire : List UInt8) : UInt8 := knotWireFlag 2 0x80 wire
def knotWireGetAa (wire : List UInt8) : UInt8 := knotWireFlag 2 0x04 wire
def knotWireGetRd (wire : List UInt8) : UInt8 := knotWireFlag 2 0x01 wire
def knotWireGetRa (wire : List UInt8) : UInt8 := knotWireFlag 3 0x80 wire
def knotWireGetTc (wire : List UInt8) : UInt8 := knotWireFlag 2 0x02 wire
def knotWireGetAd (wire : List UInt8) : UInt8 := knotWireFlag 3 0x20 wire
def knotWireGetCd (wire : List UInt8) : UInt8 := knotWireFlag 3 0x10 wire

/-- The table of `flags_to_str`: each flag's accessor and its two-letter name. -/
def flagTable : List ((List UInt8 → UInt8) × List UInt8) :=
  [(knotWireGetQr, [113, 114]), (knotWireGetAa, [97, 97]), (knotWireGetRd, [114, 100]),
    (knotWireGetRa, [114, 97]), (knotWireGetTc, [116, 99]), (knotWireGetAd, [97, 100]),
    (knotWireGetCd, [99, 100])]

/-- A write of `bytes` at `buf + off`; `none` when it would pass the end of the buffer. -/
def bufWrite (buf : List UInt8) (off : Nat) (bytes : List UInt8) : Option (List UInt8) :=
  if off + bytes.length ≤ buf.length then some (overwrite buf off bytes) else none

/-- `snprintf(buf + off, n, "%s", text)`: the buffer after it, which holds the text cut to
`n - 1` bytes and a zero byte, or nothing written when `n` is 0; and the text's length, which
it returns. -/
def snprintf (buf : List UInt8) (off n : Nat) (text : List UInt8) : Option (List UInt8) × Int :=
  (if n = 0 then some buf else bufWrite buf off (text.take (n - 1) ++ [0]), text.length)

/-- The loop of `flags_to_str` over the table, from `dst + offset` with `maxlen` bytes left;
`none` is a write past the buffer. -/
def flagsToStrLoop (wire : List UInt8) :
    List ((List UInt8 → UInt8) × List UInt8) → List UInt8 → Nat → Nat → Option (List UInt8)
  | [], dst, offset, _ => bufWrite dst offset [0]
  | (get, name) :: flags, dst, offset, maxlen =>
    if get wire = 0 then flagsToStrLoop wire flags dst offset maxlen
    else
      match snprintf dst offset maxlen (name ++ [32]) with
      | (none, _) => none
      | (some dst, ret) =>
        if ret ≤ 0 ∨ ret ≥ maxlen then bufWrite dst 0 [0]
        else flagsToStrLoop wire flags dst (offset + ret.toNat) (maxlen - ret.toNat)

/-- `flags_to_str(dst, pkt, maxlen)`: the bytes of `dst` after it, `wire` being `pkt->wire`. -/
def flagsToStr (dst wire : List UInt8) (maxlen : Nat) : Option (List UInt8) :=
  flagsToStrLoop wire flagTable dst 0 maxlen

/-! ### `pkt_recycle` -/

/-- `knot_pkt_question_size(pkt)`: the question's name and its type and class, nothing when no
name was parsed. -/
def knotPktQuestionSize (qnameSize : Nat) : Nat := if qnameSize = 0 then 0 else qnameSize + 4

/-- What `pkt_recycle` reads of a `knot_pkt_t`: the `size` bytes of its wire, and the size of its
parsed question name (`qname_size`, 0 for none).  The question is a name's wire form and its type
and class, after the header. -/
structure KnotPkt where
  wire : List UInt8
  qnameSize : Nat
  fits : qnameSize ≤ KNOT_DNAME_MAXLEN ∧
    KNOT_WIRE_HEADER_SIZE + knotPktQuestionSize qnameSize ≤ wire.length

/-- libknot's `knot_pkt_parse_question`: its return code and the size of the question name it
parses from a wire that holds a header, a question after the header. -/
structure QuestionParser where
  parse : List UInt8 → Int × Nat
  fits : ∀ wire, KNOT_WIRE_HEADER_SIZE ≤ wire.length → (parse wire).2 ≤ KNOT_DNAME_MAXLEN ∧
    KNOT_WIRE_HEADER_SIZE + knotPktQuestionSize (parse wire).2 ≤ wire.length

/-- `base_size` of `pkt_recycle`: the header, and the question when it is kept. -/
def pktRecycleBaseSize (pkt : KnotPkt) (keepQuestion : Bool) : Nat :=
  KNOT_WIRE_HEADER_SIZE + if keepQuestion then knotPktQuestionSize pkt.qnameSize else 0

/-- The four count setters `pkt_recycle` calls, in its order. -/
def knotWireSetCounts (wire : List UInt8) (qd an ns ar : UInt16) : List UInt8 :=
  knotWireSetArcount (knotWireSetNscount (knotWireSetAncount (knotWireSetQdcount wire qd) an) ns) ar

/-- The wire `pkt_recycle` leaves: the `base_size` bytes it saved, with `qdcount` set to
`keep_question` and the other counts to 0. -/
def pktRecycleWire (pkt : KnotPkt) (keepQuestion : Bool) : List UInt8 :=
  knotWireSetCounts (pkt.wire.take (pktRecycleBaseSize pkt keepQuestion))
    (if keepQuestion then 1 else 0) 0 0 0

section Counts

variable {wire : List UInt8} (h : KNOT_WIRE_HEADER_SIZE ≤ wire.length) (qd an ns ar : UInt16)
include h

/-- The count setters change no length. -/
theorem length_knotWireSetCounts : (knotWireSetCounts wire qd an ns ar).length = wire.length := by
  unfold KNOT_WIRE_HEADER_SIZE at h
  have l1 : (knotWireSetQdcount wire qd).length = wire.length := length_wireWriteU16 (by omega) _
  have l2 : (knotWireSetAncount (knotWireSetQdcount wire qd) an).length = wire.length :=
    (length_wireWriteU16 (by omega) _).trans l1
  have l3 : (knotWireSetNscount (knotWireSetAncount (knotWireSetQdcount wire qd) an) ns).length =
      wire.length := (length_wireWriteU16 (by omega) _).trans l2
  exact (length_wireWriteU16 (by omega) _).trans l3

end Counts

section Recycle

variable (pkt : KnotPkt) (keepQuestion : Bool)

theorem pktRecycleBaseSize_le_length : pktRecycleBaseSize pkt keepQuestion ≤ pkt.wire.length := by
  have := pkt.fits.2
  unfold pktRecycleBaseSize
  split_ifs <;> omega

theorem header_le_take_pktRecycleBaseSize :
    KNOT_WIRE_HEADER_SIZE ≤ (pkt.wire.take (pktRecycleBaseSize pkt keepQuestion)).length := by
  have := pktRecycleBaseSize_le_length pkt keepQuestion
  rw [List.length_take, Nat.min_eq_left this]
  exact Nat.le_add_right _ _

theorem length_pktRecycleWire :
    (pktRecycleWire pkt keepQuestion).length = pktRecycleBaseSize pkt keepQuestion := by
  rw [pktRecycleWire, length_knotWireSetCounts (header_le_take_pktRecycleBaseSize pkt keepQuestion),
    List.length_take, Nat.min_eq_left (pktRecycleBaseSize_le_length pkt keepQuestion)]

end Recycle

/-- `pkt_recycle(pkt, keep_question)`: the return code of `knot_pkt_parse_question`, and the
packet with the wire left and the question parsed again from it. -/
def pktRecycle (parser : QuestionParser) (pkt : KnotPkt) (keepQuestion : Bool) : Int × KnotPkt :=
  let wire := pktRecycleWire pkt keepQuestion
  (( parser.parse wire).1, ⟨wire, (parser.parse wire).2, parser.fits wire (by
    rw [length_pktRecycleWire]
    exact Nat.le_add_right _ _)⟩)

/-- `kr_pkt_recycle(pkt)`. -/
def krPktRecycle (parser : QuestionParser) (pkt : KnotPkt) : Int × KnotPkt :=
  pktRecycle parser pkt false

/-- `kr_pkt_clear_payload(pkt)`: `qdcount` converted to `bool`. -/
def krPktClearPayload (parser : QuestionParser) (pkt : KnotPkt) : Int × KnotPkt :=
  pktRecycle parser pkt (knotWireGetQdcount pkt.wire != 0)

end KnotResolver
