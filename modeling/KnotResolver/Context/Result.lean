import KnotResolver.Wire.Dname

/-! `kr_result_init` and `kr_result_deinit` of `lib/context.c`: the answer packet and the cache
transaction of a resolution's result.  Packets live on a heap of slots; a slot holds its packet
from `knot_pkt_new` until `knot_pkt_free` empties it, and a free of an emptied slot, undefined in
C, is `none`.  What the functions read of the context (the pool, the plan's next query and the
cache transaction) is given as it is found. -/

namespace KnotResolver

/-- `KNOT_RCODE_SERVFAIL`. -/
def KNOT_RCODE_SERVFAIL : Nat := 2

/-- An answer packet, with what `kr_result_init` writes of it: the question, the RCODE and the QR
bit. -/
structure AnswerPkt where
  question : Option (Dname × UInt16 × UInt16)
  rcode : Nat
  qr : Bool
  deriving DecidableEq

/-- The packets allocated: slot `i` holds packet `i` until it is freed. -/
abbrev PktHeap := List (Option AnswerPkt)

/-- Whether packet `p` is allocated and not freed. -/
def PktHeap.Live (heap : PktHeap) (p : Nat) : Prop := (heap.getD p none).isSome

instance (heap : PktHeap) (p : Nat) : Decidable (heap.Live p) :=
  inferInstanceAs (Decidable ((heap.getD p none).isSome = true))

/-- `knot_pkt_new(NULL, KNOT_WIRE_MAX_PKTSIZE, pool)`: an empty packet in a new slot, or `NULL`
when the pool has no room left; `pool` counts the allocations it still grants. -/
def knotPktNew (pool : Nat) (heap : PktHeap) : Option (Nat × PktHeap) :=
  if pool = 0 then none else some (heap.length, heap ++ [some ⟨none, 0, false⟩])

/-- `knot_pkt_free(&pkt)` of a live packet: its slot emptied. -/
def knotPktFree (heap : PktHeap) (p : Nat) : PktHeap := heap.set p none

/-- What `kr_result_init` reads of the context: the allocations the pool still grants, the query
`kr_rplan_next` returns as its name, class and type, and the transaction `kr_cache_txn_begin`
returns; `none` is `NULL`. -/
structure ResultCtx where
  pool : Nat
  rplanNext : Option (Dname × UInt16 × UInt16)
  txnBegin : Option Nat

/-- `struct kr_result`: the answer packet and the cache transaction, `none` for `NULL`. -/
structure KrResult where
  ans : Option Nat
  txn : Option Nat
  deriving DecidableEq

/-- `kr_result_init(ctx, result)`: the return code, `*result` and the heap after. -/
def krResultInit (ctx : ResultCtx) (heap : PktHeap) : Int × KrResult × PktHeap :=
  let result : KrResult := ⟨none, none⟩
  match knotPktNew ctx.pool heap with
  | none => (-1, result, heap)
  | some (ans, heap) =>
    match ctx.rplanNext with
    | none => (-1, result, knotPktFree heap ans)
    | some q =>
      -- `knot_pkt_put_question`, `knot_wire_set_rcode`, `knot_wire_set_qr`
      let heap := heap.set ans (some ⟨some q, KNOT_RCODE_SERVFAIL, true⟩)
      let result : KrResult := ⟨some ans, result.txn⟩
      match ctx.txnBegin with
      | none => (-1, result, knotPktFree heap ans)
      | some txn => (0, ⟨result.ans, some txn⟩, heap)

/-- `kr_result_deinit(result)`: `knot_pkt_free(&result->ans)`, a no-op on `NULL`, then the
transaction's commit, whose effect on the cache is not modelled.  Freeing a packet freed already
is undefined in C: `none`. -/
def krResultDeinit (result : KrResult) (heap : PktHeap) : Option (Int × PktHeap) :=
  match result.ans with
  | none => some (0, heap)
  | some p => if heap.Live p then some (0, knotPktFree heap p) else none

end KnotResolver
