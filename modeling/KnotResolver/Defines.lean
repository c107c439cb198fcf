import Mathlib.Data.Int.Defs

/-! The return-code conventions of `lib/defines.h`: `kr_ok()` is zero and `kr_error(x)` the
negated error number.  The numbers are the Linux values of the `errno` names the code uses. -/

namespace KnotResolver

/-- `kr_error(x)`: the error number, negated. -/
def krError (x : Int) : Int := -(x.natAbs : Int)

def ENOENT : Int := 2
def ENOMEM : Int := 12
def EFAULT : Int := 14
def EEXIST : Int := 17
def EINVAL : Int := 22
def ENOSPC : Int := 28
def ERANGE : Int := 34
def EILSEQ : Int := 84

/-- `KNOT_ENOMEM` of libknot. -/
def KNOT_ENOMEM : Int := -ENOMEM

@[simp] theorem krError_eq_zero_iff {x : Int} : krError x = 0 ↔ x = 0 := by
  simp [krError]

end KnotResolver
