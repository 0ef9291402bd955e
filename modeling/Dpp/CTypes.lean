import Mathlib.Data.Nat.Notation
import Mathlib.Data.Int.Notation
import Mathlib.Data.BitVec

/-!
# Integer types

`int`, `long` and `long long`, signed and unsigned, in the two 64-bit data models. `size_t` and
`intmax_t` are 64 bits wide in both.
-/

namespace Dpp

/-- `size_t`. -/
abbrev SizeT := BitVec 64

/-- `llp64` is Windows: there `long` has 32 bits. -/
inductive DataModel
  | llp64
  | lp64
deriving DecidableEq

inductive Rank
  | int
  | long
  | longLong
deriving DecidableEq

/-- An integer type no smaller than `int`. -/
structure IntType where
  rank : Rank
  signed : Bool
deriving DecidableEq

namespace IntType

variable (m : DataModel) (t : IntType)

def sizeof : ℕ :=
  match t.rank, m with
  | .int, _ | .long, .llp64 => 4
  | .long, .lp64 | .longLong, _ => 8

def bits : ℕ := 8 * t.sizeof m

/-- The values of the type, as bit patterns. -/
abbrev Word := BitVec (t.bits m)

variable {m t} in
/-- The number a bit pattern stands for. -/
def toInt (w : t.Word m) : ℤ := if t.signed then BitVec.toInt w else w.toNat

variable {m t} in
theorem toInt_injective : Function.Injective (toInt (m := m) (t := t)) := by
  intro v w h
  unfold toInt at h
  split_ifs at h
  · exact BitVec.toInt_inj.mp h
  · exact BitVec.toNat_inj.mp (Int.ofNat.inj h)

theorem sizeof_eq : t.sizeof m = 4 ∨ t.sizeof m = 8 := by
  unfold sizeof
  split <;> simp

theorem bits_eq : t.bits m = 32 ∨ t.bits m = 64 := by
  have := t.sizeof_eq m
  unfold bits
  omega

end IntType

end Dpp
