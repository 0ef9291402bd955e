import Mathlib.Data.Int.Notation
import Mathlib.Data.List.Basic
import Mathlib.Order.Basic
import Mathlib.Order.Nat

/-!
# Decimals of integers

* `decimal z`: the digits of `z`, after a `-` if it is negative.
* `Canonical`: a text that an integer may have.
* **`decimal_canonical`**, **`parse_decimal`**: every integer has one, which gives it back.
-/

namespace Lib.Decimal

def decimal (z : ℤ) : List Char :=
  if z < 0 then '-' :: Nat.toDigits 10 z.natAbs else Nat.toDigits 10 z.natAbs

def parse : List Char → ℤ
  | '-' :: ds => -(Nat.ofDigitChars 10 ds 0 : ℤ)
  | ds => Nat.ofDigitChars 10 ds 0

/-- Digits without a leading zero, after an optional `-`. -/
def Canonical (cs : List Char) : Prop :=
  ∃ ds : List Char, (cs = ds ∨ cs = '-' :: ds ∧ ds ≠ ['0']) ∧ ds ≠ [] ∧ (∀ c ∈ ds, c.isDigit) ∧
    (ds.head? = some '0' → ds = ['0'])

variable {n : ℕ} {z : ℤ} {c : Char}

theorem isDigit_of_mem_toDigits (h : c ∈ Nat.toDigits 10 n) : c.isDigit :=
  Nat.isDigit_of_mem_toDigits (by decide) (by decide) h

theorem head_toDigits (hn : 0 < n) : (Nat.toDigits 10 n).head? ≠ some '0' := by
  induction n using Nat.strong_induction_on with
  | _ n ih =>
    rw [Nat.toDigits_eq_if (by decide)]
    split_ifs with h
    · intro h0
      have : n.digitChar = '0' := Option.some.inj h0
      rw [Nat.digitChar_eq_zero] at this
      omega
    · rw [List.head?_append_of_ne_nil _ Nat.toDigits_ne_nil]
      exact ih (n / 10) (by omega) (by omega)

theorem toDigits_of_head (h : (Nat.toDigits 10 n).head? = some '0') :
    Nat.toDigits 10 n = ['0'] := by
  rcases Nat.eq_zero_or_pos n with rfl | hn
  · exact Nat.toDigits_zero 10
  · exact absurd h (head_toDigits hn)

/-- **The decimal of an integer is canonical**. -/
theorem decimal_canonical (z : ℤ) : Canonical (decimal z) := by
  refine ⟨Nat.toDigits 10 z.natAbs, ?_, Nat.toDigits_ne_nil, fun c => isDigit_of_mem_toDigits,
    toDigits_of_head⟩
  unfold decimal
  split_ifs with hz
  · refine .inr ⟨rfl, fun h => head_toDigits (n := z.natAbs) (by omega) ?_⟩
    rw [h]
    rfl
  · exact .inl rfl

theorem mem_decimal (h : c ∈ decimal z) : c = '-' ∨ c.isDigit := by
  unfold decimal at h
  split_ifs at h
  · exact (List.mem_cons.mp h).imp_right isDigit_of_mem_toDigits
  · exact .inr (isDigit_of_mem_toDigits h)

/-- **A decimal gives its integer back**. -/
theorem parse_decimal (z : ℤ) : parse (decimal z) = z := by
  unfold decimal
  split_ifs with hz
  · unfold parse
    simp only
    rw [Nat.ofDigitChars_ten_toDigits]
    omega
  · have hne : ∀ ds, Nat.toDigits 10 z.natAbs ≠ '-' :: ds := fun ds h => by
      have hm : '-' ∈ Nat.toDigits 10 z.natAbs := h ▸ List.mem_cons_self
      exact absurd (isDigit_of_mem_toDigits hm) (by decide)
    unfold parse
    split
    · exact absurd ‹_› (hne _)
    · rw [Nat.ofDigitChars_ten_toDigits]
      omega

theorem decimal_injective : Function.Injective decimal :=
  Function.LeftInverse.injective parse_decimal

end Lib.Decimal
