import Mathlib.Data.Nat.Digits.Defs
import Mathlib.Tactic.Ring

/-!
# Positional notation of fixed length

* `fixed b r n`: the `r` lowest digits of `n` in base `b`, the most significant first.
* `value b ds`: the number written `ds`.
* **`value_fixed`**: the digits of `n` are worth `n` modulo `b ^ r`.
-/

namespace Lib.Radix

def fixed (b : ℕ) : ℕ → ℕ → List ℕ
  | 0, _ => []
  | r + 1, n => n / b ^ r % b :: fixed b r n

def value (b : ℕ) (ds : List ℕ) : ℕ := Nat.ofDigits b ds.reverse

variable {b r n d : ℕ} {ds es : List ℕ}

@[simp] theorem length_fixed (b r n : ℕ) : (fixed b r n).length = r := by
  induction r with
  | zero => rfl
  | succ r ih => rw [fixed, List.length_cons, ih]

theorem value_append (b : ℕ) (ds es : List ℕ) :
    value b (ds ++ es) = b ^ es.length * value b ds + value b es := by
  unfold value
  rw [List.reverse_append, Nat.ofDigits_append, List.length_reverse]
  ring

theorem value_cons (b d : ℕ) (ds : List ℕ) :
    value b (d :: ds) = b ^ ds.length * d + value b ds := by
  rw [← List.singleton_append, value_append]
  simp [value]

theorem value_replicate_zero (b k : ℕ) : value b (List.replicate k 0) = 0 := by
  induction k with
  | zero => rfl
  | succ k ih =>
    rw [List.replicate_succ, value_cons, ih]
    ring

/-- Leading zeroes are worth nothing. -/
theorem value_zeroes_append (b k : ℕ) (ds : List ℕ) :
    value b (List.replicate k 0 ++ ds) = value b ds := by
  rw [value_append, value_replicate_zero]
  ring

/-- **The digits of `n` are worth `n`**, modulo what their number can hold. -/
theorem value_fixed (b r n : ℕ) : value b (fixed b r n) = n % b ^ r := by
  induction r with
  | zero => exact (Nat.mod_one n).symm
  | succ r ih =>
    rw [fixed, value_cons, length_fixed, ih, pow_succ, Nat.mod_mul]
    ring

theorem lt_of_mem_fixed (hb : 0 < b) (h : d ∈ fixed b r n) : d < b := by
  induction r with
  | zero => exact absurd h List.not_mem_nil
  | succ r ih =>
    rcases List.mem_cons.mp h with rfl | h
    · exact Nat.mod_lt _ hb
    · exact ih h

end Lib.Radix
