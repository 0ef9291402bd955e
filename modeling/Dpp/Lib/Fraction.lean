import Dpp.Lib.Radix
import Mathlib.Data.Nat.Digits.Lemmas
import Mathlib.Tactic.Positivity

/-!
# Digits of a fraction

Long division: of `x / D`, below the base, the integral part is the next digit, and `b` times the
rest is what the digits after it come from.

* `expand`, `rest`: the first digits and what is left.
* **`expand_eq_fixed`**: they are the digits of the fraction times a power of the base, rounded
  down.
-/

namespace Lib.Fraction

variable (b D : ℕ)

def expand : ℕ → ℕ → List ℕ
  | 0, _ => []
  | n + 1, x => x / D :: expand n (x % D * b)

def rest : ℕ → ℕ → ℕ
  | 0, x => x
  | n + 1, x => rest n (x % D * b)

variable {b D} {d m n k x r : ℕ}

@[simp] theorem length_expand (n x : ℕ) : (expand b D n x).length = n := by
  induction n generalizing x with
  | zero => rfl
  | succ n ih => rw [expand, List.length_cons, ih]

theorem expand_add (m n x : ℕ) :
    expand b D (m + n) x = expand b D m x ++ expand b D n (rest b D m x) := by
  induction m generalizing x with
  | zero => rw [Nat.zero_add, expand, rest, List.nil_append]
  | succ m ih => rw [Nat.add_right_comm, expand, expand, rest, ih, List.cons_append]

theorem rest_add (m n x : ℕ) : rest b D (m + n) x = rest b D n (rest b D m x) := by
  induction m generalizing x with
  | zero => rw [Nat.zero_add, rest]
  | succ m ih => rw [Nat.add_right_comm, rest, rest, ih]

/-- Nothing but zeroes comes from nothing. -/
theorem expand_zero (n : ℕ) : expand b D n 0 = List.replicate n 0 := by
  induction n with
  | zero => rfl
  | succ n ih => rw [expand, Nat.zero_div, Nat.zero_mod, Nat.zero_mul, ih, List.replicate_succ]

theorem lt_of_mem_expand (hx : x < b * D) (h : d ∈ expand b D n x) : d < b := by
  have hb : 0 < b := Nat.pos_of_ne_zero fun h0 => by
    rw [h0, Nat.zero_mul] at hx
    exact absurd hx (Nat.not_lt_zero x)
  have hD : 0 < D := Nat.pos_of_ne_zero fun h0 => by
    rw [h0, Nat.mul_zero] at hx
    exact absurd hx (Nat.not_lt_zero x)
  induction n generalizing x with
  | zero => exact absurd h List.not_mem_nil
  | succ n ih =>
    rcases List.mem_cons.mp h with rfl | h
    · rw [mul_comm] at hx
      exact Nat.div_lt_of_lt_mul hx
    · refine ih ?_ h
      rw [mul_comm]
      exact Nat.mul_lt_mul_of_pos_left (Nat.mod_lt x hD) hb

/-- The digits of a number do not see what is beyond them. -/
theorem fixed_add_mul (b n k m : ℕ) :
    Radix.fixed b n (k * b ^ n + m) = Radix.fixed b n m := by
  induction n generalizing k with
  | zero => rfl
  | succ n ih =>
    rcases b.eq_zero_or_pos with rfl | hb
    · rw [Nat.zero_pow (Nat.succ_pos n), mul_zero, zero_add]
    · have hpow : k * b ^ (n + 1) + m = k * b * b ^ n + m := by ring
      have hdiv : (k * b * b ^ n + m) / b ^ n = b * k + m / b ^ n := by
        rw [add_comm, Nat.add_mul_div_right _ _ (by positivity)]
        ring
      rw [Radix.fixed, Radix.fixed, hpow, ih, hdiv, Nat.mul_add_mod]

/-- **The first digits of a fraction** are those of what it is times a power of the base. -/
theorem expand_eq_fixed (hb : 0 < b) (hD : 0 < D) (n : ℕ) (hr : r < D) :
    expand b D n (r * b) = Radix.fixed b n (r * b ^ n / D) := by
  induction n generalizing r with
  | zero => rfl
  | succ n ih =>
    have hstep : r * b ^ (n + 1) = D * (r * b / D * b ^ n) + r * b % D * b ^ n := by
      have := Nat.div_add_mod (r * b) D
      calc r * b ^ (n + 1) = r * b * b ^ n := by ring
        _ = (D * (r * b / D) + r * b % D) * b ^ n := by rw [this]
        _ = _ := by ring
    have hwhole : r * b ^ (n + 1) / D = r * b / D * b ^ n + r * b % D * b ^ n / D := by
      rw [hstep, Nat.mul_add_div hD]
    have hhigh : r * b ^ (n + 1) / D / b ^ n = r * b / D := by
      rw [Nat.div_div_eq_div_mul, pow_succ', ← mul_assoc,
        Nat.mul_div_mul_right _ _ (by positivity)]
    have hlt : r * b / D < b := by
      rw [Nat.div_lt_iff_lt_mul hD, mul_comm]
      exact Nat.mul_lt_mul_of_pos_left hr hb
    rw [expand, Radix.fixed, ih (Nat.mod_lt _ hD), hhigh, Nat.mod_eq_of_lt hlt, hwhole,
      fixed_add_mul]

end Lib.Fraction
