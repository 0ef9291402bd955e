import Mathlib.Data.Rat.Floor
import Mathlib.Algebra.Order.Field.Power
import Mathlib.Tactic.Ring
import Mathlib.Tactic.Positivity

/-!
# Binary interchange formats

The numbers that words stand for: a sign, an exponent and a fraction, from the highest bit to the
lowest.

* `Format`, `Format.magnitude`, `Format.value`.
* `magnitude_add`: within a binade, and to the first number of the next one, magnitudes are as far
  apart as words.
* **`magnitude_truncate`**, **`magnitude_next`**: a word with its last bits cleared, and the next
  such word.
-/

namespace Lib.Binary

structure Format where
  fractionBits : ℕ
  exponentBits : ℕ

/-- Single precision. -/
def binary32 : Format := ⟨23, 8⟩

namespace Format

variable (f : Format) (n : ℕ)

def bias : ℕ := 2 ^ (f.exponentBits - 1) - 1

def fraction : ℕ := n % 2 ^ f.fractionBits

def exponentField : ℕ := n / 2 ^ f.fractionBits % 2 ^ f.exponentBits

def Negative : Prop := n / 2 ^ f.fractionBits / 2 ^ f.exponentBits % 2 = 1

/-- Neither an infinity nor no number. -/
def IsFinite : Prop := f.exponentField n ≠ 2 ^ f.exponentBits - 1

instance : Decidable (f.Negative n) := inferInstanceAs (Decidable (_ = _))

instance : Decidable (f.IsFinite n) := inferInstanceAs (Decidable (_ ≠ _))

/-- The fraction, with the leading one of a normal number. -/
def significand : ℕ :=
  if f.exponentField n = 0 then f.fraction n else 2 ^ f.fractionBits + f.fraction n

/-- The exponent of the last place; that of subnormal numbers is that of the first binade. -/
def lastPlace : ℤ := 1 - f.bias - f.fractionBits + (f.exponentField n - 1 : ℕ)

def magnitude : ℚ := f.significand n * 2 ^ f.lastPlace n

/-- The number a finite word stands for. -/
def value : ℚ := if f.Negative n then -f.magnitude n else f.magnitude n

variable {f n} {d k : ℕ}

theorem magnitude_nonneg : 0 ≤ f.magnitude n := by
  unfold magnitude
  positivity

theorem fraction_lt : f.fraction n < 2 ^ f.fractionBits := Nat.mod_lt n (by positivity)

theorem exponentField_lt : f.exponentField n < 2 ^ f.exponentBits := Nat.mod_lt _ (by positivity)

theorem significand_lt : f.significand n < 2 ^ (f.fractionBits + 1) := by
  have hlt : f.fraction n < 2 ^ f.fractionBits := fraction_lt
  unfold significand
  rw [pow_succ]
  split_ifs <;> omega

theorem significand_of_normal (h : f.exponentField n ≠ 0) :
    f.significand n = 2 ^ f.fractionBits + f.fraction n := if_neg h

/-! ## Binades -/

/-- A magnitude is below the end of its binade. -/
theorem magnitude_lt : f.magnitude n < 2 ^ (f.lastPlace n + (f.fractionBits + 1 : ℕ)) := by
  have hlt : (f.significand n : ℚ) < 2 ^ (f.fractionBits + 1) := by exact_mod_cast significand_lt
  rw [add_comm, zpow_add₀ two_ne_zero, zpow_natCast]
  exact mul_lt_mul_of_pos_right hlt (by positivity)

/-- A normal magnitude is not below the beginning of its binade. -/
theorem le_magnitude (h : f.exponentField n ≠ 0) :
    2 ^ (f.lastPlace n + (f.fractionBits : ℕ)) ≤ f.magnitude n := by
  have hle : (2 ^ f.fractionBits : ℚ) ≤ f.significand n := by
    rw [significand_of_normal h]
    exact_mod_cast Nat.le_add_right _ _
  rw [add_comm, zpow_add₀ two_ne_zero, zpow_natCast]
  exact mul_le_mul_of_nonneg_right hle (by positivity)

/-! ## Neighbours -/

theorem fields_add (hd : f.fraction n + d < 2 ^ f.fractionBits) :
    (n + d) / 2 ^ f.fractionBits = n / 2 ^ f.fractionBits ∧
      f.fraction (n + d) = f.fraction n + d := by
  refine (Nat.div_mod_unique (by positivity)).mpr ⟨?_, hd⟩
  have := Nat.mod_add_div n (2 ^ f.fractionBits)
  unfold fraction
  omega

theorem fields_carry (hd : f.fraction n + d = 2 ^ f.fractionBits) :
    (n + d) / 2 ^ f.fractionBits = n / 2 ^ f.fractionBits + 1 ∧ f.fraction (n + d) = 0 := by
  refine (Nat.div_mod_unique (by positivity)).mpr ⟨?_, by positivity⟩
  have := Nat.mod_add_div n (2 ^ f.fractionBits)
  unfold fraction at hd
  rw [mul_add]
  omega

theorem high_succ (hE : f.exponentField n + 1 < 2 ^ f.exponentBits) :
    (n / 2 ^ f.fractionBits + 1) / 2 ^ f.exponentBits =
        n / 2 ^ f.fractionBits / 2 ^ f.exponentBits ∧
      (n / 2 ^ f.fractionBits + 1) % 2 ^ f.exponentBits = f.exponentField n + 1 := by
  refine (Nat.div_mod_unique (by positivity)).mpr ⟨?_, hE⟩
  have := Nat.mod_add_div (n / 2 ^ f.fractionBits) (2 ^ f.exponentBits)
  unfold exponentField
  omega

/-- **Magnitudes are as far apart as words**, up to the first number of the next binade. -/
theorem magnitude_add (hd : f.fraction n + d ≤ 2 ^ f.fractionBits)
    (hE : f.exponentField n + 1 < 2 ^ f.exponentBits) :
    f.magnitude (n + d) = (f.significand n + d : ℕ) * 2 ^ f.lastPlace n ∧
      (f.Negative (n + d) ↔ f.Negative n) ∧ f.exponentField (n + d) ≤ f.exponentField n + 1 := by
  rcases hd.lt_or_eq with hlt | heq
  · obtain ⟨hdiv, hmod⟩ := fields_add hlt
    have hfield : f.exponentField (n + d) = f.exponentField n := by
      unfold exponentField
      rw [hdiv]
    have hsig : f.significand (n + d) = f.significand n + d := by
      unfold significand
      rw [hfield, hmod]
      split_ifs <;> omega
    refine ⟨?_, ?_, by omega⟩
    · unfold magnitude lastPlace
      rw [hsig, hfield]
    · unfold Negative
      rw [hdiv]
  · obtain ⟨hdiv, hmod⟩ := fields_carry heq
    obtain ⟨hhigh, hlow⟩ := high_succ hE
    have hfield : f.exponentField (n + d) = f.exponentField n + 1 := by
      rw [← hlow, ← hdiv]
      rfl
    have hsig : f.significand (n + d) = 2 ^ f.fractionBits := by
      unfold significand
      rw [hfield, hmod, if_neg (Nat.succ_ne_zero _), add_zero]
    refine ⟨?_, ?_, by omega⟩
    · unfold magnitude lastPlace
      rw [hsig, hfield]
      unfold significand
      by_cases h0 : f.exponentField n = 0
      · rw [if_pos h0, heq, h0]
      · -- the first number of the next binade has half the significand
        have hsum : 2 ^ f.fractionBits + f.fraction n + d = 2 ^ f.fractionBits * 2 := by omega
        have hexp : ((f.exponentField n + 1 - 1 : ℕ) : ℤ) = (f.exponentField n - 1 : ℕ) + 1 := by
          omega
        rw [if_neg h0, hsum, hexp, ← add_assoc, zpow_add_one₀ two_ne_zero]
        push_cast
        ring
    · unfold Negative
      rw [hdiv, hhigh]

/-! ## Words with their last bits cleared -/

theorem significand_mod (hk : k ≤ f.fractionBits) :
    f.significand n % 2 ^ k = n % 2 ^ k := by
  have hdvd : 2 ^ k ∣ 2 ^ f.fractionBits := pow_dvd_pow 2 hk
  have hfraction : f.fraction n % 2 ^ k = n % 2 ^ k := Nat.mod_mod_of_dvd n hdvd
  unfold significand
  split_ifs
  · exact hfraction
  · rw [Nat.add_mod, Nat.mod_eq_zero_of_dvd hdvd, zero_add, Nat.mod_mod, hfraction]

/-- The fields of a word with its last bits cleared. -/
theorem truncate_fields (hk : k ≤ f.fractionBits) :
    (n - n % 2 ^ k) / 2 ^ f.fractionBits = n / 2 ^ f.fractionBits ∧
      f.fraction (n - n % 2 ^ k) = f.fraction n - n % 2 ^ k ∧
      n % 2 ^ k ≤ f.fraction n := by
  have hle : n % 2 ^ k ≤ f.fraction n := by
    rw [← Nat.mod_mod_of_dvd n (pow_dvd_pow 2 hk)]
    exact Nat.mod_le _ _
  have hn := Nat.mod_add_div n (2 ^ f.fractionBits)
  have hlt : f.fraction n < 2 ^ f.fractionBits := fraction_lt
  have hunique : (n - n % 2 ^ k) / 2 ^ f.fractionBits = n / 2 ^ f.fractionBits ∧
      (n - n % 2 ^ k) % 2 ^ f.fractionBits = f.fraction n - n % 2 ^ k := by
    refine (Nat.div_mod_unique (by positivity)).mpr ⟨?_, by omega⟩
    unfold fraction at hle ⊢
    omega
  exact ⟨hunique.1, hunique.2, hle⟩

theorem truncate (hk : k ≤ f.fractionBits) :
    f.significand (n - n % 2 ^ k) = f.significand n - n % 2 ^ k ∧
      f.lastPlace (n - n % 2 ^ k) = f.lastPlace n ∧
      f.exponentField (n - n % 2 ^ k) = f.exponentField n ∧
      (f.Negative (n - n % 2 ^ k) ↔ f.Negative n) := by
  obtain ⟨hdiv, hmod, hle⟩ := truncate_fields (n := n) hk
  have hfield : f.exponentField (n - n % 2 ^ k) = f.exponentField n := by
    unfold exponentField
    rw [hdiv]
  refine ⟨?_, ?_, hfield, ?_⟩
  · unfold significand
    rw [hfield, hmod]
    split_ifs
    · rfl
    · exact (Nat.add_sub_assoc hle _).symm
  · unfold lastPlace
    rw [hfield]
  · unfold Negative
    rw [hdiv]

/-- **Clearing the last bits** rounds the magnitude down. -/
theorem magnitude_truncate (hk : k ≤ f.fractionBits) :
    f.magnitude (n - n % 2 ^ k) = (f.significand n / 2 ^ k : ℕ) * 2 ^ (f.lastPlace n + k) := by
  obtain ⟨hsig, hlast, -, -⟩ := truncate (n := n) hk
  have hmul : f.significand n - n % 2 ^ k = f.significand n / 2 ^ k * 2 ^ k := by
    have := Nat.mod_add_div (f.significand n) (2 ^ k)
    rw [significand_mod hk] at this
    rw [mul_comm]
    omega
  unfold magnitude
  rw [hsig, hlast, hmul, zpow_add₀ two_ne_zero, zpow_natCast]
  push_cast
  ring

/-- **The next word with its last bits clear** has the next magnitude. -/
theorem magnitude_next (hk : k ≤ f.fractionBits)
    (hE : f.exponentField n + 1 < 2 ^ f.exponentBits) :
    f.magnitude (n - n % 2 ^ k + 2 ^ k) =
        (f.significand n / 2 ^ k + 1 : ℕ) * 2 ^ (f.lastPlace n + k) ∧
      (f.Negative (n - n % 2 ^ k + 2 ^ k) ↔ f.Negative n) ∧
      f.exponentField (n - n % 2 ^ k + 2 ^ k) ≤ f.exponentField n + 1 := by
  obtain ⟨hsig, hlast, hfield, hneg⟩ := truncate (n := n) hk
  have hroom : f.fraction (n - n % 2 ^ k) + 2 ^ k ≤ 2 ^ f.fractionBits := by
    obtain ⟨-, hmod, -⟩ := truncate_fields (n := n) hk
    have hdvd : 2 ^ k ∣ f.fraction (n - n % 2 ^ k) := by
      have hmod' : f.fraction n % 2 ^ k = n % 2 ^ k := Nat.mod_mod_of_dvd n (pow_dvd_pow 2 hk)
      rw [hmod, ← hmod']
      exact Nat.dvd_sub_mod _
    obtain ⟨a, ha⟩ := hdvd
    obtain ⟨b, hb⟩ := pow_dvd_pow 2 hk
    have hlt : f.fraction (n - n % 2 ^ k) < 2 ^ f.fractionBits := fraction_lt
    rw [ha, hb] at hlt ⊢
    have hab : a < b := Nat.lt_of_mul_lt_mul_left hlt
    calc 2 ^ k * a + 2 ^ k = 2 ^ k * (a + 1) := by ring
      _ ≤ 2 ^ k * b := Nat.mul_le_mul_left _ hab
  have hmul : f.significand n - n % 2 ^ k + 2 ^ k = (f.significand n / 2 ^ k + 1) * 2 ^ k := by
    have := Nat.mod_add_div (f.significand n) (2 ^ k)
    rw [significand_mod hk] at this
    rw [add_mul, one_mul, mul_comm]
    omega
  obtain ⟨hmag, hnegative, hle⟩ := magnitude_add hroom (by rwa [hfield])
  refine ⟨?_, hnegative.trans hneg, by rwa [hfield] at hle⟩
  rw [hmag, hsig, hlast, hmul, zpow_add₀ two_ne_zero, zpow_natCast]
  push_cast
  ring

end Format

/-! ## Single precision -/

section Binary32

variable {n : ℕ}

theorem lastPlace_binary32 (n : ℕ) :
    binary32.lastPlace n = -149 + (binary32.exponentField n - 1 : ℕ) := rfl

theorem lastPlace_of_normal (h : binary32.exponentField n ≠ 0) :
    binary32.lastPlace n = binary32.exponentField n - 150 := by
  rw [lastPlace_binary32]
  omega

end Binary32

end Lib.Binary
