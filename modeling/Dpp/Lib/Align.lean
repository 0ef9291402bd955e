import Mathlib.Data.BitVec
import Mathlib.Data.Int.Notation
import Mathlib.Data.Nat.Notation
import Mathlib.Tactic.Ring

/-!
# Alignment

Multiples of a power of two, as a mask and as numbers.

* **`and_not_pred_eq_iff`**: clearing the low bits leaves a word alone exactly if it is a multiple.
* `dvd_toNat_sub_iff`: a difference that may wrap around is a multiple exactly if the integer is.
* **`forall_mul_add_iff`**: the multiples of `g` up to a bound, moved by `c`, are multiples of `d`
  exactly if the first one is and, should there be two, `g` is.
-/

namespace Lib

section Mask

variable {w k : ℕ} {x y a m : BitVec w}

theorem and_not_eq_iff : x &&& ~~~m = x ↔ x &&& m = 0#w := by
  constructor
  · intro h
    have hself : ~~~m &&& m = 0#w := by
      ext i hi
      simp
    rw [← h, BitVec.and_assoc, hself, BitVec.and_zero]
  · intro h
    ext i hi
    have hbit := congrArg (fun v : BitVec w => v[i]) h
    simp only [BitVec.getElem_and, BitVec.getElem_zero, BitVec.getElem_not] at hbit ⊢
    cases hx : x[i] with
    | false => rfl
    | true =>
      rw [hx, Bool.true_and] at hbit
      rw [hbit]
      rfl

theorem toNat_pred (ha : a.toNat = 2 ^ k) : (a - 1#w).toNat = 2 ^ k - 1 := by
  have hlt : 2 ^ k < 2 ^ w := ha ▸ a.isLt
  have hpow := Nat.one_le_two_pow (n := k)
  have hw : 0 < w := by
    by_contra hw
    obtain rfl : w = 0 := by omega
    omega
  have hle : 1#w ≤ a := by
    rw [BitVec.le_def, BitVec.toNat_one hw, ha]
    exact hpow
  rw [BitVec.toNat_sub_of_le hle, ha, BitVec.toNat_one hw]

/-- **Clearing the low bits** leaves the multiples of a power of two alone, and nothing else. -/
theorem and_not_pred_eq_iff (ha : a.toNat = 2 ^ k) :
    x &&& ~~~(a - 1#w) = x ↔ 2 ^ k ∣ x.toNat := by
  rw [and_not_eq_iff, ← BitVec.toNat_inj, BitVec.toNat_and, toNat_pred ha,
    Nat.and_two_pow_sub_one_eq_mod, Nat.dvd_iff_mod_eq_zero]
  rfl

theorem dvd_toNat_sub_iff {d : ℕ} (hd : d ∣ 2 ^ w) :
    d ∣ (x - y).toNat ↔ (d : ℤ) ∣ x.toNat - y.toNat := by
  have hsum : ((2 ^ w - y.toNat + x.toNat : ℕ) : ℤ) = (2 ^ w : ℕ) + (x.toNat - y.toNat) := by
    rw [Nat.cast_add, Nat.cast_sub y.isLt.le]
    ring
  rw [BitVec.toNat_sub, Nat.dvd_mod_iff hd, ← Int.natCast_dvd_natCast, hsum]
  exact Int.dvd_add_right (Int.natCast_dvd_natCast.mpr hd)

end Mask

/-- **The multiples of `g` up to a bound, moved by `c`,** are multiples of `d` exactly if the first
of them is, and `g` is if there is a second one. -/
theorem forall_mul_add_iff {g n N : ℕ} {c d : ℤ} :
    (∀ q : ℕ, 0 < q → q * g + n ≤ N → d ∣ (q * g : ℕ) + c) ↔
      (1 * g + n ≤ N → d ∣ (g : ℤ) + c) ∧ (2 * g + n ≤ N → d ∣ (g : ℤ)) := by
  have hone : ((1 * g : ℕ) : ℤ) + c = g + c := by
    rw [Nat.one_mul]
  constructor
  · intro h
    refine ⟨fun h1 => hone ▸ h 1 Nat.one_pos h1, fun h2 => ?_⟩
    have hle : 1 * g + n ≤ N := by omega
    have hdiff : (g : ℤ) = ((2 * g : ℕ) + c) - ((1 * g : ℕ) + c) := by
      push_cast
      ring
    rw [hdiff]
    exact Int.dvd_sub (h 2 Nat.two_pos h2) (h 1 Nat.one_pos hle)
  · rintro ⟨h1, h2⟩ q hq hle
    obtain ⟨p, rfl⟩ := Nat.exists_eq_add_of_lt hq
    have hstep : ((0 + p + 1) * g : ℕ) = g + p * g := by ring
    rw [hstep] at hle ⊢
    have hfirst : d ∣ (g : ℤ) + c := h1 (by omega)
    have hrest : d ∣ ((p * g : ℕ) : ℤ) := by
      cases p with
      | zero => simp
      | succ p =>
        have hroom : 2 * g + n ≤ N := by
          rw [Nat.succ_mul] at hle
          omega
        rw [Nat.cast_mul]
        exact Dvd.dvd.mul_left (h2 hroom) _
    have hsplit : ((g + p * g : ℕ) : ℤ) + c = (g + c) + (p * g : ℕ) := by
      push_cast
      ring
    rw [hsplit]
    exact Int.dvd_add hfirst hrest

end Lib
