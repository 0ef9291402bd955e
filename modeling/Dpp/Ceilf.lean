import Dpp.Lib.Binary
import Mathlib.Data.BitVec
import Mathlib.Data.Nat.Cast.Field

/-!
# `ceilf`

The `ceilf` of the C runtime, on the 32 bits of its argument. `FORCE_EVAL` raises a flag of the
floating-point unit, and does nothing to them.

* `ceilf`.
* `IsCeil`; **`ceilf_isCeil`**: it rounds every number up to the next integer, which keeps the sign
  of the argument, and returns everything else as it is.
-/

namespace Dpp

open Lib.Binary

def ceilf (x : BitVec 32) : BitVec 32 :=
  let e : ℤ := (x >>> 23 &&& 0xff).toNat - 0x7f
  if 23 ≤ e then x
  else if 0 ≤ e then
    let m := 0x007fffff#32 >>> e.toNat
    if x &&& m = 0 then x
    else
      let i := if x >>> 31 = 0 then x + m else x
      i &&& ~~~m
  else if x >>> 31 ≠ 0 then 0x80000000 -- -0.0
  else if x <<< 1 ≠ 0 then 0x3f800000 -- 1.0
  else x

/-! ## The bits -/

section Bits

variable {x : BitVec 32} {k : ℕ}

theorem toNat_exponent (x : BitVec 32) :
    (x >>> 23 &&& 0xff).toNat = binary32.exponentField x.toNat := by
  rw [BitVec.toNat_and, BitVec.toNat_ushiftRight, Nat.shiftRight_eq_div_pow]
  exact Nat.and_two_pow_sub_one_eq_mod _ 8

/-- The mask of the places after the point. -/
theorem toNat_mask (hk : k ≤ 23) : (0x007fffff#32 >>> (23 - k)).toNat = 2 ^ k - 1 := by
  have hall : ∀ k ≤ 23, (0x007fffff#32 >>> (23 - k)).toNat = 2 ^ k - 1 := by decide
  exact hall k hk

theorem toNat_and_mask {m : BitVec 32} (hm : m.toNat = 2 ^ k - 1) (x : BitVec 32) :
    (x &&& m).toNat = x.toNat % 2 ^ k := by
  rw [BitVec.toNat_and, hm, Nat.and_two_pow_sub_one_eq_mod]

theorem toNat_and_not {m : BitVec 32} (hm : m.toNat = 2 ^ k - 1) (x : BitVec 32) :
    (x &&& ~~~m).toNat = x.toNat - x.toNat % 2 ^ k := by
  have hsum : (x &&& m) + (x &&& ~~~m) = x := by
    rw [BitVec.add_eq_or_of_and_eq_zero]
    · ext i hi
      simp only [BitVec.getElem_or, BitVec.getElem_and, BitVec.getElem_not]
      cases x[i] <;> cases m[i] <;> rfl
    · ext i hi
      simp only [BitVec.getElem_and, BitVec.getElem_not, BitVec.getElem_zero]
      cases x[i] <;> cases m[i] <;> rfl
  have hle : (x &&& ~~~m).toNat ≤ x.toNat := by
    rw [BitVec.toNat_and]
    exact Nat.and_le_left
  have hlow := toNat_and_mask hm x
  have hmod : x.toNat % 2 ^ k ≤ x.toNat := Nat.mod_le _ _
  have heq := congrArg BitVec.toNat hsum
  rw [BitVec.toNat_add, hlow] at heq
  have := x.isLt
  omega

theorem negative_iff (x : BitVec 32) : binary32.Negative x.toNat ↔ x >>> 31 ≠ 0 := by
  have hx := x.isLt
  have hshift : x >>> 31 = 0 ↔ x.toNat / 2 ^ 31 = 0 := by
    rw [← BitVec.toNat_inj, BitVec.toNat_ushiftRight, Nat.shiftRight_eq_div_pow]
    rfl
  rw [Ne, hshift]
  show x.toNat / 2 ^ 23 / 2 ^ 8 % 2 = 1 ↔ _
  omega

end Bits

/-! ## The number -/

theorem ceil_div_of_mod {n d : ℕ} (hd : 0 < d) (h : n % d ≠ 0) :
    ⌈(n / d : ℚ)⌉ = (n / d + 1 : ℕ) := by
  have hdiv : n % d + d * (n / d) = n := Nat.mod_add_div n d
  have hlt : n % d < d := Nat.mod_lt n hd
  have hlow : n / d * d < n := by
    rw [mul_comm]
    omega
  have hhigh : n ≤ (n / d + 1) * d := by
    rw [add_mul, mul_comm]
    omega
  have hdq : (0 : ℚ) < d := Nat.cast_pos.mpr hd
  rw [Int.ceil_eq_iff, lt_div_iff₀ hdq, div_le_iff₀ hdq]
  push_cast
  constructor
  · rw [add_sub_cancel_right]
    exact_mod_cast hlow
  · exact_mod_cast hhigh

/-- `y` is `x` rounded up. -/
structure IsCeil (x y : BitVec 32) : Prop where
  /-- An infinity or no number is returned as it is. -/
  other : ¬ binary32.IsFinite x.toNat → y = x
  finite : binary32.IsFinite x.toNat → binary32.IsFinite y.toNat
  value : binary32.IsFinite x.toNat → binary32.value y.toNat = ⌈binary32.value x.toNat⌉
  sign : binary32.Negative y.toNat ↔ binary32.Negative x.toNat

section Value

variable {x : BitVec 32} {k : ℕ}

/-- A magnitude with all its places before the point. -/
theorem isCeil_self (h : binary32.IsFinite x.toNat → ∃ n : ℕ, binary32.magnitude x.toNat = n) :
    IsCeil x x := by
  refine ⟨fun _ => rfl, id, fun hx => ?_, Iff.rfl⟩
  obtain ⟨n, hn⟩ := h hx
  unfold Format.value
  rw [hn]
  split_ifs
  · rw [← Int.cast_natCast, ← Int.cast_neg, Int.ceil_intCast]
  · rw [Int.ceil_natCast, Int.cast_natCast]

/-- A magnitude with `k` places after the point. -/
theorem magnitude_places (h : binary32.exponentField x.toNat + k = 150) (hk : k ≤ 23) :
    binary32.magnitude x.toNat = binary32.significand x.toNat / (2 ^ k : ℕ) := by
  have hlast : binary32.lastPlace x.toNat = -(k : ℤ) := by
    rw [lastPlace_of_normal (by omega)]
    omega
  rw [Format.magnitude, hlast, zpow_neg, zpow_natCast, ← div_eq_mul_inv, Nat.cast_pow]
  rfl

/-- What is left of a magnitude between two integers is one of them. -/
theorem isCeil_of_places {y : BitVec 32} (h : binary32.exponentField x.toNat + k = 150)
    (hk : k ≤ 23) (hlow : x.toNat % 2 ^ k ≠ 0)
    (hy : y.toNat = if binary32.Negative x.toNat then x.toNat - x.toNat % 2 ^ k
      else x.toNat - x.toNat % 2 ^ k + 2 ^ k) : IsCeil x y := by
  have hE : binary32.exponentField x.toNat ≤ 150 := by omega
  have hplace : binary32.lastPlace x.toNat + k = 0 := by
    rw [lastPlace_of_normal (by omega)]
    omega
  have hmag := magnitude_places h hk
  have hmod := Format.significand_mod (n := x.toNat) (f := binary32) hk
  have hx : binary32.IsFinite x.toNat := show _ ≠ 255 by omega
  rw [← hmod] at hlow
  split_ifs at hy with hneg
  · obtain ⟨-, -, hfield, hsign⟩ := Format.truncate (n := x.toNat) (f := binary32) hk
    rw [← hy] at hfield hsign
    refine ⟨fun hn => absurd hx hn, fun _ => ?_, fun _ => ?_, hsign⟩
    · rwa [Format.IsFinite, hfield]
    · have hmagy := Format.magnitude_truncate (n := x.toNat) (f := binary32) hk
      rw [← hy, hplace, zpow_zero, mul_one] at hmagy
      rw [Format.value, Format.value, if_pos (hsign.mpr hneg), if_pos hneg, hmag, hmagy,
        Int.ceil_neg, Rat.floor_natCast_div_natCast]
      push_cast
      rfl
  · obtain ⟨hmagy, hsign, hfield⟩ := Format.magnitude_next (n := x.toNat) (f := binary32) hk
      (show _ < 256 by omega)
    rw [← hy] at hmagy hsign hfield
    rw [hplace, zpow_zero, mul_one] at hmagy
    refine ⟨fun hn => absurd hx hn, fun _ => show _ ≠ 255 by omega, fun _ => ?_, hsign⟩
    rw [Format.value, Format.value, if_neg (mt hsign.mp hneg), if_neg hneg, hmag, hmagy,
      ceil_div_of_mod (by positivity) hlow, Int.cast_natCast]

/-- A magnitude between zero and one. -/
theorem magnitude_lt_one (h : binary32.exponentField x.toNat < 127) :
    binary32.magnitude x.toNat < 1 := by
  have hp : ((binary32.fractionBits + 1 : ℕ) : ℤ) = 24 := rfl
  have hle : binary32.lastPlace x.toNat + (binary32.fractionBits + 1 : ℕ) ≤ 0 := by
    rw [lastPlace_binary32, hp]
    omega
  exact lt_of_lt_of_le Format.magnitude_lt (zpow_le_one_of_nonpos₀ one_le_two hle)

theorem magnitude_eq_zero_iff (x : BitVec 32) :
    binary32.magnitude x.toNat = 0 ↔ x <<< 1 = 0 := by
  have hx := x.isLt
  have hshift : x <<< 1 = 0 ↔ x.toNat % 2 ^ 31 = 0 := by
    rw [← BitVec.toNat_inj, BitVec.toNat_shiftLeft, Nat.shiftLeft_eq]
    show x.toNat * 2 ^ 1 % 2 ^ 32 = 0 ↔ _
    omega
  have hsig : binary32.significand x.toNat = 0 ↔ x.toNat % 2 ^ 31 = 0 := by
    have hfraction : binary32.fraction x.toNat = x.toNat % 2 ^ 23 := rfl
    have hfield : binary32.exponentField x.toNat = x.toNat / 2 ^ 23 % 2 ^ 8 := rfl
    have hp : binary32.fractionBits = 23 := rfl
    unfold Format.significand
    rw [hp, hfraction, hfield]
    split_ifs <;> omega
  rw [hshift, ← hsig, Format.magnitude, mul_eq_zero, Nat.cast_eq_zero]
  exact or_iff_left (zpow_ne_zero _ two_ne_zero)

theorem value_negZero : binary32.value (0x80000000 : BitVec 32).toNat = 0 := by
  rw [Format.value, if_pos (by decide), (magnitude_eq_zero_iff _).mpr (by decide), neg_zero]

theorem value_one : binary32.value (0x3f800000 : BitVec 32).toNat = 1 := by
  have hmag := magnitude_places (x := 0x3f800000) (k := 23) rfl le_rfl
  have hsig : binary32.significand (0x3f800000 : BitVec 32).toNat = 2 ^ 23 := rfl
  rw [hsig, div_self (by positivity)] at hmag
  rw [Format.value, if_neg (by decide), hmag]

/-- A number between minus one and one. -/
theorem isCeil_of_small (h : binary32.exponentField x.toNat < 127) :
    IsCeil x (if x >>> 31 ≠ 0 then 0x80000000 else if x <<< 1 ≠ 0 then 0x3f800000 else x) := by
  have hx : binary32.IsFinite x.toNat := show _ ≠ 255 by omega
  have hlt := magnitude_lt_one h
  have hle : 0 ≤ binary32.magnitude x.toNat := Format.magnitude_nonneg
  by_cases hneg : x >>> 31 ≠ 0
  · have hsign := (negative_iff x).mpr hneg
    have hceil : ⌈-binary32.magnitude x.toNat⌉ = 0 :=
      Int.ceil_eq_zero_iff.mpr ⟨neg_lt_neg hlt, neg_nonpos.mpr hle⟩
    rw [if_pos hneg]
    refine ⟨fun hn => absurd hx hn, fun _ => by decide, fun _ => ?_, iff_of_true (by decide) hsign⟩
    rw [value_negZero, Format.value, if_pos hsign, hceil, Int.cast_zero]
  · have hsign : ¬ binary32.Negative x.toNat := mt (negative_iff x).mp hneg
    rw [if_neg hneg]
    by_cases h0 : x <<< 1 = 0
    · rw [if_neg (not_not.mpr h0)]
      exact isCeil_self fun _ => ⟨0, by rw [(magnitude_eq_zero_iff x).mpr h0, Nat.cast_zero]⟩
    · have hpos := lt_of_le_of_ne hle (Ne.symm (mt (magnitude_eq_zero_iff x).mp h0))
      have hceil : ⌈binary32.magnitude x.toNat⌉ = 1 := by
        rw [Int.ceil_eq_iff, Int.cast_one, sub_self]
        exact ⟨hpos, hlt.le⟩
      rw [if_pos h0]
      refine ⟨fun hn => absurd hx hn, fun _ => by decide, fun _ => ?_,
        iff_of_false (by decide) hsign⟩
      rw [value_one, Format.value, if_neg hsign, hceil, Int.cast_one]

/-- A number without places after the point. -/
theorem isCeil_of_large (h : 150 ≤ binary32.exponentField x.toNat) : IsCeil x x := by
  refine isCeil_self fun _ =>
    ⟨binary32.significand x.toNat * 2 ^ (binary32.exponentField x.toNat - 150), ?_⟩
  have hlast : binary32.lastPlace x.toNat = (binary32.exponentField x.toNat - 150 : ℕ) := by
    rw [lastPlace_of_normal (by omega)]
    omega
  rw [Format.magnitude, hlast, zpow_natCast]
  push_cast
  rfl

theorem isCeil_of_integral {m : BitVec 32} (h : binary32.exponentField x.toNat + k = 150)
    (hk : k ≤ 23) (hm : m.toNat = 2 ^ k - 1) (hint : x &&& m = 0) : IsCeil x x := by
  have hlow : binary32.significand x.toNat % 2 ^ k = 0 := by
    rw [Format.significand_mod hk, ← toNat_and_mask hm, hint]
    rfl
  refine isCeil_self fun _ => ⟨binary32.significand x.toNat / 2 ^ k, ?_⟩
  rw [magnitude_places h hk, Nat.cast_div (Nat.dvd_of_mod_eq_zero hlow) (by positivity)]

theorem add_pred_mod {n d : ℕ} (hd : 0 < d) (h : n % d ≠ 0) :
    (n + (d - 1)) % d = n % d - 1 := by
  have hdiv : n % d + d * (n / d) = n := Nat.mod_add_div n d
  have hlt : n % d < d := Nat.mod_lt n hd
  refine ((Nat.div_mod_unique (d := n / d + 1) hd).mpr ⟨?_, by omega⟩).2
  rw [mul_add]
  omega

/-- What is done to the bits of a number with places after the point. -/
theorem isCeil_of_mask {m : BitVec 32} (h : binary32.exponentField x.toNat + k = 150)
    (hk : k ≤ 23) (hm : m.toNat = 2 ^ k - 1) (hint : x &&& m ≠ 0) :
    IsCeil x ((if x >>> 31 = 0 then x + m else x) &&& ~~~m) := by
  have hlow : x.toNat % 2 ^ k ≠ 0 := by
    rwa [← toNat_and_mask hm, Ne, ← BitVec.toNat_zero, BitVec.toNat_inj]
  refine isCeil_of_places h hk hlow ?_
  rw [toNat_and_not hm]
  by_cases hneg : x >>> 31 = 0
  · have hx : x.toNat < 2 ^ 31 := by
      have hshift := congrArg BitVec.toNat hneg
      rw [BitVec.toNat_ushiftRight, Nat.shiftRight_eq_div_pow] at hshift
      exact Nat.lt_of_div_eq_zero (by decide) hshift
    have hpow : 2 ^ k ≤ 2 ^ 23 := Nat.pow_le_pow_right two_pos hk
    have hpos : 0 < 2 ^ k := Nat.two_pow_pos k
    have hsum : (x + m).toNat = x.toNat + (2 ^ k - 1) := by
      rw [BitVec.toNat_add, hm, Nat.mod_eq_of_lt (by omega)]
    have hmod := add_pred_mod hpos hlow
    rw [if_pos hneg, if_neg fun hn => (negative_iff x).mp hn hneg, hsum, hmod]
    have hle : x.toNat % 2 ^ k ≤ x.toNat := Nat.mod_le _ _
    omega
  · rw [if_neg hneg, if_pos ((negative_iff x).mpr hneg)]

end Value

/-- **`ceilf` rounds up**. -/
theorem ceilf_isCeil (x : BitVec 32) : IsCeil x (ceilf x) := by
  have he := toNat_exponent x
  unfold ceilf
  rw [he]
  dsimp only
  by_cases h23 : 23 ≤ (binary32.exponentField x.toNat : ℤ) - 0x7f
  · rw [if_pos h23]
    exact isCeil_of_large (by omega)
  rw [if_neg h23]
  by_cases h0 : 0 ≤ (binary32.exponentField x.toNat : ℤ) - 0x7f
  · rw [if_pos h0]
    have hk : binary32.exponentField x.toNat + (150 - binary32.exponentField x.toNat) = 150 := by
      omega
    have hshift : ((binary32.exponentField x.toNat : ℤ) - 0x7f).toNat =
        23 - (150 - binary32.exponentField x.toNat) := by
      omega
    have hm := toNat_mask (k := 150 - binary32.exponentField x.toNat) (by omega)
    rw [hshift]
    by_cases hint : x &&& 0x007fffff#32 >>> (23 - (150 - binary32.exponentField x.toNat)) = 0
    · rw [if_pos hint]
      exact isCeil_of_integral hk (by omega) hm hint
    · rw [if_neg hint]
      exact isCeil_of_mask hk (by omega) hm hint
  · rw [if_neg h0]
    exact isCeil_of_small (by omega)

-- minus two and a half, and minus a quarter
example : ceilf 0xc0200000 = 0xc0000000 ∧ ceilf 0xbe800000 = 0x80000000 := by decide

end Dpp
