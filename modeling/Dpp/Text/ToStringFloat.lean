import Dpp.Text.Decimals
import Dpp.Text.ToStringAny

/-!
# `to_string` of a float

A `float` is passed as a `double`, and printed once it is a `float` again.

* **`toFloat_toDouble`**: nothing is lost on the way.
* **`toString_floatText`**: what `to_string` makes of a `float` and of a `double`.
-/

namespace Dpp

open Npf Lib.Unpacked Float.Model

/-! ## As a `double` and back -/

theorem eq_of_toBits {x y : Float32.Model} (h : x.toBits = y.toBits) : x = y := by
  obtain ⟨bits, hx⟩ := x
  obtain ⟨bits', hy⟩ := y
  cases h
  rfl

theorem pack_unpack_float (x : Float32.Model) : Float32.Model.pack x.unpack = x := by
  have hbits : UnpackedFloat.pack Format.binary32 x.unpack = x.toBits.toBitVec :=
    pack_unpack (by decide) x.valid
  exact eq_of_toBits (congrArg UInt32.ofBitVec hbits)

section Convert

variable {x : Float32.Model} {y : Float.Model} {u : UnpackedFloat} {s : UnpackedFloat.Sign}
  {m : ℕ} {e : ℤ} {hm : 0 < m}

theorem unpack_toDouble_of_finite (hu : x.unpack = .finite s m e hm) : (toDouble x).unpack =
    UnpackedFloat.unpack Format.binary64
      (UnpackedFloat.pack Format.binary64 (UnpackedFloat.round .binary64 s m e)) := by
  unfold toDouble
  rw [hu]
  rfl

/-- Only finite numbers are rounded. -/
theorem unpack_toDouble_of_other (hu : x.unpack = u) (h : ∀ s m e hm, u ≠ .finite s m e hm) :
    (toDouble x).unpack = UnpackedFloat.unpack Format.binary64
      (UnpackedFloat.pack Format.binary64 u) := by
  unfold toDouble
  rw [hu]
  cases u with
  | finite s m e hm => exact absurd rfl (h s m e hm)
  | _ => rfl

theorem toFloat_of_finite (hu : y.unpack = .finite s m e hm) :
    toFloat y = .pack (UnpackedFloat.round .binary32 s m e) := by
  unfold toFloat
  rw [hu]

theorem toFloat_of_other (hu : y.unpack = u) (h : ∀ s m e hm, u ≠ .finite s m e hm) :
    toFloat y = .pack u := by
  unfold toFloat
  rw [hu]
  cases u with
  | finite s m e hm => exact absurd rfl (h s m e hm)
  | _ => rfl

/-- A mantissa of a `float` is continued to one of a `double`. -/
theorem canonical_double {m : ℕ} {e : ℤ} (hm : 0 < m) (hf : Fits Format.binary32 m e) :
    Canonical Format.binary64 (m * 2 ^ (52 - m.log2)) (e - (52 - m.log2 : ℕ)) := by
  have hlog := hf.log2_le
  have hlow := hf.low
  have hb : (Format.binary32.exponentBias : ℤ) = 127 := rfl
  have hb' : (Format.binary64.exponentBias : ℤ) = 1023 := rfl
  rw [Canonical, targetExponent_eq, totalExponent_mul hm, totalExponent, hb']
  simp only at hlog hlow ⊢
  omega

theorem unpack_toDouble (hu : x.unpack = .finite s m e hm) :
    (toDouble x).unpack = .finite s (m * 2 ^ (52 - m.log2)) (e - (52 - m.log2 : ℕ))
      (Nat.mul_pos hm (Nat.two_pow_pos _)) := by
  have hf : Fits Format.binary32 m e := fits_of_unpack (by decide) hu
  have hlog := hf.log2_le
  have hlow := hf.low
  have hhigh := hf.high
  have hb : (Format.binary32.exponentBias : ℤ) = 127 := rfl
  have hb' : (Format.binary64.exponentBias : ℤ) = 1023 := rfl
  simp only [hb] at hlog hlow hhigh
  rw [unpack_toDouble_of_finite hu, round_canonical hm (canonical_double hm hf)]
  apply unpack_pack
  · rw [log2_mul_two_pow hm, mantissaBits_eq]
    simp only
    omega
  · simp only [hb']
    omega
  · simp only [hb']
    omega

end Convert

/-- **A `float` is the same** once it was a `double`. -/
theorem toFloat_toDouble (x : Float32.Model) : toFloat (toDouble x) = x := by
  have hx := pack_unpack_float x
  cases hu : x.unpack with
  | infinity s =>
    have hd := (unpack_toDouble_of_other hu nofun).trans (unpack_pack_infinity _ s)
    rw [toFloat_of_other hd nofun, ← hu, hx]
  | notANumber =>
    have hd := (unpack_toDouble_of_other hu nofun).trans (unpack_pack_notANumber _)
    rw [toFloat_of_other hd nofun, ← hu, hx]
  | zero s =>
    have hd := (unpack_toDouble_of_other hu nofun).trans (unpack_pack_zero _ s)
    rw [toFloat_of_other hd nofun, ← hu, hx]
  | finite s m e hm =>
    have hf : Fits Format.binary32 m e := fits_of_unpack (by decide) hu
    rw [toFloat_of_finite (unpack_toDouble hu), round_shifted hm hf.canonical, ← hu, hx]

/-! ## The text -/

/-- **`to_string` of a float** is its sign, its integral part and its first six decimals, or three
letters; a `double` is a `float` first. -/
theorem toString_floatText (m : DataModel) :
    (∀ x, toStringFloat m x = some (floatText (.plainFloat .none) 6 x)) ∧
      ∀ x, toStringDouble m x = some (floatText (.plainFloat .long) 6 (toFloat x)) := by
  constructor
  · intro x
    rw [toStringFloat_eq, toFloat_toDouble, render_floatText rfl rfl rfl (by decide)]
  · intro x
    rw [toStringDouble_eq, render_floatText rfl rfl rfl (by decide)]

end Dpp
