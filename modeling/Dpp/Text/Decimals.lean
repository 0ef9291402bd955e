import Dpp.Lib.Binary
import Dpp.Lib.Fraction
import Dpp.Lib.Unpacked
import Dpp.Text.Convert
import Mathlib.Algebra.Order.Floor.Semifield

/-!
# The decimals of a float

* `fraction_chars`: the characters of a fraction are its first digits, to the last one or at least
  eight.
* **`fsplitAbs_spec`**: a float is separated into its integral part and its fraction, as exactly as
  eight decimals show.
* `floatText`: a float with `q` decimals, in terms of the number that it stands for.
* **`specText_floatText`**: what is put for a `double`, up to eight decimals.
-/

namespace Dpp.Npf

open Lib Lib.Fraction

/-! ## The fraction -/

section Fraction

variable {frac negExp i part q x : ℕ}

/-- Fractions are multiples of its inverse. -/
abbrev scale : ℕ := 2 ^ (fractionBinDigits - 4)

theorem leadingZeros_spec (frac negExp : ℕ) :
    ∃ z, leadingZeros frac negExp = (rest 10 scale z frac, negExp + z) ∧
      expand 10 scale z frac = List.replicate z 0 ∧
      (rest 10 scale z frac = 0 ∨ scale ≤ rest 10 scale z frac) := by
  fun_induction leadingZeros frac negExp with
  | case1 frac negExp h ih =>
    obtain ⟨z, heq, hdigits, hstop⟩ := ih
    refine ⟨z + 1, ?_, ?_, hstop⟩
    · rw [heq, rest, add_assoc, add_comm 1]
    · rw [expand, hdigits, h.2, List.replicate_succ]
  | case2 frac negExp h =>
    refine ⟨0, rfl, rfl, ?_⟩
    rcases eq_or_ne frac 0 with h0 | h0
    · exact .inl h0
    · refine .inr (Nat.le_of_not_lt fun hlt => h ⟨h0, Nat.div_eq_of_lt hlt⟩)

theorem fracDigits_spec (i frac part : ℕ) :
    ∃ k ≤ i, fracDigits i frac part =
        part * 10 ^ k + Radix.value 10 (expand 10 scale k frac) ∧
      (rest 10 scale k frac = 0 ∨ k = i) ∧ (frac = 0 → k = 0) := by
  fun_induction fracDigits i frac part with
  | case1 frac part => exact ⟨0, le_rfl, by simp [expand, Radix.value], .inr rfl, fun _ => rfl⟩
  | case2 part i =>
    exact ⟨0, Nat.zero_le _, by simp [expand, Radix.value], .inl rfl, fun _ => rfl⟩
  | case3 frac part i h ih =>
    obtain ⟨k, hk, heq, hstop, -⟩ := ih
    refine ⟨k + 1, by omega, ?_, hstop.imp_right (congrArg Nat.succ), fun h0 => absurd h0 h⟩
    rw [heq, expand, Radix.value_cons, length_expand]
    ring

theorem fracRev_eq (n : ℕ) : fracRev n = (Nat.digits 10 n).map digit := by
  fun_induction fracRev n with
  | case1 => rw [Nat.digits_zero, List.map_nil]
  | case2 n h ih =>
    rw [ih, Nat.digits_def' (by decide) (Nat.pos_of_ne_zero h), List.map_cons]

/-- A number is written with the digits that it was made of, where these begin with another one
than zero. -/
theorem fracRev_value {ds : List ℕ} (hlt : ∀ d ∈ ds, d < 10) (hhead : ds.head? ≠ some 0) :
    (fracRev (Radix.value 10 ds)).reverse = ds.map digit := by
  have hdigits : Nat.digits 10 (Nat.ofDigits 10 ds.reverse) = ds.reverse := by
    refine Nat.digits_ofDigits 10 (by decide) _ (fun d hd => hlt d (List.mem_reverse.mp hd)) ?_
    intro hne h0
    rw [List.getLast_reverse] at h0
    exact hhead (by rw [List.head?_eq_some_head (by simpa using hne), h0])
  rw [fracRev_eq, Radix.value, hdigits, List.map_reverse, List.reverse_reverse]

/-- **The characters of a fraction** are its digits, to the last one or at least eight. -/
theorem fraction_chars (hx : x < 10 * scale) :
    ∃ k, (fracRev (fracDigits maxFractionDecDigits (leadingZeros x 0).1 0) ++
          List.replicate (leadingZeros x 0).2 '0').reverse = (expand 10 scale k x).map digit ∧
      (rest 10 scale k x = 0 ∨ maxFractionDecDigits ≤ k) := by
  obtain ⟨z, hlead, hzeroes, hstop⟩ := leadingZeros_spec x 0
  obtain ⟨k, hk, hdigits, hend, hnone⟩ :=
    fracDigits_spec maxFractionDecDigits (rest 10 scale z x) 0
  have hlt : ∀ d ∈ expand 10 scale k (rest 10 scale z x), d < 10 := fun d hd =>
    lt_of_mem_expand (x := x) (n := z + k) hx (by rw [expand_add]; exact List.mem_append_right _ hd)
  have hhead : (expand 10 scale k (rest 10 scale z x)).head? ≠ some 0 := by
    cases k with
    | zero => exact (Option.some_ne_none 0).symm
    | succ k =>
      intro h0
      have hdiv : rest 10 scale z x / scale = 0 := Option.some.inj h0
      have hlow : rest 10 scale z x < scale := Nat.lt_of_div_eq_zero (by decide) hdiv
      exact absurd (hnone (hstop.resolve_right (not_le.mpr hlow))) (Nat.succ_ne_zero k)
  refine ⟨z + k, ?_, ?_⟩
  · rw [hlead, hdigits, zero_mul, zero_add, List.reverse_append, List.reverse_replicate, zero_add,
      fracRev_value hlt hhead, expand_add, hzeroes, List.map_append, List.map_replicate]
    rfl
  · rw [rest_add]
    exact hend.imp_right fun h => by omega

/-- What is left of the characters of a fraction, with zeroes up to the precision. -/
theorem decimals_eq {cs : List Char} {k : ℕ}
    (hcs : cs.reverse = (expand 10 scale k x).map digit)
    (hend : rest 10 scale k x = 0 ∨ maxFractionDecDigits ≤ k) (hq : q ≤ maxFractionDecDigits) :
    (cs.drop (cs.length - q)).reverse ++ List.replicate (q - cs.length) '0' =
      (expand 10 scale q x).map digit := by
  have hlen : cs.length = k := by
    rw [← List.length_reverse, hcs, List.length_map, length_expand]
  rw [List.reverse_drop, hcs, hlen, ← List.map_take]
  rcases Nat.le_total q k with hqk | hkq
  · obtain ⟨n, rfl⟩ := Nat.exists_eq_add_of_le hqk
    rw [expand_add, Nat.sub_eq_zero_of_le hqk, List.replicate_zero, List.append_nil,
      Nat.sub_sub_self hqk, List.take_left' (length_expand q x)]
  · obtain ⟨n, rfl⟩ := Nat.exists_eq_add_of_le hkq
    rw [Nat.sub_eq_zero_of_le hkq, Nat.sub_zero, List.take_of_length_le (length_expand k x).le,
      Nat.add_sub_cancel_left]
    rcases hend with hend | hend
    · rw [expand_add, hend, expand_zero, List.map_append, List.map_replicate]
      rfl
    · have hn : n = 0 := by omega
      rw [hn, List.replicate_zero, List.append_nil, Nat.add_zero]

end Fraction

/-! ## The parts of a float -/

section Split

open Lib.Binary

variable {f : BitVec 32} {k q : ℕ}

/-- An integral part and a fraction, in units of its scale, as far as eight decimals show. -/
structure Splits (f : BitVec 32) (intPart frac : ℕ) : Prop where
  lt : frac < scale
  floor : ∀ q ≤ maxFractionDecDigits, ⌊binary32.magnitude f.toNat * 10 ^ q⌋₊ =
    intPart * 10 ^ q + frac * 10 ^ q / scale

/-- `npf_fsplit_abs` after the integral part and the fraction are separated. -/
def splitText (intPart frac : ℕ) : ℕ × ℕ × ℕ :=
  let r := leadingZeros (frac * 10) 0
  (intPart, fracDigits maxFractionDecDigits r.1 0, r.2)

/-- The significand with the leading one, which subnormal numbers do not have. -/
abbrev mantissaNorm (f : BitVec 32) : ℕ := f.toNat % 2 ^ mantissaBits + 2 ^ mantissaBits

theorem magnitude_eq (h : binary32.exponentField f.toNat ≠ 0) :
    binary32.magnitude f.toNat =
      mantissaNorm f * 2 ^ (binary32.exponentField f.toNat - 150 : ℤ) := by
  rw [Format.magnitude, Format.significand_of_normal h, lastPlace_of_normal h, add_comm]
  rfl

/-- No places after the point. -/
theorem splits_of_integral {n : ℕ} (h : binary32.magnitude f.toNat = n) : Splits f n 0 where
  lt := by decide
  floor q _ := by
    rw [h, Nat.zero_mul, Nat.zero_div, Nat.add_zero]
    exact_mod_cast Nat.floor_natCast (n * 10 ^ q)

/-- As many places after the point as the scale has. -/
theorem splits_of_places {m : ℕ} (hk : k ≤ 60)
    (h : binary32.magnitude f.toNat = m / (2 ^ k : ℕ)) :
    Splits f (m / 2 ^ k) (m * 2 ^ (60 - k) % scale) where
  lt := Nat.mod_lt _ (by decide)
  floor q _ := by
    have hscale : scale = 2 ^ k * 2 ^ (60 - k) := by
      rw [← pow_add, Nat.add_sub_cancel' hk]
      rfl
    have hpos : 0 < 2 ^ (60 - k) := Nat.two_pow_pos _
    have hint : m * 2 ^ (60 - k) / scale = m / 2 ^ k := by
      rw [hscale, Nat.mul_div_mul_right _ _ hpos]
    have hmul : m * 2 ^ (60 - k) * 10 ^ q =
        scale * (m / 2 ^ k * 10 ^ q) + m * 2 ^ (60 - k) % scale * 10 ^ q := by
      have hdiv := Nat.div_add_mod (m * 2 ^ (60 - k)) scale
      rw [hint] at hdiv
      calc m * 2 ^ (60 - k) * 10 ^ q
          = (scale * (m / 2 ^ k) + m * 2 ^ (60 - k) % scale) * 10 ^ q := by rw [hdiv]
        _ = _ := by ring
    have hfloor : ⌊(m * 10 ^ q : ℕ) / ((2 ^ k : ℕ) : ℚ)⌋₊ = m * 10 ^ q / 2 ^ k :=
      Nat.floor_div_eq_div _ _
    calc ⌊binary32.magnitude f.toNat * 10 ^ q⌋₊
        = m * 10 ^ q / 2 ^ k := by
          rw [h, div_mul_eq_mul_div, ← hfloor]
          push_cast
          rfl
      _ = m * 2 ^ (60 - k) * 10 ^ q / scale := by
          rw [hscale, mul_right_comm, Nat.mul_div_mul_right _ _ hpos]
      _ = _ := by rw [hmul, Nat.mul_add_div (by decide)]

/-- Nothing that eight decimals show. -/
theorem splits_of_tiny (h : binary32.exponentField f.toNat < 90) : Splits f 0 0 where
  lt := by decide
  floor q hq := by
    have hlast : binary32.lastPlace f.toNat + (binary32.fractionBits + 1 : ℕ) ≤ -37 := by
      have hp : ((binary32.fractionBits + 1 : ℕ) : ℤ) = 24 := rfl
      rw [lastPlace_binary32, hp]
      omega
    have hmag : binary32.magnitude f.toNat < 2 ^ (-37 : ℤ) :=
      lt_of_lt_of_le Format.magnitude_lt (zpow_le_zpow_right₀ one_le_two hlast)
    have hpow : (10 ^ q : ℚ) ≤ 10 ^ 8 := pow_le_pow_right₀ (by norm_num) hq
    have hlt : binary32.magnitude f.toNat * 10 ^ q < 1 := by
      calc binary32.magnitude f.toNat * 10 ^ q
          ≤ binary32.magnitude f.toNat * 10 ^ 8 :=
            mul_le_mul_of_nonneg_left hpow Format.magnitude_nonneg
        _ < 2 ^ (-37 : ℤ) * 10 ^ 8 := mul_lt_mul_of_pos_right hmag (by positivity)
        _ < 1 := by norm_num
    rw [Nat.zero_mul, Nat.zero_div]
    exact Nat.floor_eq_zero.mpr hlt

theorem magnitude_lt_iff :
    binary32.magnitude f.toNat < 2 ^ 64 ↔ binary32.exponentField f.toNat < 191 := by
  have hp : (binary32.fractionBits : ℤ) = 23 := rfl
  have hp1 : ((binary32.fractionBits + 1 : ℕ) : ℤ) = 24 := rfl
  constructor
  · intro h
    by_contra hE
    have hle : (64 : ℤ) ≤ binary32.lastPlace f.toNat + binary32.fractionBits := by
      rw [lastPlace_of_normal (by omega), hp]
      omega
    have hmag := (zpow_le_zpow_right₀ one_le_two hle).trans
      (Format.le_magnitude (f := binary32) (n := f.toNat) (by omega))
    exact absurd h (not_lt.mpr hmag)
  · intro hE
    have hle : binary32.lastPlace f.toNat + (binary32.fractionBits + 1 : ℕ) ≤ 64 := by
      rw [lastPlace_binary32, hp1]
      omega
    exact lt_of_lt_of_le Format.magnitude_lt (zpow_le_zpow_right₀ one_le_two hle)

theorem mantissaNorm_lt (f : BitVec 32) : mantissaNorm f < 2 ^ 24 := by
  have hlt : f.toNat % 2 ^ 23 < 2 ^ 23 := Nat.mod_lt _ (by decide)
  show f.toNat % 2 ^ 23 + 2 ^ 23 < 2 ^ 24
  omega

/-- The integral part, for an exponent `E - 150`. -/
theorem intPart_eq (f : BitVec 32) (E : ℕ) :
    (if 0 < (E : ℤ) - 150 then mantissaNorm f * 2 ^ ((E : ℤ) - 150).toNat
      else if (E : ℤ) - 150 < 0 then
        if mantissaBits < -((E : ℤ) - 150) then 0
        else mantissaNorm f / 2 ^ (-((E : ℤ) - 150)).toNat
      else mantissaNorm f) =
      if 150 ≤ E then mantissaNorm f * 2 ^ (E - 150) else mantissaNorm f / 2 ^ (150 - E) := by
  have hup : ((E : ℤ) - 150).toNat = E - 150 := by omega
  have hdown : (-((E : ℤ) - 150)).toNat = 150 - E := by omega
  have hbits : (mantissaBits : ℤ) = 23 := rfl
  rw [hup, hdown, hbits]
  by_cases h150 : 150 ≤ E
  · rw [if_pos h150]
    split_ifs with h0 h1
    · rfl
    · omega
    · omega
    · rw [show E - 150 = 0 by omega, pow_zero, mul_one]
  · rw [if_neg h150, if_neg (by omega), if_pos (by omega)]
    split_ifs with h23
    · have hpow : 2 ^ 24 ≤ 2 ^ (150 - E) := Nat.pow_le_pow_right two_pos (by omega)
      exact (Nat.div_eq_of_lt (lt_of_lt_of_le (mantissaNorm_lt f) hpow)).symm
    · rfl

/-- The fraction, for the same exponent. -/
theorem frac_eq (f : BitVec 32) (E : ℕ) :
    (if (fractionBinDigits - 4 : ℕ) ≤ (fractionBinDigits : ℤ) + ((E : ℤ) - 150) - 4 ∨
          (fractionBinDigits : ℤ) + ((E : ℤ) - 150) - 4 < 0 then 0
        else mantissaNorm f * 2 ^ ((fractionBinDigits : ℤ) + ((E : ℤ) - 150) - 4).toNat % 2 ^ 64) %
      scale =
      if 150 ≤ E ∨ E < 90 then 0 else mantissaNorm f * 2 ^ (60 - (150 - E)) % scale := by
  have hdigits : ((fractionBinDigits : ℕ) : ℤ) = 64 := rfl
  have hscale : ((fractionBinDigits - 4 : ℕ) : ℤ) = 60 := rfl
  have hshift : ((fractionBinDigits : ℤ) + ((E : ℤ) - 150) - 4).toNat = E - 90 := by omega
  rw [hshift, hdigits, hscale]
  by_cases h : 150 ≤ E ∨ E < 90
  · rw [if_pos (by omega), if_pos h, Nat.zero_mod]
  · rw [if_neg (by omega), if_neg h, Nat.mod_mod_of_dvd _ (pow_dvd_pow 2 (by decide)),
      show 60 - (150 - E) = E - 90 by omega]

theorem fsplitAbs_eq {E : ℕ} (hE : binary32.exponentField f.toNat = E) : fsplitAbs f =
    if 191 ≤ E then none
    else some (splitText
      (if 150 ≤ E then mantissaNorm f * 2 ^ (E - 150) else mantissaNorm f / 2 ^ (150 - E))
      (if 150 ≤ E ∨ E < 90 then 0 else mantissaNorm f * 2 ^ (60 - (150 - E)) % scale)) := by
  have hfield : f.toNat / 2 ^ mantissaBits % 2 ^ exponentBits = E := hE
  have hexp : ((E : ℕ) : ℤ) - exponentBias - mantissaBits = E - 150 := by
    show (E : ℤ) - 127 - 23 = E - 150
    ring
  have hbits : (64 : ℤ) - mantissaBits = 41 := rfl
  rw [← intPart_eq, ← frac_eq]
  unfold fsplitAbs
  rw [hfield, hexp, hbits]
  by_cases h191 : 191 ≤ E
  · rw [if_pos h191]
    exact if_pos (by omega)
  · rw [if_neg h191]
    exact if_neg (by omega)

/-- **`npf_fsplit_abs` separates a float into its parts**, up to the greatest integer that has
64 bits. -/
theorem fsplitAbs_spec (h : binary32.magnitude f.toNat < 2 ^ 64) :
    ∃ intPart frac, Splits f intPart frac ∧ fsplitAbs f = some (splitText intPart frac) := by
  have hE := magnitude_lt_iff.mp h
  refine ⟨_, _, ?_, (fsplitAbs_eq rfl).trans (if_neg (by omega))⟩
  by_cases h150 : 150 ≤ binary32.exponentField f.toNat
  · have hexp : (binary32.exponentField f.toNat - 150 : ℤ) =
        (binary32.exponentField f.toNat - 150 : ℕ) := by
      omega
    rw [if_pos h150, if_pos (.inl h150)]
    apply splits_of_integral
    rw [magnitude_eq (by omega), hexp, zpow_natCast]
    push_cast
    rfl
  rw [if_neg h150]
  by_cases h90 : binary32.exponentField f.toNat < 90
  · have hpow : 2 ^ 24 ≤ 2 ^ (150 - binary32.exponentField f.toNat) :=
      Nat.pow_le_pow_right two_pos (by omega)
    rw [if_pos (.inr h90), Nat.div_eq_of_lt (lt_of_lt_of_le (mantissaNorm_lt f) hpow)]
    exact splits_of_tiny h90
  · have hexp : (binary32.exponentField f.toNat - 150 : ℤ) =
        -(150 - binary32.exponentField f.toNat : ℕ) := by
      omega
    rw [if_neg (by omega)]
    apply splits_of_places (by omega)
    rw [magnitude_eq (by omega), hexp, zpow_neg, zpow_natCast, ← div_eq_mul_inv]
    push_cast
    rfl

theorem fsplitAbs_of_large (h : 2 ^ 64 ≤ binary32.magnitude f.toNat) : fsplitAbs f = none := by
  have hE := mt magnitude_lt_iff.mpr (not_lt.mpr h)
  rw [fsplitAbs_eq rfl, if_pos (by omega)]

end Split

/-! ## The sign -/

section Sign

open Float.Model Lib.Binary

variable {b : BitVec 32}

theorem finite_lt_zero (s : UnpackedFloat.Sign) {m : ℕ} {e : ℤ} (h : 0 < m) :
    (UnpackedFloat.finite s m e h).lt (.zero .positive) = true ↔ s = .negative := by
  cases s with
  | negative => exact iff_of_true rfl rfl
  | positive => exact iff_of_false Bool.false_ne_true fun hc => by cases hc

theorem infinity_lt_zero (s : UnpackedFloat.Sign) :
    (UnpackedFloat.infinity s).lt (.zero .positive) = true ↔ s = .negative := by
  cases s with
  | negative => exact iff_of_true rfl rfl
  | positive => exact iff_of_false Bool.false_ne_true fun hc => by cases hc

theorem ofBitVec_unpackSign (b : BitVec 32) :
    UnpackedFloat.Sign.ofBitVec (@UnpackedFloat.unpackSign Format.binary32 b) = .negative ↔
      binary32.Negative b.toNat := by
  rw [Unpacked.ofBitVec_eq_negative, Unpacked.toNat_unpackSign]
  rfl

/-- A word is below zero when its sign bit is set, and it is not zero itself; the only word for no
number has its sign bit clear. -/
theorem unpack_lt_zero (hv : Format.binary32.Valid b) :
    (UnpackedFloat.unpack Format.binary32 b).lt (.zero .positive) = true ↔
      binary32.Negative b.toNat ∧ binary32.significand b.toNat ≠ 0 := by
  have hE : (@UnpackedFloat.unpackExponent Format.binary32 b).toNat =
      binary32.exponentField b.toNat := Unpacked.toNat_unpackExponent _
  have hM : (@UnpackedFloat.unpackMantissa Format.binary32 b).toNat =
      binary32.fraction b.toNat := Unpacked.toNat_unpackMantissa _
  have hsign := ofBitVec_unpackSign b
  have hpos : binary32.exponentField b.toNat ≠ 0 → binary32.significand b.toNat ≠ 0 := fun h => by
    rw [Lib.Binary.Format.significand_of_normal h]
    exact Nat.ne_of_gt (Nat.add_pos_left (Nat.two_pow_pos _) _)
  by_cases h : @UnpackedFloat.unpackExponent Format.binary32 b = -1#_
  · have hsig := hpos (by rw [← hE, h]; decide)
    by_cases hm : @UnpackedFloat.unpackMantissa Format.binary32 b = 0#_
    · rw [Unpacked.unpack_infinity h hm, infinity_lt_zero, hsign]
      exact (and_iff_left hsig).symm
    · rw [hv.eq_packedNaN h hm]
      exact iff_of_false (by decide) (by decide)
  by_cases h0 : @UnpackedFloat.unpackExponent Format.binary32 b = 0#_
  · have hfield : binary32.exponentField b.toNat = 0 := by
      rw [← hE, h0]
      rfl
    have hsig : binary32.significand b.toNat =
        (@UnpackedFloat.unpackMantissa Format.binary32 b).toNat := by
      rw [hM]
      exact if_pos hfield
    rw [hsig]
    by_cases hm : @UnpackedFloat.unpackMantissa Format.binary32 b = 0#_
    · rw [Unpacked.unpack_zero h h0 hm, hm]
      exact iff_of_false Bool.false_ne_true fun hc => hc.2 rfl
    · have hne : (@UnpackedFloat.unpackMantissa Format.binary32 b).toNat ≠ 0 := fun hc =>
        hm (BitVec.toNat_inj.mp hc)
      rw [Unpacked.unpack_subnormal h h0 (Nat.pos_of_ne_zero hne), finite_lt_zero, hsign]
      exact (and_iff_left hne).symm
  · have hfield : binary32.exponentField b.toNat ≠ 0 := fun hc =>
      h0 (BitVec.toNat_inj.mp (hE.trans hc))
    rw [Unpacked.unpack_normal h h0, finite_lt_zero, hsign]
    exact (and_iff_left (hpos hfield)).symm

theorem lt_zero_iff (val : Float32.Model) :
    val < .ofNat 0 ↔ binary32.value val.toBits.toNat < 0 := by
  have hsig : binary32.significand val.toBits.toNat ≠ 0 ↔
      0 < binary32.magnitude val.toBits.toNat := by
    rw [Lib.Binary.Format.magnitude, mul_pos_iff_of_pos_right (by positivity), Nat.cast_pos,
      Nat.pos_iff_ne_zero]
  have hvalue : binary32.value val.toBits.toNat < 0 ↔
      binary32.Negative val.toBits.toNat ∧ binary32.significand val.toBits.toNat ≠ 0 := by
    rw [hsig, Lib.Binary.Format.value]
    split_ifs with hn
    · rw [neg_lt_zero]
      exact (and_iff_right hn).symm
    · exact iff_of_false (not_lt.mpr Lib.Binary.Format.magnitude_nonneg) fun hc => hn hc.1
  rw [hvalue]
  exact unpack_lt_zero val.valid

end Sign

/-! ## The text -/

section Text

open Lib.Binary

variable {fs : FormatSpec} {val : Float32.Model} {q caseAdj : ℕ}

/-- The first decimals of a number, of which the last one is not rounded. -/
def decimals (q : ℕ) (x : ℚ) : List Char := (Radix.fixed 10 q ⌊x * 10 ^ q⌋₊).map digit

/-- The three letters for a float that is not below 2^64. -/
def threeLetters (val : Float32.Model) : List Char :=
  if binary32.IsFinite val.toBits.toNat then ['O', 'O', 'R']
  else if binary32.fraction val.toBits.toNat = 0 then ['I', 'N', 'F']
  else ['N', 'A', 'N']

/-- A float with `q` decimals. Without any there is no point, and where there are letters the last
one is missing. -/
def floatText (fs : FormatSpec) (q : ℕ) (val : Float32.Model) : List Char :=
  let x := binary32.magnitude val.toBits.toNat
  let bare := q = 0 ∧ !fs.altForm
  let text :=
    if x < 2 ^ 64 then Nat.toDigits 10 ⌊x⌋₊ ++ if bare then [] else '.' :: decimals q x
    else letters (if bare then (threeLetters val).dropLast else threeLetters val) fs.caseAdjust
  (if binary32.value val.toBits.toNat < 0 then some '-' else fs.prepend).toList ++ text

theorem expand_of_splits {f : BitVec 32} {intPart frac : ℕ} (h : Splits f intPart frac)
    (hq : q ≤ maxFractionDecDigits) :
    (expand 10 scale q (frac * 10)).map digit = decimals q (binary32.magnitude f.toNat) := by
  rw [decimals, h.floor q hq, fixed_add_mul, expand_eq_fixed (by decide) (by decide) q h.lt]

theorem floor_of_splits {f : BitVec 32} {intPart frac : ℕ} (h : Splits f intPart frac) :
    ⌊binary32.magnitude f.toNat⌋₊ = intPart := by
  have hfloor := h.floor 0 (Nat.zero_le _)
  rwa [pow_zero, pow_zero, mul_one, mul_one, mul_one, Nat.div_eq_of_lt h.lt] at hfloor

/-- `npf_ftoa_rev` writes the integral part and, to any precision up to eight, the decimals. -/
theorem ftoaRev_spec {f : BitVec 32} (h : binary32.magnitude f.toNat < 2 ^ 64) (caseAdj : ℕ) :
    ∃ frac int : List Char, ftoaRev f caseAdj = .ok (frac ++ '.' :: int, frac.length) ∧
      int.reverse = Nat.toDigits 10 ⌊binary32.magnitude f.toNat⌋₊ ∧
      ∀ q ≤ maxFractionDecDigits,
        (frac.drop (frac.length - q)).reverse ++ List.replicate (q - frac.length) '0' =
          decimals q (binary32.magnitude f.toNat) := by
  have hE := magnitude_lt_iff.mp h
  obtain ⟨intPart, frac, hsplits, heq⟩ := fsplitAbs_spec h
  have hx : frac * 10 < 10 * scale := by
    rw [mul_comm]
    exact Nat.mul_lt_mul_of_pos_left hsplits.lt (by decide)
  obtain ⟨k, hchars, hend⟩ := fraction_chars hx
  refine ⟨_, utoaRev .decimal 0 intPart, ?_, ?_, fun q hq =>
    (decimals_eq hchars hend hq).trans (expand_of_splits hsplits hq)⟩
  · have h255 : ¬ f.toNat / 2 ^ 23 % 2 ^ 8 = 0xFF := fun hc => by
      have hfield : binary32.exponentField f.toNat = 255 := hc
      omega
    rw [ftoaRev, if_neg h255, heq]
    rfl
  · rw [utoaRev_reverse (by decide), floor_of_splits hsplits]
    rfl

theorem ftoaRev_of_large (h : ¬ binary32.magnitude val.toBits.toNat < 2 ^ 64) (caseAdj : ℕ) :
    ftoaRev val.toBits.toBitVec caseAdj = .error (letters (threeLetters val).reverse caseAdj) := by
  have hnone : fsplitAbs val.toBits.toBitVec = none := fsplitAbs_of_large (not_lt.mp h)
  unfold ftoaRev threeLetters
  by_cases hfinite : binary32.IsFinite val.toBits.toNat
  · have hne : ¬ val.toBits.toBitVec.toNat / 2 ^ 23 % 2 ^ 8 = 0xFF := hfinite
    rw [if_neg hne, if_pos hfinite, hnone]
    rfl
  · have heq : val.toBits.toBitVec.toNat / 2 ^ 23 % 2 ^ 8 = 0xFF := not_not.mp hfinite
    rw [if_pos heq, if_neg hfinite]
    by_cases h0 : binary32.fraction val.toBits.toNat = 0
    · have h0' : ¬ val.toBits.toBitVec.toNat % 2 ^ 23 ≠ 0 := not_not.mpr h0
      rw [if_neg h0', if_pos h0]
      rfl
    · have h0' : val.toBits.toBitVec.toNat % 2 ^ 23 ≠ 0 := h0
      rw [if_pos h0', if_neg h0]
      rfl

theorem signC_ofFloat (fs : FormatSpec) (val : Float32.Model) :
    (Payload.ofFloat fs val).signC =
      if binary32.value val.toBits.toNat < 0 then some '-' else fs.prepend :=
  if_congr (lt_zero_iff val) rfl rfl

section OfFloat

variable {frac int : List Char}

theorem ofFloat_eq
    (h : ftoaRev val.toBits.toBitVec fs.caseAdjust = .ok (frac ++ '.' :: int, frac.length)) :
    Payload.ofFloat fs val = { Payload.ofFtoa fs (.ok (frac ++ '.' :: int, frac.length)) with
      signC := (Payload.ofFloat fs val).signC
      zero := val == .ofNat 0 } := by
  rw [← h]
  rfl

/-- The digits past the precision are skipped. -/
theorem cbuf_ofFloat (hprec : fs.prec = q)
    (h : ftoaRev val.toBits.toBitVec fs.caseAdjust = .ok (frac ++ '.' :: int, frac.length)) :
    (Payload.ofFloat fs val).cbuf = frac.drop (frac.length - q) ++ '.' :: int ∧
      (Payload.ofFloat fs val).cbufLen = (Payload.ofFloat fs val).cbuf.length := by
  have hskip : (max 0 ((frac.length : ℤ) - fs.prec)).toNat = frac.length - q := by omega
  have hcbuf : (Payload.ofFloat fs val).cbuf = frac.drop (frac.length - q) ++ '.' :: int := by
    rw [← List.drop_append_of_le_length (by omega), ofFloat_eq h, ← hskip]
    rfl
  have hlen : (Payload.ofFloat fs val).cbufLen =
      (frac ++ '.' :: int).length - max 0 ((frac.length : ℤ) - fs.prec) := by
    rw [ofFloat_eq h]
    rfl
  refine ⟨hcbuf, ?_⟩
  rw [hlen, hcbuf, List.length_append, List.length_append, List.length_drop]
  omega

/-- Zeroes are put for the digits that there are not. -/
theorem precPad_ofFloat (hconv : fs.convSpec = .floatDec) (hprec : fs.prec = q)
    (h : ftoaRev val.toBits.toBitVec fs.caseAdjust = .ok (frac ++ '.' :: int, frac.length)) :
    (Payload.ofFloat fs val).precPad.toNat = q - frac.length := by
  have hfs : (Payload.ofFloat fs val).fs = fs := by rw [ofFloat_eq h]; rfl
  have hnan : (Payload.ofFloat fs val).infOrNan = false := by rw [ofFloat_eq h]; rfl
  have hchars : (Payload.ofFloat fs val).fracChars = frac.length := by rw [ofFloat_eq h]; rfl
  rw [Payload.precPad, hfs, hnan, hchars, hconv, hprec, if_neg (by decide), if_pos rfl]
  omega

end OfFloat

theorem render_of_lt (hconv : fs.convSpec = .floatDec) (hwidth : fs.fieldWidthOpt = .none)
    (hprec : fs.prec = q) (hq : q ≤ maxFractionDecDigits)
    (h : binary32.magnitude val.toBits.toNat < 2 ^ 64) :
    (Payload.ofFloat fs val).render = floatText fs q val := by
  obtain ⟨frac, int, hftoa, hint, hfrac⟩ := ftoaRev_spec h fs.caseAdjust
  obtain ⟨hcbuf, hlen⟩ := cbuf_ofFloat hprec hftoa
  have hfs : (Payload.ofFloat fs val).fs = fs := by rw [ofFloat_eq hftoa]; rfl
  have hnan : (Payload.ofFloat fs val).infOrNan = false := by rw [ofFloat_eq hftoa]; rfl
  have hpadC : (Payload.ofFloat fs val).padC = none :=
    Payload.padC_of_none (by rw [hfs, hwidth])
  have hdecimals := hfrac q hq
  replace hint : int.reverse = Nat.toDigits 10 ⌊binary32.magnitude val.toBits.toNat⌋₊ := hint
  rw [Payload.render_eq_body (by rw [hfs, hwidth]) (by rw [ofFloat_eq hftoa]; rfl), Payload.body,
    hpadC, hfs, hconv, hlen, hcbuf, precPad_ofFloat hconv hprec hftoa, signC_ofFloat fs val,
    hnan, hprec, floatText, ← hint]
  dsimp only
  rw [if_neg (by decide), if_pos rfl, if_neg (by simp), if_neg Bool.false_ne_true, if_pos h]
  by_cases h0 : q = 0 ∧ !fs.altForm
  · have h0' : (q : ℤ) = 0 ∧ !fs.altForm := ⟨by omega, h0.2⟩
    have hlong : ((('.' :: int).length : ℕ) - (1 : ℕ) : ℤ).toNat = int.length := by
      rw [List.length_cons]
      omega
    rw [if_pos h0', if_pos h0, h0.1, Nat.zero_sub, Nat.sub_zero, List.drop_length, List.nil_append,
      hlong, List.drop_one, List.tail_cons, List.take_length, List.replicate_zero, List.append_nil,
      List.append_nil]
  · have h0' : ¬ ((q : ℤ) = 0 ∧ !fs.altForm) := fun hc => h0 ⟨by omega, hc.2⟩
    rw [if_neg h0', if_neg h0, List.drop_zero, Nat.cast_zero, sub_zero, Int.toNat_natCast,
      List.take_length, List.reverse_append, List.reverse_cons]
    simp only [List.append_assoc, List.cons_append, hdecimals]
    rfl

theorem render_of_large (hconv : fs.convSpec = .floatDec) (hwidth : fs.fieldWidthOpt = .none)
    (hprec : fs.prec = q) (h : ¬ binary32.magnitude val.toBits.toNat < 2 ^ 64) :
    (Payload.ofFloat fs val).render = floatText fs q val := by
  have hp : Payload.ofFloat fs val =
      { Payload.ofFtoa fs (.error (letters (threeLetters val).reverse fs.caseAdjust)) with
        signC := (Payload.ofFloat fs val).signC
        zero := val == .ofNat 0 } := by
    rw [← ftoaRev_of_large h]
    rfl
  have hfs : (Payload.ofFloat fs val).fs = fs := by rw [hp]; rfl
  have hcbuf : (Payload.ofFloat fs val).cbuf =
      letters (threeLetters val).reverse fs.caseAdjust := by
    rw [hp]
    rfl
  have hlen : (Payload.ofFloat fs val).cbufLen = (Payload.ofFloat fs val).cbuf.length := by
    rw [hp]
    rfl
  have hnan : (Payload.ofFloat fs val).infOrNan = true := by rw [hp]; rfl
  have hpadC : (Payload.ofFloat fs val).padC = none :=
    Payload.padC_of_none (by rw [hfs, hwidth])
  have hletters : ∀ cs : List Char,
      (letters cs.reverse fs.caseAdjust).reverse = letters cs fs.caseAdjust := fun cs => by
    unfold letters
    rw [← List.map_reverse, List.reverse_reverse]
  rw [Payload.render_eq_body (by rw [hfs, hwidth]) (by rw [hp]; rfl), Payload.body, hpadC, hfs,
    hconv, hlen, hcbuf, signC_ofFloat fs val, hnan, hprec, floatText]
  dsimp only
  rw [if_neg (by decide), if_pos rfl, if_neg (by simp), if_pos rfl, if_neg h, List.append_nil]
  by_cases h0 : q = 0 ∧ !fs.altForm
  · have h0' : (q : ℤ) = 0 ∧ !fs.altForm := ⟨by omega, h0.2⟩
    have hdrop : (letters (threeLetters val).reverse fs.caseAdjust).drop 1 =
        letters (threeLetters val).dropLast.reverse fs.caseAdjust := by
      unfold letters
      rw [← List.map_drop, List.drop_one, List.tail_reverse]
    rw [if_pos h0', if_pos h0, hdrop, List.take_of_length_le, hletters]
    simp only [letters, List.length_map, List.length_reverse, List.length_dropLast]
    omega
  · have h0' : ¬ ((q : ℤ) = 0 ∧ !fs.altForm) := fun hc => h0 ⟨by omega, hc.2⟩
    rw [if_neg h0', if_neg h0, List.drop_zero, Nat.cast_zero, sub_zero, Int.toNat_natCast,
      List.take_length, hletters]

/-- **A float is put with its decimals**, up to eight of them, under any flags. -/
theorem render_floatText (hconv : fs.convSpec = .floatDec) (hwidth : fs.fieldWidthOpt = .none)
    (hprec : fs.prec = q) (hq : q ≤ maxFractionDecDigits) :
    (Payload.ofFloat fs val).render = floatText fs q val := by
  by_cases h : binary32.magnitude val.toBits.toNat < 2 ^ 64
  · exact render_of_lt hconv hwidth hprec hq h
  · exact render_of_large hconv hwidth hprec h

/-- **A `double` is put with its decimals**, cut off and not rounded, once it is a `float`. -/
theorem specText_floatText (m : DataModel) (hconv : fs.convSpec = .floatDec)
    (hmod : fs.lengthModifier ≠ .longDouble) (hwidth : fs.fieldWidthOpt = .none)
    (hstar : fs.precOpt ≠ .star) (hprec : fs.prec = q) (hq : q ≤ maxFractionDecDigits)
    (x : Float.Model) (args : List Vararg) :
    specText m fs (.double x :: args) = some (floatText fs q (toFloat x), args) := by
  have hw : starWidth fs (.double x :: args) = some (fs, .double x :: args) :=
    if_neg (by rw [hwidth]; decide)
  have hp : starPrec fs (.double x :: args) = some (fs, .double x :: args) := if_neg hstar
  have hc : convert m fs (.double x :: args) = some (.ofFloat fs (toFloat x), args) := by
    rw [convert, hconv]
    exact if_neg hmod
  rw [specText, hw, Option.bind_some, hp, Option.bind_some, hc, Option.map_some,
    render_floatText hconv hwidth hprec hq]

theorem specText_floatText_negative :
    specText .llp64 (.plainFloat .none) [.double (.ofBits 0xBFF8000000000000)] =
      some ("-1.500000".toList, []) :=
  have htext : floatText (.plainFloat .none) 6 (toFloat (.ofBits 0xBFF8000000000000)) =
      "-1.500000".toList := by
    decide +kernel
  htext ▸ specText_floatText .llp64 rfl (by decide) rfl (by decide) rfl (by decide) _ []

end Text

end Dpp.Npf
