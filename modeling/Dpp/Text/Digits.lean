import Dpp.Text.FormatSpec
import Mathlib.Data.List.Basic
import Mathlib.Data.BitVec
import Mathlib.Algebra.Order.Group.Int
import Mathlib.Tactic.Ring

/-!
# Numbers to digits

The conversions of nanoprintf. Each writes its characters last first; the buffer is the list of what
is written.

* `itoaRev`, `utoaRev`: integers.
* `fsplitAbs`, `ftoaRev`: floats, from their 32 bits.
* **`utoaRev_reverse`**, **`itoaRev_reverse`**: reversed, the digits of the number or of its
  absolute value.
* **`ftoaRev_cases`**: a float is written with a point, or as three letters.
-/

namespace Dpp.Npf

/-- A base for `npf_utoa_rev`. -/
structure Base where
  val : ℕ
  two_le : 2 ≤ val

namespace Base

def octal : Base := ⟨8, by decide⟩

def decimal : Base := ⟨10, by decide⟩

def hex : Base := ⟨16, by decide⟩

end Base

/-- `'0' + d`. -/
def digit (d : ℕ) : Char := Char.ofNat ('0'.toNat + d)

/-! ## Integers -/

theorem natAbs_tdiv_lt {i : ℤ} (h : i.tdiv 10 ≠ 0) : (i.tdiv 10).natAbs < i.natAbs := by
  have hi : i ≠ 0 := fun h0 => h (by rw [h0, Int.zero_tdiv])
  have hd : (i.tdiv 10).natAbs = i.natAbs / 10 := Int.natAbs_tdiv i 10
  omega

/-- The loop of `npf_itoa_rev`; `/` and `%` round towards zero. -/
def itoaLoop (sign i : ℤ) : List Char :=
  if i.tdiv 10 = 0 then [digit (sign * i.tmod 10).toNat]
  else digit (sign * i.tmod 10).toNat :: itoaLoop sign (i.tdiv 10)
termination_by i.natAbs
decreasing_by exact natAbs_tdiv_lt ‹_›

def itoaRev (i : ℤ) : List Char := itoaLoop (if 0 ≤ i then 1 else -1) i

theorem Base.div_lt {b : Base} {i : ℕ} (h : i / b.val ≠ 0) : i / b.val < i := by
  have hi : 0 < i := by
    by_contra h0
    exact h (by rw [Nat.eq_zero_of_not_pos h0, Nat.zero_div])
  exact Nat.div_lt_self hi b.two_le

/-- One digit of `npf_utoa_rev`. -/
def udigit (caseAdj d : ℕ) : Char :=
  if d < 10 then digit d else Char.ofNat ('A'.toNat + caseAdj + (d - 10))

def utoaRev (b : Base) (caseAdj i : ℕ) : List Char :=
  if i / b.val = 0 then [udigit caseAdj (i % b.val)]
  else udigit caseAdj (i % b.val) :: utoaRev b caseAdj (i / b.val)
termination_by i
decreasing_by exact Base.div_lt ‹_›

/-! ## Floats -/

def mantissaBits : ℕ := 23
def exponentBits : ℕ := 8
def exponentBias : ℕ := 127
def fractionBinDigits : ℕ := 64
def maxFractionDecDigits : ℕ := 8

/-- The zeroes at the beginning of the fraction: `frac`, below its top digit, is multiplied by ten
until there is one, and does not overflow in 64 bits. -/
def leadingZeros (frac negExp : ℕ) : ℕ × ℕ :=
  if frac ≠ 0 ∧ frac / 2 ^ (fractionBinDigits - 4) = 0 then
    leadingZeros (frac % 2 ^ (fractionBinDigits - 4) * 10) (negExp + 1)
  else (frac, negExp)
termination_by 2 ^ (fractionBinDigits - 4) - frac
decreasing_by
  rename_i h
  unfold fractionBinDigits at h ⊢
  omega

/-- The fraction in base 10; `i` digits may still be written. -/
def fracDigits (i frac fracPart : ℕ) : ℕ :=
  match i with
  | 0 => fracPart
  | i + 1 =>
    if frac = 0 then fracPart
    else fracDigits i (frac % 2 ^ (fractionBinDigits - 4) * 10)
      (fracPart * 10 + frac / 2 ^ (fractionBinDigits - 4))

/-- `npf_fsplit_abs`: the integral part, the fraction as an integer and the number of zeroes after
the point, or nothing where the value is out of range. -/
def fsplitAbs (f : BitVec 32) : Option (ℕ × ℕ × ℕ) :=
  let exponent : ℤ :=
    (f.toNat / 2 ^ mantissaBits % 2 ^ exponentBits : ℕ) - exponentBias - mantissaBits
  if 64 - mantissaBits ≤ exponent then none
  else
    let mantissaNorm := f.toNat % 2 ^ mantissaBits + 2 ^ mantissaBits
    let intPart :=
      if 0 < exponent then mantissaNorm * 2 ^ exponent.toNat
      else if exponent < 0 then
        if mantissaBits < -exponent then 0 else mantissaNorm / 2 ^ (-exponent).toNat
      else mantissaNorm
    let shift : ℤ := fractionBinDigits + exponent - 4
    let frac :=
      if fractionBinDigits - 4 ≤ shift ∨ shift < 0 then 0
      else mantissaNorm * 2 ^ shift.toNat % 2 ^ 64
    let r := leadingZeros (frac % 2 ^ (fractionBinDigits - 4) * 10) 0
    some (intPart, fracDigits maxFractionDecDigits r.1 0, r.2)

/-- `while (frac_part)`. -/
def fracRev (n : ℕ) : List Char :=
  if n = 0 then [] else digit (n % 10) :: fracRev (n / 10)
termination_by n

/-- Three letters, which are adjusted. -/
def letters (cs : List Char) (caseAdj : ℕ) : List Char :=
  cs.map fun c => Char.ofNat (c.toNat + caseAdj)

/-- `npf_ftoa_rev`: the text and the number of fractional digits; an error is the three letters
where it returns `-3`. -/
def ftoaRev (f : BitVec 32) (caseAdj : ℕ) : Except (List Char) (List Char × ℕ) :=
  if f.toNat / 2 ^ 23 % 2 ^ 8 = 0xFF then
    if f.toNat % 2 ^ 23 ≠ 0 then .error (letters ['N', 'A', 'N'] caseAdj)
    else .error (letters ['F', 'N', 'I'] caseAdj)
  else
    match fsplitAbs f with
    | none => .error (letters ['R', 'O', 'O'] caseAdj)
    | some (intPart, fracPart, negExp) =>
      let fracChars := fracRev fracPart ++ List.replicate negExp '0'
      -- the integer digits are a `do` loop on their remainders, as for an unsigned integer
      .ok (fracChars ++ '.' :: utoaRev .decimal 0 intPart, fracChars.length)

/-! ## What is written -/

theorem digit_eq_digitChar {d : ℕ} (h : d < 10) : digit d = Nat.digitChar d := by
  have hall : ∀ d < 10, digit d = Nat.digitChar d := by decide
  exact hall d h

/-- **The digits of an unsigned integer**, where they are decimal ones. -/
theorem utoaRev_reverse {b : Base} (hb : b.val ≤ 10) (caseAdj n : ℕ) :
    (utoaRev b caseAdj n).reverse = Nat.toDigits b.val n := by
  have h2 := b.two_le
  have hdig : ∀ n, udigit caseAdj (n % b.val) = Nat.digitChar (n % b.val) := fun n => by
    have hlt : n % b.val < b.val := Nat.mod_lt _ (by omega)
    unfold udigit
    rw [if_pos (by omega), digit_eq_digitChar (by omega)]
  induction n using Nat.strong_induction_on with
  | _ n ih =>
    have hz : n / b.val = 0 ↔ n < b.val := Nat.div_eq_zero_iff.trans (by omega)
    rw [utoaRev, Nat.toDigits_eq_if (by omega)]
    by_cases h : n < b.val
    · rw [if_pos (hz.mpr h), if_pos h, hdig, Nat.mod_eq_of_lt h]
      rfl
    · have hne : n / b.val ≠ 0 := mt hz.mp h
      rw [if_neg hne, if_neg h, List.reverse_cons, ih _ (Base.div_lt hne), hdig]

/-- With the sign of the number, the remainders are the digits of its absolute value. -/
theorem itoaLoop_eq {sign : ℤ} (hs : sign = 1 ∨ sign = -1) (n : ℕ) :
    itoaLoop sign (sign * n) = utoaRev .decimal 0 n := by
  have hdiv : ∀ n : ℕ, (sign * n).tdiv 10 = sign * (n / 10 : ℕ) := fun n => by
    rcases hs with rfl | rfl <;> simp [Int.neg_tdiv]
  have hmod : ∀ n : ℕ, (sign * (sign * n).tmod 10).toNat = n % 10 := fun n => by
    have hm : (n : ℤ).tmod 10 = (n % 10 : ℕ) := (Int.ofNat_tmod n 10).symm
    rcases hs with rfl | rfl <;> simp [Int.neg_tmod, hm] <;> omega
  have hzero : ∀ n : ℕ, sign * (n : ℤ) = 0 ↔ n = 0 := fun n => by
    rcases hs with rfl | rfl <;> omega
  induction n using Nat.strong_induction_on with
  | _ n ih =>
    have hd : udigit 0 (n % 10) = digit (n % 10) := if_pos (Nat.mod_lt _ (by decide))
    have hv : Base.decimal.val = 10 := rfl
    rw [itoaLoop, utoaRev, hmod, hdiv, hv]
    by_cases h : n / 10 = 0
    · rw [if_pos ((hzero _).mpr h), if_pos h, hd]
    · rw [if_neg (mt (hzero _).mp h), if_neg h, ih _ (by omega), hd]

/-- **The digits of a signed integer**, the most negative one included. -/
theorem itoaRev_reverse (i : ℤ) : (itoaRev i).reverse = Nat.toDigits 10 i.natAbs := by
  have hu : ∀ n, (utoaRev .decimal 0 n).reverse = Nat.toDigits 10 n := utoaRev_reverse (by decide) 0
  rw [← hu]
  unfold itoaRev
  split_ifs with h
  · rw [← itoaLoop_eq (.inl rfl), one_mul, Int.natAbs_of_nonneg h]
  · have hn : i = -1 * (i.natAbs : ℤ) := by omega
    rw [← itoaLoop_eq (.inr rfl), ← hn]

theorem isDigit_of_mem_fracRev {n : ℕ} {c : Char} (h : c ∈ fracRev n) : c.isDigit := by
  induction n using Nat.strong_induction_on with
  | _ n ih =>
    rw [fracRev] at h
    split_ifs at h with hn
    · exact absurd h List.not_mem_nil
    · rcases List.mem_cons.mp h with rfl | h
      · have hlt : n % 10 < 10 := Nat.mod_lt n (by decide)
        rw [digit_eq_digitChar hlt, Nat.isDigit_digitChar]
        exact decide_eq_true hlt
      · exact ih _ (by omega) h

/-- The texts for no number, for infinity and for a number out of range, last letter first. -/
def notWritten : List (List Char) := [['N', 'A', 'N'], ['F', 'N', 'I'], ['R', 'O', 'O']]

/-- **A float is written with a point** after its integral part, or it is not written. -/
theorem ftoaRev_cases (f : BitVec 32) (caseAdj : ℕ) :
    (∃ frac int : List Char, ftoaRev f caseAdj = .ok (frac ++ '.' :: int, frac.length) ∧
      (∀ c ∈ frac, c.isDigit) ∧ (∀ c ∈ int, c.isDigit)) ∨
    ∃ cs ∈ notWritten, ftoaRev f caseAdj = .error (letters cs caseAdj) := by
  unfold ftoaRev
  split_ifs
  · exact .inr ⟨_, by decide, rfl⟩
  · exact .inr ⟨_, by decide, rfl⟩
  · cases fsplitAbs f with
    | none => exact .inr ⟨_, by decide, rfl⟩
    | some r =>
      obtain ⟨intPart, fracPart, negExp⟩ := r
      refine .inl ⟨_, _, rfl, fun c hc => ?_, fun c hc => ?_⟩
      · rcases List.mem_append.mp hc with hc | hc
        · exact isDigit_of_mem_fracRev hc
        · rw [List.eq_of_mem_replicate hc]
          rfl
      · rw [← List.mem_reverse, utoaRev_reverse (by decide)] at hc
        exact Nat.isDigit_of_mem_toDigits (by decide) (by decide) hc

end Dpp.Npf
