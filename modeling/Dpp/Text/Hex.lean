import Dpp.CTypes
import Dpp.Lib.Radix
import Mathlib.Data.List.Basic

/-!
# `to_string_hex`

The loop's shift count starts at `(hex_len - 1) * 4`, for the padded length `hex_len`, and the loop
makes one iteration for each digit of the type.

* `toStringHex`: the text and the shift counts of the iterations.
* `HexRight`: the text is the padded digits, worth the bit pattern, and every shift is in range.
* **`hexRight_iff`**: so it is exactly without padding (modulo 2 ^ 62, where the count wraps).
-/

namespace Dpp

open Lib

/-- The table of `to_string_hex`. -/
def hexDigits : List Char :=
  ['0', '1', '2', '3', '4', '5', '6', '7', '8', '9', 'A', 'B', 'C', 'D', 'E', 'F']

def hexDigit (d : ℕ) : Char := hexDigits.getD d '0'

/-- `w >> j`. With a count past the width it is undefined; an x86 shift takes the count modulo the
width. -/
def shiftRight (signed : Bool) {n : ℕ} (w : BitVec n) (j : SizeT) : BitVec n :=
  if signed then w.sshiftRight (j.toNat % n) else w >>> (j.toNat % n)

/-- `digits[(w >> j) & 0x0f]`. -/
def hexChar (signed : Bool) {n : ℕ} (w : BitVec n) (j : SizeT) : Char :=
  hexDigit (shiftRight signed w j &&& 0x0f).toNat

/-- The loop of `to_string_hex` from `i` and `j` on: the string, and the counts it has shifted
by. -/
def hexLoop (signed : Bool) {n : ℕ} (w : BitVec n) (hexLen i j : SizeT) (rc : List Char) :
    List Char × List SizeT :=
  if i < hexLen then
    let r := hexLoop signed w hexLen (i + 1) (j - 4) (rc.set i.toNat (hexChar signed w j))
    (r.1, j :: r.2)
  else (rc, [])
termination_by hexLen.toNat - i.toNat
decreasing_by bv_omega

section ToStringHex

variable {m : DataModel} {t : IntType}

/-- `sizeof(T) << 1`. -/
def hexLen (m : DataModel) (t : IntType) : SizeT := BitVec.ofNat 64 (t.sizeof m) <<< 1

/-- `to_string_hex`: the text and the shift counts. -/
def toStringHex (w : t.Word m) (fillWidth : SizeT) : List Char × List SizeT :=
  let len := hexLen m t
  let n := if fillWidth < len then len else fillWidth
  hexLoop t.signed w n (n - len) ((n - 1) * 4) (List.replicate n.toNat '0')

/-! ## What is right -/

/-- The `r` lowest hexadecimal digits of `n`. -/
def hexText (r n : ℕ) : List Char := (Radix.fixed 16 r n).map hexDigit

/-- The number written by a hexadecimal text. -/
def parseHex (cs : List Char) : ℕ := Radix.value 16 (cs.map hexDigits.idxOf)

/-- `to_string_hex(w, fillWidth)` has given `r`. -/
structure HexRight (w : t.Word m) (fillWidth : SizeT) (r : List Char × List SizeT) : Prop where
  text : r.1 = List.replicate (max fillWidth.toNat (2 * t.sizeof m) - 2 * t.sizeof m) '0' ++
    hexText (2 * t.sizeof m) w.toNat
  parse : parseHex r.1 = w.toNat
  shifts : ∀ j ∈ r.2, j.toNat < 8 * t.sizeof m

end ToStringHex

/-! ## Digits -/

theorem idxOf_hexDigit {d : ℕ} (hd : d < 16) : hexDigits.idxOf (hexDigit d) = d := by
  have h : ∀ d < 16, hexDigits.idxOf (hexDigit d) = d := by decide
  exact h d hd

theorem parseHex_hexText (k r n : ℕ) :
    parseHex (List.replicate k '0' ++ hexText r n) = n % 16 ^ r := by
  have hz : hexDigits.idxOf '0' = 0 := by decide
  have hd : (hexText r n).map hexDigits.idxOf = Radix.fixed 16 r n := by
    unfold hexText
    rw [List.map_map]
    refine (List.map_congr_left fun d hd => ?_).trans (List.map_id _)
    exact idxOf_hexDigit (Radix.lt_of_mem_fixed (by decide) hd)
  unfold parseHex
  rw [List.map_append, List.map_replicate, hz, hd, Radix.value_zeroes_append, Radix.value_fixed]

theorem toNat_and_15 {n : ℕ} (hn : 4 ≤ n) (x : BitVec n) : (x &&& 0x0f).toNat = x.toNat % 16 := by
  have h15 : (0x0f : BitVec n).toNat = 2 ^ 4 - 1 := by
    have h : 2 ^ 4 ≤ 2 ^ n := Nat.pow_le_pow_right Nat.two_pos hn
    exact Nat.mod_eq_of_lt (lt_of_lt_of_le (by decide : 15 < 2 ^ 4) h)
  rw [BitVec.toNat_and, h15, Nat.and_two_pow_sub_one_eq_mod]

/-- The lowest digit of both shifts, where the sign does not reach it. -/
theorem sshiftRight_and_15 {n s : ℕ} (w : BitVec n) (hs : s + 4 ≤ n) :
    w.sshiftRight s &&& 0x0f = w >>> s &&& 0x0f := by
  apply BitVec.eq_of_getLsbD_eq
  intro i hi
  rw [BitVec.getLsbD_and, BitVec.getLsbD_and]
  by_cases h4 : i < 4
  · have hlt : s + i < n := by omega
    rw [BitVec.getLsbD_sshiftRight, BitVec.getLsbD_ushiftRight, if_pos hlt]
    have hn : ¬ n ≤ i := by omega
    simp [hn]
  · have h15 : (0x0f : BitVec n).getLsbD i = false := by
      change (BitVec.ofNat n 15).getLsbD i = false
      rw [BitVec.getLsbD_ofNat, Nat.testBit_lt_two_pow (i := i), Bool.and_false]
      exact lt_of_lt_of_le (by decide) (Nat.pow_le_pow_right Nat.two_pos (not_lt.mp h4))
    rw [h15, Bool.and_false, Bool.and_false]

/-- Within the width both shifts give the same digit. -/
theorem hexChar_eq {signed : Bool} {n r : ℕ} (w : BitVec n) {j : SizeT} (hj : j.toNat = 4 * r)
    (hr : 4 * r + 4 ≤ n) : hexChar signed w j = hexDigit (w.toNat / 16 ^ r % 16) := by
  have hm : j.toNat % n = 4 * r := by
    rw [hj]
    exact Nat.mod_eq_of_lt (by omega)
  have hs : shiftRight signed w j &&& 0x0f = w >>> (4 * r) &&& 0x0f := by
    unfold shiftRight
    rw [hm]
    split_ifs
    · exact sshiftRight_and_15 w hr
    · rfl
  unfold hexChar
  rw [hs, toNat_and_15 (by omega), BitVec.toNat_ushiftRight, Nat.shiftRight_eq_div_pow, Nat.pow_mul]

/-! ## The loop -/

section Loop

variable {signed : Bool} {n : ℕ} {w : BitVec n} {len i j : SizeT} {rc : List Char}

theorem hexLoop_of_lt (h : i < len) : hexLoop signed w len i j rc =
    ((hexLoop signed w len (i + 1) (j - 4) (rc.set i.toNat (hexChar signed w j))).1,
      j :: (hexLoop signed w len (i + 1) (j - 4) (rc.set i.toNat (hexChar signed w j))).2) := by
  rw [hexLoop, if_pos h]

theorem hexLoop_of_not_lt (h : ¬ i < len) : hexLoop signed w len i j rc = (rc, []) := by
  rw [hexLoop, if_neg h]

/-- With `r` iterations to go and the count at the `r`-th digit, the loop writes the `r` lowest
digits and every count is in range. -/
theorem hexLoop_eq {r : ℕ} (hi : i.toNat + r = len.toNat) (hj : r = 0 ∨ j.toNat + 4 = 4 * r)
    (hr : 4 * r ≤ n) (hrc : rc.length = len.toNat) :
    (hexLoop signed w len i j rc).1 = rc.take i.toNat ++ hexText r w.toNat ∧
      ∀ k ∈ (hexLoop signed w len i j rc).2, k.toNat < n := by
  induction r generalizing i j rc with
  | zero =>
    rw [hexLoop_of_not_lt (by bv_omega)]
    refine ⟨?_, fun k hk => absurd hk List.not_mem_nil⟩
    simp only
    rw [List.take_of_length_le (by omega)]
    exact (List.append_nil rc).symm
  | succ r ih =>
    have hj : j.toNat = 4 * r := by omega
    have hlt : i < len := by bv_omega
    have hsucc : (i + 1).toNat = i.toNat + 1 := by bv_omega
    have hset : (rc.set i.toNat (hexChar signed w j)).length = len.toNat := by
      rw [List.length_set, hrc]
    obtain ⟨h1, h2⟩ := ih (i := i + 1) (j := j - 4) (by omega) (by bv_omega) (by omega) hset
    rw [hexLoop_of_lt hlt]
    refine ⟨?_, fun k hk => ?_⟩
    · simp only
      rw [h1, hsucc, List.take_add_one, List.take_set_of_le (le_refl _),
        List.getElem?_set_self (by omega)]
      simp [hexText, Radix.fixed, hexChar_eq w hj (by omega)]
    · rcases List.mem_cons.mp hk with rfl | hk
      · omega
      · exact h2 k hk

/-- The count of the `k`-th iteration. -/
theorem mem_hexLoop {k : ℕ} (hk : i.toNat + k < len.toNat) :
    j - BitVec.ofNat 64 (4 * k) ∈ (hexLoop signed w len i j rc).2 := by
  induction k generalizing i j rc with
  | zero =>
    rw [hexLoop_of_lt (by bv_omega)]
    simp
  | succ k ih =>
    have hlt : i < len := by bv_omega
    have hs : j - BitVec.ofNat 64 (4 * (k + 1)) = j - 4 - BitVec.ofNat 64 (4 * k) := by bv_omega
    rw [hexLoop_of_lt hlt, hs]
    exact List.mem_cons_of_mem _ (ih (by bv_omega))

end Loop

/-! ## When the text is right -/

section ToStringHex

variable {m : DataModel} {t : IntType}

/-- The first count, which may wrap. -/
theorem toNat_sub_one_mul_four {n : SizeT} (h : 0 < n.toNat) :
    ((n - 1) * 4).toNat = 4 * ((n.toNat - 1) % 2 ^ 62) := by
  have h1 : (n - 1).toNat = n.toNat - 1 := by bv_omega
  have h4 : ((n - 1) * 4).toNat = (n - 1).toNat * 4 % 2 ^ 64 := BitVec.toNat_mul _ _
  rw [h4, h1]
  omega

theorem hexLen_toNat (m : DataModel) (t : IntType) : (hexLen m t).toNat = 2 * t.sizeof m := by
  unfold hexLen
  rcases t.sizeof_eq m with h | h <;> rw [h] <;> rfl

/-- The length of the text. -/
theorem toNat_padded (fillWidth : SizeT) :
    (if fillWidth < hexLen m t then hexLen m t else fillWidth).toNat =
      max fillWidth.toNat (2 * t.sizeof m) := by
  have hl := hexLen_toNat m t
  split_ifs with h
  · rw [hl, max_eq_right]
    bv_omega
  · rw [max_eq_left]
    bv_omega

/-- Where the first count is at the first digit of the type, everything is right. -/
theorem hexRight_of_mod (w : t.Word m) {fillWidth : SizeT}
    (h : max fillWidth.toNat (2 * t.sizeof m) % 2 ^ 62 = 2 * t.sizeof m) :
    HexRight w fillWidth (toStringHex w fillWidth) := by
  have hl := hexLen_toNat m t
  have hn := toNat_padded (m := m) (t := t) fillWidth
  have hb : t.bits m = 4 * (2 * t.sizeof m) := by
    unfold IntType.bits
    omega
  have hs := t.sizeof_eq m
  generalize hN : (if fillWidth < hexLen m t then hexLen m t else fillWidth) = n at hn
  have hle : 2 * t.sizeof m ≤ n.toNat := hn ▸ le_max_right _ _
  have hi : (n - hexLen m t).toNat = n.toNat - 2 * t.sizeof m := by bv_omega
  have hj : ((n - 1) * 4).toNat + 4 = 4 * (2 * t.sizeof m) := by
    rw [← hn] at h
    have := toNat_sub_one_mul_four (n := n) (by omega)
    omega
  have hlen : (List.replicate n.toNat '0').length = n.toNat := List.length_replicate
  obtain ⟨h1, h2⟩ : (hexLoop t.signed w n (n - hexLen m t) ((n - 1) * 4) _).1 = _ ∧ _ :=
    hexLoop_eq (r := 2 * t.sizeof m) (by omega) (.inr hj) hb.ge hlen
  have ht : (toStringHex w fillWidth).1 =
      List.replicate (max fillWidth.toNat (2 * t.sizeof m) - 2 * t.sizeof m) '0' ++
        hexText (2 * t.sizeof m) w.toNat := by
    unfold toStringHex
    simp only [hN]
    rw [h1, hi, List.take_replicate, hn, min_eq_left (Nat.sub_le _ _)]
  refine ⟨ht, ?_, ?_⟩
  · have hw : w.toNat < 16 ^ (2 * t.sizeof m) :=
      lt_of_lt_of_eq w.isLt (by rw [hb, Nat.pow_mul])
    rw [ht, parseHex_hexText, Nat.mod_eq_of_lt hw]
  · unfold toStringHex
    simp only [hN]
    exact h2

/-- **`to_string_hex` is right exactly if** no padding is asked for, or a multiple of 2 ^ 62
characters of it. -/
theorem hexRight_iff (w : t.Word m) (fillWidth : SizeT) :
    HexRight w fillWidth (toStringHex w fillWidth) ↔
      fillWidth.toNat ≤ 2 * t.sizeof m ∨ fillWidth.toNat % 2 ^ 62 = 2 * t.sizeof m := by
  have hs := t.sizeof_eq m
  constructor
  · intro h
    by_contra hn
    obtain ⟨hlt, hne⟩ := not_or.mp hn
    have hl := hexLen_toNat m t
    have hf : ¬ fillWidth < hexLen m t := by bv_omega
    have hsh := h.shifts
    unfold toStringHex at hsh
    simp only [if_neg hf] at hsh
    have hi : (fillWidth - hexLen m t).toNat = fillWidth.toNat - 2 * t.sizeof m := by bv_omega
    have hj : ((fillWidth - 1) * 4).toNat = 4 * ((fillWidth.toNat - 1) % 2 ^ 62) := by
      exact toNat_sub_one_mul_four (by omega)
    -- the first count is in range, so it is below the first digit
    have h0 := hsh _ (mem_hexLoop (k := 0) (by omega))
    -- and then a later one is below zero
    have h1 := hsh _ (mem_hexLoop (k := (fillWidth.toNat - 1) % 2 ^ 62 + 1) (by bv_omega))
    bv_omega
  · intro h
    refine hexRight_of_mod w ?_
    rcases h with h | h
    · rw [max_eq_right h]
      exact Nat.mod_eq_of_lt (by omega)
    · rw [max_eq_left]
      · exact h
      · rw [← h]
        exact Nat.mod_le _ _

/-- An `int` in nine characters is shifted by its width. -/
theorem not_hexRight_nine : ¬ HexRight (m := .llp64) (t := ⟨.int, true⟩) (BitVec.ofNat 32 0x12345678)
    9 (toStringHex (m := .llp64) (t := ⟨.int, true⟩) (BitVec.ofNat 32 0x12345678) 9) := by
  intro h
  have h32 := h.shifts 32 (mem_hexLoop (k := 0) (by decide))
  exact absurd h32 (by decide)

end ToStringHex

end Dpp
