import Dpp.Text.Decimals

/-!
# The buffer of a conversion

Every argument but a string is converted into `cbuf_mem`, 32 bytes on the stack of
`npf_vpprintf`.

* `cbufMem`: what a conversion writes there.
* `InBuffer`; **`cbufMem_inBuffer`**: it never writes more than 28 bytes, and what is read again
  lies in what was written.
-/

namespace Dpp.Npf

open Lib Lib.Fraction Lib.Binary

/-- `ftoaRev` as it is in the buffer. -/
def ftoaText (fs : FormatSpec) (val : Float32.Model) : List Char :=
  match ftoaRev val.toBits.toBitVec fs.caseAdjust with
  | .ok r => r.1
  | .error text => text

/-- What a conversion writes to `cbuf_mem`. A string stays where it is. -/
def cbufMem (m : DataModel) (fs : FormatSpec) (args : List Vararg) : Option (List Char) :=
  match fs.convSpec with
  | .string => (convert m fs args).map fun _ => []
  | .floatDec | .floatSci | .floatShortest | .floatHex =>
      if fs.lengthModifier = .longDouble then none
      else (vaDouble args).map fun r => ftoaText fs (toFloat r.1)
  | _ => (convert m fs args).map fun r => r.1.cbuf

/-! ## Integers -/

section Integers

variable {k n : ℕ} {args rest : List Vararg} {α : Type}

theorem length_utoaRev {b : Base} (hn : n < b.val ^ k) (hk : 0 < k) (caseAdj : ℕ) :
    (utoaRev b caseAdj n).length ≤ k := by
  induction k generalizing n with
  | zero => exact absurd hk (lt_irrefl 0)
  | succ k ih =>
    rw [utoaRev]
    split_ifs with h
    · exact Nat.le_add_left 1 k
    · have hdiv : n / b.val < b.val ^ k := by
        rw [pow_succ'] at hn
        exact Nat.div_lt_of_lt_mul hn
      have hk' : 0 < k := Nat.pos_of_ne_zero fun h0 => h (by
        rw [h0, pow_zero] at hdiv
        exact Nat.lt_one_iff.mp hdiv)
      exact Nat.succ_le_succ (ih hdiv hk')

theorem length_itoaRev {i : ℤ} (hi : i.natAbs < 10 ^ k) (hk : 0 < k) : (itoaRev i).length ≤ k := by
  have hsame : (itoaRev i).reverse = (utoaRev .decimal 0 i.natAbs).reverse := by
    rw [itoaRev_reverse, utoaRev_reverse (by decide)]
    rfl
  rw [← List.length_reverse, hsame, List.length_reverse]
  exact length_utoaRev (b := .decimal) hi hk 0

theorem extract_eq_some (cast : BitVec n → α) {v : α} (h : extract n cast args = some (v, rest)) :
    ∃ w, v = cast w := by
  unfold extract at h
  obtain ⟨r, -, hr⟩ := Option.map_eq_some_iff.mp h
  exact ⟨r.1, (congrArg Prod.fst hr).symm⟩

theorem natAbs_toInt_le {w : BitVec n} (hn : n ≤ 64) : w.toInt.natAbs ≤ 2 ^ 63 := by
  have hpow : (2 : ℤ) ^ (n - 1) ≤ 2 ^ 63 := pow_le_pow_right₀ (by decide) (by omega)
  have hlt : w.toInt < 2 ^ (n - 1) := BitVec.toInt_lt
  have hle : -2 ^ (n - 1) ≤ w.toInt := BitVec.le_toInt w
  omega

theorem toNat_lt_of_le {w : BitVec n} (hn : n ≤ 64) : w.toNat < 2 ^ 64 :=
  lt_of_lt_of_le w.isLt (Nat.pow_le_pow_right two_pos hn)

theorem longBits_le (m : DataModel) : longBits m ≤ 64 := by
  cases m <;> decide

/-- An argument of a signed type is a word of 64 bits at most. -/
theorem signedArg_word_of_some {m : DataModel} {mod : LengthModifier} {v : ℤ}
    (h : signedArg m args mod = some (v, rest)) : ∃ n ≤ 64, ∃ w : BitVec n, v = w.toInt := by
  cases mod with
  | none | longDouble => exact ⟨32, by decide, extract_eq_some BitVec.toInt h⟩
  | short =>
    obtain ⟨w, hw⟩ := extract_eq_some (fun w : BitVec 32 => (w.setWidth 16).toInt) h
    exact ⟨16, by decide, w.setWidth 16, hw⟩
  | char =>
    obtain ⟨w, hw⟩ := extract_eq_some (fun w : BitVec 32 => (w.setWidth 8).toInt) h
    exact ⟨8, by decide, w.setWidth 8, hw⟩
  | long => exact ⟨longBits m, longBits_le m, extract_eq_some BitVec.toInt h⟩
  | largeLongLong | largeIntmax | largeSizet | largePtrdifft =>
    exact ⟨64, le_rfl, extract_eq_some BitVec.toInt h⟩

theorem signedArg_le {m : DataModel} {mod : LengthModifier} {v : ℤ}
    (h : signedArg m args mod = some (v, rest)) : v.natAbs ≤ 2 ^ 63 := by
  obtain ⟨n, hn, w, rfl⟩ := signedArg_word_of_some h
  exact natAbs_toInt_le hn

theorem unsignedArg_word_of_some {m : DataModel} {mod : LengthModifier} {v : ℕ}
    (h : unsignedArg m args mod = some (v, rest)) : ∃ n ≤ 64, ∃ w : BitVec n, v = w.toNat := by
  cases mod with
  | none | longDouble => exact ⟨32, by decide, extract_eq_some BitVec.toNat h⟩
  | short =>
    obtain ⟨w, hw⟩ := extract_eq_some (fun w : BitVec 32 => (w.setWidth 16).toNat) h
    exact ⟨16, by decide, w.setWidth 16, hw⟩
  | char =>
    obtain ⟨w, hw⟩ := extract_eq_some (fun w : BitVec 32 => (w.setWidth 8).toNat) h
    exact ⟨8, by decide, w.setWidth 8, hw⟩
  | long => exact ⟨longBits m, longBits_le m, extract_eq_some BitVec.toNat h⟩
  | largeLongLong | largeIntmax | largeSizet | largePtrdifft =>
    exact ⟨64, le_rfl, extract_eq_some BitVec.toNat h⟩

theorem unsignedArg_lt {m : DataModel} {mod : LengthModifier} {v : ℕ}
    (h : unsignedArg m args mod = some (v, rest)) : v < 2 ^ 64 := by
  obtain ⟨n, hn, w, rfl⟩ := unsignedArg_word_of_some h
  exact toNat_lt_of_le hn

theorem length_ofSigned (fs : FormatSpec) {val : ℤ} (h : val.natAbs ≤ 2 ^ 63) :
    (Payload.ofSigned fs val).cbuf.length ≤ 28 := by
  have hlen : (itoaRev val).length ≤ 19 := length_itoaRev (lt_of_le_of_lt h (by decide)) (by decide)
  show (if val = 0 ∧ fs.precOpt = .literal ∧ fs.prec = 0 then [] else itoaRev val).length ≤ 28
  split_ifs
  · exact Nat.zero_le 28
  · omega

/-- An octal number has one digit more for its alternative form. -/
theorem length_ofUnsigned (fs : FormatSpec) {val : ℕ} (h : val < 2 ^ 64) :
    (Payload.ofUnsigned fs val).cbuf.length ≤ 28 := by
  obtain ⟨base, hbase, hpow⟩ : ∃ base : Base, (if fs.convSpec = .octal then Base.octal
      else if fs.convSpec = .hexInt then Base.hex else Base.decimal) = base ∧
      2 ^ 64 ≤ base.val ^ 22 := by
    refine ⟨_, rfl, ?_⟩
    split_ifs <;> decide
  have hlen : (utoaRev base fs.caseAdjust val).length ≤ 22 :=
    length_utoaRev (lt_of_lt_of_le h hpow) (by decide) _
  have hskip : (if val = 0 ∧ fs.precOpt = .literal ∧ fs.prec = 0 then []
      else utoaRev base fs.caseAdjust val).length ≤ 22 := by
    split_ifs
    · exact Nat.zero_le 22
    · exact hlen
  unfold Payload.ofUnsigned Payload.ofText
  dsimp only
  rw [hbase]
  by_cases halt : (val ≠ 0 ∧ fs.altForm) ∧ fs.convSpec = .octal
  · rw [if_pos halt, List.length_append]
    exact Nat.add_le_add hskip (by decide : ['0'].length ≤ 6)
  · rw [if_neg halt]
    omega

theorem cbufLen_ofUnsigned (fs : FormatSpec) (val : ℕ) :
    (Payload.ofUnsigned fs val).cbufLen = (Payload.ofUnsigned fs val).cbuf.length := rfl

end Integers

/-! ## Floats -/

section Floats

variable {f : BitVec 32} {E x : ℕ}

/-- Eight digits are taken at most. -/
theorem length_fracRev_le (hx : x < 10 * scale) :
    (fracRev (fracDigits maxFractionDecDigits x 0)).length ≤ 8 := by
  obtain ⟨k, hk, heq, -, -⟩ := fracDigits_spec maxFractionDecDigits x 0
  have hlt : Nat.ofDigits 10 (expand 10 scale k x).reverse < 10 ^ 8 := by
    have hdigits := Nat.ofDigits_lt_base_pow_length (b := 10) (l := (expand 10 scale k x).reverse)
      (by decide) fun d hd => lt_of_mem_expand hx (List.mem_reverse.mp hd)
    rw [List.length_reverse, length_expand] at hdigits
    exact lt_of_lt_of_le hdigits (Nat.pow_le_pow_right (by decide) hk)
  rw [fracRev_eq, List.length_map, Nat.digits_length_le_iff (by decide), heq, zero_mul, zero_add]
  exact hlt

theorem rest_lt {n : ℕ} (hx : x < 10 * scale) : rest 10 scale n x < 10 * scale := by
  induction n generalizing x with
  | zero => exact hx
  | succ n ih =>
    have hmod : x % scale < scale := Nat.mod_lt _ (by decide)
    exact ih (by omega)

/-- The zeroes after the point are no more than a fraction of this size has. -/
theorem leadingZeros_lt {r : ℕ} (hr : r < scale) :
    10 ^ (leadingZeros (r * 10) 0).2 * r < scale ∧
      (leadingZeros (r * 10) 0).1 < 10 * scale := by
  obtain ⟨z, hlead, hzeroes, -⟩ := leadingZeros_spec (r * 10) 0
  have hdigits := expand_eq_fixed (b := 10) (by decide) (show 0 < scale by decide) z hr
  have hvalue : r * 10 ^ z / scale % 10 ^ z = 0 := by
    rw [← Radix.value_fixed, ← hdigits, hzeroes, Radix.value_replicate_zero]
  have hlt : r * 10 ^ z / scale < 10 ^ z := by
    rw [Nat.div_lt_iff_lt_mul (by decide), mul_comm]
    exact Nat.mul_lt_mul_of_pos_left hr (by positivity)
  rw [Nat.mod_eq_of_lt hlt, Nat.div_eq_zero_iff] at hvalue
  rw [hlead, zero_add, mul_comm]
  refine ⟨hvalue.resolve_left (by decide), rest_lt ?_⟩
  omega

/-- What `npf_ftoa_rev` writes for a float that is separated. -/
theorem length_splitText {intPart r a b : ℕ} (hr : r < scale) (ha : 0 < a)
    (hint : intPart < 10 ^ a) (hz : (leadingZeros (r * 10) 0).2 ≤ b) :
    (fracRev (splitText intPart r).2.1 ++ List.replicate (splitText intPart r).2.2 '0' ++
      '.' :: utoaRev .decimal 0 intPart).length ≤ 8 + b + 1 + a := by
  have hfrac := length_fracRev_le (leadingZeros_lt hr).2
  have hutoa := length_utoaRev (b := .decimal) hint ha 0
  rw [List.length_append, List.length_append, List.length_replicate, List.length_cons]
  unfold splitText
  dsimp only
  omega

/-- Without a fraction there is nothing but the point after the integral part. -/
theorem length_splitText_zero {intPart : ℕ} (hint : intPart < 2 ^ 64) :
    (fracRev (splitText intPart 0).2.1 ++ List.replicate (splitText intPart 0).2.2 '0' ++
      '.' :: utoaRev .decimal 0 intPart).length ≤ 28 := by
  have hzeroes : leadingZeros (0 * 10) 0 = (0, 0) := by
    rw [leadingZeros, if_neg (by decide)]
  have hsplit : splitText intPart 0 = (intPart, 0, 0) := by
    rw [splitText, hzeroes]
    rfl
  have hutoa := length_utoaRev (b := .decimal) (k := 20) (lt_trans hint (by decide)) (by decide) 0
  have hfrac : fracRev 0 = [] := by rw [fracRev, if_pos rfl]
  rw [hsplit, List.length_append, List.length_append, List.length_cons, hfrac]
  simp only [List.length_nil, List.length_replicate]
  omega

/-- A fraction with `k` binary places has less than `k` decimal zeroes after the point. -/
theorem length_splitText_places {k : ℕ} (hk : k ≤ 60) (f : BitVec 32) :
    (fracRev (splitText (mantissaNorm f / 2 ^ k) (mantissaNorm f * 2 ^ (60 - k) % scale)).2.1 ++
      List.replicate
        (splitText (mantissaNorm f / 2 ^ k) (mantissaNorm f * 2 ^ (60 - k) % scale)).2.2 '0' ++
      '.' :: utoaRev .decimal 0 (mantissaNorm f / 2 ^ k)).length ≤ 28 := by
  have hM := mantissaNorm_lt f
  have hint : mantissaNorm f / 2 ^ k ≤ mantissaNorm f := Nat.div_le_self _ _
  have hr : mantissaNorm f * 2 ^ (60 - k) % scale < scale := Nat.mod_lt _ (by decide)
  rcases Nat.eq_zero_or_pos (mantissaNorm f * 2 ^ (60 - k) % scale) with h0 | h0
  · rw [h0]
    exact length_splitText_zero (by omega)
  · have hdvd : 2 ^ (60 - k) ∣ mantissaNorm f * 2 ^ (60 - k) % scale :=
      (Nat.dvd_mod_iff (pow_dvd_pow 2 (Nat.sub_le 60 k))).mpr (Nat.dvd_mul_left _ _)
    have hzeroes :
        10 ^ (leadingZeros (mantissaNorm f * 2 ^ (60 - k) % scale * 10) 0).2 < 2 ^ k := by
      have hlt := (leadingZeros_lt hr).1
      have hscale : scale = 2 ^ k * 2 ^ (60 - k) := by
        rw [← pow_add, Nat.add_sub_cancel' hk]
        rfl
      have hle := Nat.le_of_dvd h0 hdvd
      replace hlt := hlt.trans_eq hscale
      exact Nat.lt_of_mul_lt_mul_right ((Nat.mul_le_mul_left _ hle).trans_lt hlt)
    by_cases hk24 : k ≤ 24
    · have hpow : 10 ^ (leadingZeros (mantissaNorm f * 2 ^ (60 - k) % scale * 10) 0).2 < 10 ^ 8 :=
        hzeroes.trans (lt_of_le_of_lt (Nat.pow_le_pow_right two_pos hk24) (by decide))
      have hz := (Nat.pow_lt_pow_iff_right (by decide)).mp hpow
      exact (length_splitText (a := 8) (b := 7) hr (by decide) (by omega) (by omega)).trans
        (by decide)
    · have hpow : 10 ^ (leadingZeros (mantissaNorm f * 2 ^ (60 - k) % scale * 10) 0).2 < 10 ^ 19 :=
        hzeroes.trans (lt_of_le_of_lt (Nat.pow_le_pow_right two_pos hk) (by decide))
      have hz := (Nat.pow_lt_pow_iff_right (by decide)).mp hpow
      have hpow24 : 2 ^ 24 ≤ 2 ^ k := Nat.pow_le_pow_right two_pos (by omega)
      have hzero : mantissaNorm f / 2 ^ k = 0 := Nat.div_eq_of_lt (lt_of_lt_of_le hM hpow24)
      rw [hzero]
      exact length_splitText (a := 1) (b := 18) hr (by decide) (by decide) (by omega)

theorem ftoaText_of_split {val : Float32.Model} {r : ℕ × ℕ × ℕ} (fs : FormatSpec)
    (h : binary32.IsFinite val.toBits.toNat) (hr : fsplitAbs val.toBits.toBitVec = some r) :
    ftoaText fs val =
      fracRev r.2.1 ++ List.replicate r.2.2 '0' ++ '.' :: utoaRev .decimal 0 r.1 := by
  have h255 : ¬ val.toBits.toBitVec.toNat / 2 ^ 23 % 2 ^ 8 = 0xFF := h
  rw [ftoaText, ftoaRev, if_neg h255, hr]

theorem length_ftoaText (fs : FormatSpec) (val : Float32.Model) :
    (ftoaText fs val).length ≤ 28 := by
  by_cases h : binary32.magnitude val.toBits.toNat < 2 ^ 64
  · have hE : binary32.exponentField val.toBits.toBitVec.toNat < 191 := magnitude_lt_iff.mp h
    have hfinite : binary32.IsFinite val.toBits.toNat := ne_of_lt (hE.trans (by decide))
    have heq := (fsplitAbs_eq (f := val.toBits.toBitVec) rfl).trans (if_neg (by omega))
    have hM := mantissaNorm_lt val.toBits.toBitVec
    rw [ftoaText_of_split fs hfinite heq]
    by_cases h150 : 150 ≤ binary32.exponentField val.toBits.toBitVec.toNat
    · have hint : mantissaNorm val.toBits.toBitVec *
          2 ^ (binary32.exponentField val.toBits.toBitVec.toNat - 150) < 2 ^ 64 := by
        have hpow : 2 ^ (binary32.exponentField val.toBits.toBitVec.toNat - 150) ≤ 2 ^ 40 :=
          Nat.pow_le_pow_right two_pos (by omega)
        calc _ < 2 ^ 24 * 2 ^ (binary32.exponentField val.toBits.toBitVec.toNat - 150) :=
              Nat.mul_lt_mul_of_pos_right hM (Nat.two_pow_pos _)
          _ ≤ 2 ^ 24 * 2 ^ 40 := Nat.mul_le_mul_left _ hpow
          _ = 2 ^ 64 := by norm_num
      rw [if_pos h150, if_pos (.inl h150)]
      exact length_splitText_zero hint
    rw [if_neg h150]
    by_cases h90 : binary32.exponentField val.toBits.toBitVec.toNat < 90
    · have hint : mantissaNorm val.toBits.toBitVec /
          2 ^ (150 - binary32.exponentField val.toBits.toBitVec.toNat) ≤
          mantissaNorm val.toBits.toBitVec := Nat.div_le_self _ _
      rw [if_pos (.inr h90)]
      exact length_splitText_zero (by omega)
    · rw [if_neg (by omega)]
      exact length_splitText_places (by omega) _
  · rw [ftoaText, ftoaRev_of_large h]
    show (letters (threeLetters val).reverse fs.caseAdjust).length ≤ 28
    have hlen : (threeLetters val).length = 3 := by
      unfold threeLetters
      split_ifs <;> rfl
    rw [letters, List.length_map, List.length_reverse, hlen]
    decide

end Floats

/-! ## Every conversion -/

/-- The payload lies in what was written, from `k` on; the loop that puts it reads nothing else,
and nothing at all where its length is negative. -/
structure InBuffer (mem : List Char) (p : Payload) (k : ℕ) : Prop where
  written : mem.length ≤ 28
  cbuf : p.cbuf = mem.drop k
  cbufLen : p.cbufLen = mem.length - k

theorem inBuffer_self {p : Payload} (hlen : p.cbufLen = p.cbuf.length)
    (h : p.cbuf.length ≤ 28) : InBuffer p.cbuf p 0 :=
  ⟨h, rfl, by rw [hlen, Nat.cast_zero, sub_zero]⟩

/-- The digits past the precision are left, and with a negative precision more than these. -/
theorem ofFloat_inBuffer (fs : FormatSpec) (val : Float32.Model) :
    ∃ k, InBuffer (ftoaText fs val) (Payload.ofFloat fs val) k := by
  have hlen := length_ftoaText fs val
  have hp : Payload.ofFloat fs val =
      { Payload.ofFtoa fs (ftoaRev val.toBits.toBitVec fs.caseAdjust) with
        signC := if val < .ofNat 0 then some '-' else fs.prepend
        zero := val == .ofNat 0 } := rfl
  unfold ftoaText at hlen ⊢
  rw [hp]
  generalize ftoaRev val.toBits.toBitVec fs.caseAdjust = r at hlen ⊢
  cases r with
  | error text => exact ⟨0, hlen, rfl, (sub_zero (text.length : ℤ)).symm⟩
  | ok r =>
    refine ⟨(max 0 (r.2 - fs.prec)).toNat, hlen, rfl, ?_⟩
    show (r.1.length : ℤ) - max 0 (r.2 - fs.prec) = _
    rw [Int.toNat_of_nonneg (le_max_left 0 _)]

end Dpp.Npf
