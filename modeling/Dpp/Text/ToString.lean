import Dpp.Text.Printf

/-!
# `to_string`

Each overload prints twice: to measure, and into a zeroed array of one byte more, whose size is
given as the length of the text.

* `toString`: the integer overloads, with their formats; `toStringFloat`, `toStringDouble`.
* **`toString_eq`**: an integer becomes its decimal.
* **`toString_exact`**: so do both passes, and no two values of a type have one text.
-/

namespace Dpp

open Npf Lib.Decimal

/-- The format of an integer overload. -/
def IntType.format (t : IntType) : String :=
  match t.rank, t.signed with
  | .int, true => "%d"
  | .long, true => "%ld"
  | .longLong, true => "%lld"
  | .int, false => "%u"
  | .long, false => "%lu"
  | .longLong, false => "%llu"

/-- `npf_snprintf(nullptr, 0, format, value)`. -/
def measure (m : DataModel) (format : String) (value : Vararg) : Option (ℕ × List Char) :=
  vsnprintf m none 0 format.toList [value]

/-- `npf_snprintf(result, nbytes, format, value)`, for `char result[nbytes + 1] = {}`. -/
def write (m : DataModel) (nbytes : ℕ) (format : String) (value : Vararg) :
    Option (ℕ × List Char) :=
  vsnprintf m (some (List.replicate (nbytes + 1) '\x00')) nbytes format.toList [value]

/-- The body of the overloads. The array is returned as a C string. -/
def toStringWith (m : DataModel) (format : String) (value : Vararg) : Option (List Char) :=
  (measure m format value).bind fun r =>
    if 0 < r.1 then (write m r.1 format value).map fun r => r.2.takeWhile (· ≠ '\x00')
    else some []

section ToString

variable {m : DataModel} {t : IntType}

/-- `to_string` of an integer. -/
def toString (value : t.Word m) : Option (List Char) :=
  toStringWith m t.format (.word (t.bits m) value)

def toStringFloat (m : DataModel) (value : Float32.Model) : Option (List Char) :=
  toStringWith m "%f" (.double (toDouble value))

def toStringDouble (m : DataModel) (value : Float.Model) : Option (List Char) :=
  toStringWith m "%lf" (.double value)

/-! ## The two passes -/

section Passes

variable {format : String} {value : Vararg} {out : List Char}

theorem measure_eq (h : output m format.toList [value] = some out) :
    measure m format value = some (out.length, []) := by
  unfold measure
  rw [vsnprintf_null, h]
  rfl

/-- The size leaves no room for the NUL, but the array has one after the text. -/
theorem write_eq (h : output m format.toList [value] = some out) :
    write m out.length format value = some (out.length, out ++ ['\x00']) := by
  unfold write
  rw [vsnprintf_buffer m (by rw [List.length_replicate]; omega), h]
  simp

/-- A text without NULs is returned as it is put. -/
theorem toStringWith_eq (h : output m format.toList [value] = some out) (h0 : '\x00' ∉ out) :
    toStringWith m format value = some out := by
  have htake : (out ++ ['\x00']).takeWhile (· ≠ '\x00') = out := by
    have hne : ∀ c ∈ out, decide (c ≠ '\x00') = true := fun c hc =>
      decide_eq_true fun h => h0 (h ▸ hc)
    rw [List.takeWhile_append_of_pos hne]
    exact List.append_nil out
  unfold toStringWith
  rw [measure_eq h, Option.bind_some]
  split_ifs with hn
  · rw [write_eq h, Option.map_some, htake]
  · rw [List.eq_nil_of_length_eq_zero (Nat.eq_zero_of_not_pos hn)]

end Passes

/-! ## Integers -/

def IntType.lengthModifier (t : IntType) : LengthModifier :=
  match t.rank with
  | .int => .none
  | .long => .long
  | .longLong => .largeLongLong

theorem specAt_format (t : IntType) : specAt t.format.toList = some (.plain t.lengthModifier
    (if t.signed then .signedInt else .unsignedInt), []) := by
  obtain ⟨rank, signed⟩ := t
  cases rank <;> cases signed <;> rfl

theorem extract_word {α : Type} {n : ℕ} (cast : BitVec n → α) (w : BitVec n) :
    extract n cast [.word n w] = some (cast w, []) := by
  have hw : vaWord n [.word n w] = some (w, []) := by
    rw [vaWord, if_pos rfl, BitVec.setWidth_eq]
  unfold extract
  rw [hw]
  rfl

theorem signedArg_word (value : t.Word m) :
    signedArg m [.word (t.bits m) value] t.lengthModifier = some (BitVec.toInt value, []) := by
  obtain ⟨rank, signed⟩ := t
  cases rank <;> exact extract_word BitVec.toInt value

theorem unsignedArg_word (value : t.Word m) :
    unsignedArg m [.word (t.bits m) value] t.lengthModifier = some (BitVec.toNat value, []) := by
  obtain ⟨rank, signed⟩ := t
  cases rank <;> exact extract_word BitVec.toNat value

/-- A format that is one specification. -/
theorem output_spec {format : List Char} {fs : FormatSpec} {args args' : List Vararg}
    {text : List Char} (h : specAt format = some (fs, []))
    (ht : specText m fs args = some (text, args')) : output m format args = some text := by
  cases format with
  | nil => exact absurd h.symm (Option.some_ne_none _)
  | cons c cur =>
    rw [output_of_some h, ht, Option.bind_some, output]
    exact congrArg some (List.append_nil text)

theorem specText_signed (mod : LengthModifier) (args : List Vararg) :
    specText m (.plain mod .signedInt) args =
      (signedArg m args mod).map fun r => (decimal r.1, r.2) := by
  change ((signedArg m args mod).map fun r => (Payload.ofSigned _ r.1, r.2)).map _ = _
  rw [Option.map_map]
  congr 1
  funext r
  exact congrArg (·, r.2) (Payload.render_ofSigned mod r.1)

theorem specText_unsigned (mod : LengthModifier) (args : List Vararg) :
    specText m (.plain mod .unsignedInt) args =
      (unsignedArg m args mod).map fun r => (decimal r.1, r.2) := by
  change ((unsignedArg m args mod).map fun r => (Payload.ofUnsigned _ r.1, r.2)).map _ = _
  rw [Option.map_map]
  congr 1
  funext r
  exact congrArg (·, r.2) (Payload.render_ofUnsigned mod r.1)

theorem output_word (value : t.Word m) :
    output m t.format.toList [.word (t.bits m) value] = some (decimal (IntType.toInt value)) := by
  have hs := signedArg_word value
  have hu := unsignedArg_word value
  refine output_spec (specAt_format t) (?_ : _ = some (_, []))
  unfold IntType.toInt
  split_ifs
  · rw [specText_signed, hs]
    rfl
  · rw [specText_unsigned, hu]
    rfl

theorem nul_not_mem_decimal (z : ℤ) : '\x00' ∉ decimal z := fun h => by
  rcases mem_decimal h with h | h
  · exact absurd h (by decide)
  · exact absurd h (by decide)

/-- **`to_string` of an integer is its decimal**. -/
theorem toString_eq (value : t.Word m) : toString value = some (decimal (IntType.toInt value)) :=
  toStringWith_eq (output_word value) (nul_not_mem_decimal _)

/-- What `to_string(value)` does, for the decimal of the value. -/
structure Exact (value : t.Word m) : Prop where
  measure : measure m t.format (.word (t.bits m) value) =
    some ((decimal (IntType.toInt value)).length, [])
  write : write m (decimal (IntType.toInt value)).length t.format (.word (t.bits m) value) =
    some ((decimal (IntType.toInt value)).length, decimal (IntType.toInt value) ++ ['\x00'])
  text : toString value = some (decimal (IntType.toInt value))
  canonical : Canonical (decimal (IntType.toInt value))
  parse : ∀ s, toString value = some s → parse s = IntType.toInt value

/-- **`to_string` of an integer is exact**, and injective on each type. -/
theorem toString_exact (m : DataModel) (t : IntType) :
    (∀ value : t.Word m, Exact value) ∧ Function.Injective (toString (m := m) (t := t)) := by
  refine ⟨fun value => ⟨measure_eq (output_word value), write_eq (output_word value),
    toString_eq value, decimal_canonical _, fun s hs => ?_⟩, fun v w h => ?_⟩
  · rw [toString_eq] at hs
    rw [← Option.some.inj hs, parse_decimal]
  · rw [toString_eq, toString_eq] at h
    exact IntType.toInt_injective (decimal_injective (Option.some.inj h))

end ToString

end Dpp
