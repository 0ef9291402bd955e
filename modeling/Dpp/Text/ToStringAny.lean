import Dpp.Text.Hex
import Dpp.Text.ToString

/-!
# `to_string_any`

What `format` makes of one argument, as the specialisation for its type or the general template.

* `Integral`: the integral types but `char`. `Arg`, `toStringAny`: the arguments and their texts.
* `Renders`: an integral argument becomes its decimal.
* **`renders_iff`**: exactly the four integral types with a specialisation of their own do; the
  others go through `double`.
-/

namespace Dpp

open Npf Lib.Decimal

/-! ## Floats -/

section Float

variable {m : DataModel}

theorem specText_float (mod : LengthModifier) (hmod : mod ≠ .longDouble) (x : Float.Model) :
    specText m (.plainFloat mod) [.double x] =
      some ((Payload.ofFloat (.plainFloat mod) (toFloat x)).render, []) := by
  have hc : convert m (.plainFloat mod) [.double x] =
      some (.ofFloat (.plainFloat mod) (toFloat x), []) := if_neg hmod
  change (convert m (.plainFloat mod) [.double x]).map _ = _
  rw [hc]
  rfl

/-- Somewhere in the text of a float is neither a digit nor a `-`. -/
theorem exists_mem_render_ofFloat (mod : LengthModifier) (val : Float32.Model) :
    ∃ c ∈ (Payload.ofFloat (.plainFloat mod) val).render, c ≠ '-' ∧ ¬ c.isDigit := by
  obtain ⟨sign, -, ⟨int, frac, h, -⟩ | ⟨cs, hcs, h⟩⟩ := Payload.render_ofFloat mod val
  · refine ⟨'.', ?_, by decide, by decide⟩
    rw [h]
    exact List.mem_append_right _ List.mem_cons_self
  · have hany : ∀ cs ∈ notWritten, (letters cs lowercase).any fun c => c ≠ '-' ∧ ¬ c.isDigit := by
      decide
    obtain ⟨c, hc, hne⟩ := List.any_eq_true.mp (hany cs hcs)
    refine ⟨c, ?_, of_decide_eq_true hne⟩
    rw [h]
    exact List.mem_append_right _ (List.mem_reverse.mpr hc)

theorem nul_not_mem_render_ofFloat (mod : LengthModifier) (val : Float32.Model) :
    '\x00' ∉ (Payload.ofFloat (.plainFloat mod) val).render := by
  have hdig : ∀ cs : List Char, (∀ c ∈ cs, c.isDigit) → '\x00' ∉ cs := fun cs h h0 =>
    absurd (h _ h0) (by decide)
  have hsign : ∀ sign ∈ [[], ['-']], '\x00' ∉ sign := by decide
  have hletters : ∀ cs ∈ notWritten, '\x00' ∉ (letters cs lowercase).reverse := by decide
  obtain ⟨sign, hm, ⟨int, frac, h, hint, hfrac, -⟩ | ⟨cs, hcs, h⟩⟩ := Payload.render_ofFloat mod val
  · rw [h, List.mem_append, List.mem_append, List.mem_cons]
    rintro ((h | h) | h | h)
    · exact hsign sign hm h
    · exact hdig int hint h
    · exact absurd h (by decide)
    · exact hdig frac hfrac h
  · rw [h, List.mem_append]
    exact not_or.mpr ⟨hsign sign hm, hletters cs hcs⟩

theorem toStringFloat_eq (value : Float32.Model) : toStringFloat m value =
    some (Payload.ofFloat (.plainFloat .none) (toFloat (toDouble value))).render :=
  toStringWith_eq (output_spec rfl (specText_float .none (by decide) _))
    (nul_not_mem_render_ofFloat _ _)

theorem toStringDouble_eq (value : Float.Model) : toStringDouble m value =
    some (Payload.ofFloat (.plainFloat .long) (toFloat value)).render :=
  toStringWith_eq (output_spec rfl (specText_float .long (by decide) _))
    (nul_not_mem_render_ofFloat _ _)

end Float

/-! ## Arguments -/

/-- The integral types but `char`. -/
inductive Integral
  | bool
  | signedChar
  | unsignedChar
  | short
  | unsignedShort
  | int (t : IntType)
deriving DecidableEq

namespace Integral

variable (m : DataModel) (t : Integral)

def bits : ℕ :=
  match t with
  | .bool => 1
  | .signedChar | .unsignedChar => 8
  | .short | .unsignedShort => 16
  | .int t => t.bits m

def signed : Bool :=
  match t with
  | .bool | .unsignedChar | .unsignedShort => false
  | .signedChar | .short => true
  | .int t => t.signed

/-- The values of the type, as bit patterns. -/
abbrev Word := BitVec (t.bits m)

variable {m t}

/-- The number a bit pattern stands for. -/
def toInt (v : t.Word m) : ℤ := if t.signed then BitVec.toInt v else v.toNat

/-- `v` as a `long long` or an `unsigned long long`. -/
def widen (v : t.Word m) : IntType.Word m ⟨.longLong, t.signed⟩ := BitVec.ofInt 64 (toInt v)

theorem bits_le (m : DataModel) (t : Integral) : t.bits m ≤ 64 := by
  cases t with
  | int t =>
    have := t.bits_eq m
    change t.bits m ≤ 64
    omega
  | _ => exact Nat.le_of_ble_eq_true rfl

/-- Widening keeps the number. -/
theorem toInt_widen (v : t.Word m) : IntType.toInt (widen v) = toInt v := by
  have hb := bits_le m t
  have hw : IntType.toInt (widen v) = if t.signed then (BitVec.ofInt 64 (toInt v)).toInt
      else (BitVec.ofInt 64 (toInt v)).toNat := rfl
  rw [hw]
  unfold toInt
  split_ifs
  · have hp : (2 : ℤ) ^ (t.bits m - 1) ≤ 2 ^ 63 := pow_le_pow_right₀ (by decide) (by omega)
    have hlt : v.toInt < 2 ^ (t.bits m - 1) := BitVec.toInt_lt
    have hle : -2 ^ (t.bits m - 1) ≤ v.toInt := BitVec.le_toInt v
    rw [BitVec.toInt_ofInt]
    exact Int.bmod_eq_of_le (by omega) (by omega)
  · have hp : 2 ^ t.bits m ≤ 2 ^ 64 := Nat.pow_le_pow_right Nat.two_pos hb
    have hlt := v.isLt
    rw [BitVec.ofInt_natCast, BitVec.toNat_ofNat, Nat.mod_eq_of_lt (by omega)]

end Integral

/-- An argument of `format`. A C string is what its pointer points to, a character array what it
holds. -/
inductive Arg (m : DataModel)
  | cString (s : Option (List Char))
  | charArray (s : List Char)
  | string (s : List Char)
  | stringView (s : List Char)
  | char (c : Char)
  | integral (t : Integral) (v : t.Word m)
  | float (x : Float32.Model)
  | double (x : Float.Model)
  | pointer (p : BitVec 64)

/-- `cstr_len_limited`. -/
def cstrLenLimited : List Char → ℕ → ℕ
  | _, 0 => 0
  | [], _ + 1 => 0
  | c :: s, max + 1 => if c = '\x00' then 0 else cstrLenLimited s max + 1

section ToStringAny

variable {m : DataModel} {t : Integral}

/-- `to_string_any<int>` and its likes; the format suits the argument, so there is a text. -/
def toStringAnyInt {t : IntType} (v : t.Word m) : List Char :=
  (toString v).get (by rw [toString_eq]; rfl)

def toStringAnyFloat (m : DataModel) (v : Float32.Model) : List Char :=
  (toStringFloat m v).get (by rw [toStringFloat_eq]; rfl)

def toStringAnyDouble (m : DataModel) (v : Float.Model) : List Char :=
  (toStringDouble m v).get (by rw [toStringDouble_eq]; rfl)

/-- The specialisations for integral types, and the template for the others, which casts to
`double`. -/
def toStringAnyIntegral : (t : Integral) → t.Word m → List Char
  | .int ⟨.int, _⟩, v | .int ⟨.long, _⟩, v => toStringAnyInt v
  | _, v => toStringAnyDouble m (.ofInt (Integral.toInt v))

def toStringAny : Arg m → List Char
  | .cString none => []
  | .cString (some s) => s.takeWhile (· ≠ '\x00')
  | .charArray s => s.take (cstrLenLimited s s.length)
  | .string s => s
  | .stringView s => s
  | .char c => [c]
  | .integral t v => toStringAnyIntegral t v
  | .float x => toStringAnyFloat m x
  | .double x => toStringAnyDouble m x
  | .pointer p =>
    if p = 0 then "nullptr".toList
    else "0x".toList ++ (toStringHex (m := m) (t := ⟨.longLong, false⟩) p 0).1

/-! ## Integral arguments -/

/-- `to_string_any(v)` is the decimal of `v`, as `to_string` gives it for `v` widened. -/
structure Renders (v : t.Word m) : Prop where
  decimal : toStringAny (.integral t v) = decimal (Integral.toInt v)
  widened : toString (Integral.widen v) = some (toStringAny (.integral t v))

/-- The integral types with a specialisation. -/
def Integral.Specialized (t : Integral) : Prop :=
  t = .int ⟨.int, true⟩ ∨ t = .int ⟨.int, false⟩ ∨ t = .int ⟨.long, true⟩ ∨ t = .int ⟨.long, false⟩

instance (t : Integral) : Decidable t.Specialized := inferInstanceAs (Decidable (_ ∨ _))

theorem toStringAnyInt_eq {t : IntType} (v : t.Word m) :
    toStringAnyInt v = decimal (IntType.toInt v) := by
  unfold toStringAnyInt
  simp only [toString_eq, Option.get_some]

/-- The template gives no decimal. -/
theorem toStringAnyDouble_ne (v : Float.Model) (z : ℤ) : toStringAnyDouble m v ≠ decimal z := by
  intro h
  unfold toStringAnyDouble at h
  simp only [toStringDouble_eq, Option.get_some] at h
  obtain ⟨c, hc, hne, hdig⟩ := exists_mem_render_ofFloat .long (toFloat v)
  rw [h] at hc
  exact (mem_decimal hc).elim hne hdig

theorem toStringAnyIntegral_eq (ht : t.Specialized) (v : t.Word m) :
    toStringAnyIntegral t v = decimal (Integral.toInt v) := by
  rcases ht with rfl | rfl | rfl | rfl <;> exact toStringAnyInt_eq v

theorem toStringAnyIntegral_ne (ht : ¬ t.Specialized) (v : t.Word m) (z : ℤ) :
    toStringAnyIntegral t v ≠ decimal z := by
  unfold toStringAnyIntegral
  split
  · rename_i signed _
    exact absurd (by cases signed <;> decide) ht
  · rename_i signed _
    exact absurd (by cases signed <;> decide) ht
  · exact toStringAnyDouble_ne _ z

/-- **An integral argument becomes its decimal exactly if** its type has a specialisation. -/
theorem renders_iff (v : t.Word m) : Renders v ↔ t.Specialized := by
  constructor
  · intro h
    by_contra hs
    exact toStringAnyIntegral_ne hs v _ h.decimal
  · intro h
    have ht := toStringAnyIntegral_eq h v
    refine ⟨ht, ?_⟩
    rw [toString_eq, Integral.toInt_widen]
    exact congrArg some ht.symm

/-- The `short` five becomes `5.000000`. -/
theorem not_renders_short : ¬ Renders (m := .llp64) (t := .short) (BitVec.ofNat 16 5) := fun h =>
  toStringAnyIntegral_ne (m := .llp64) (t := .short) (by decide) (BitVec.ofNat 16 5) _ h.decimal

end ToStringAny

end Dpp
