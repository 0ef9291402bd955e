import Mathlib.Data.Int.Notation
import Mathlib.Data.List.Infix

/-!
# Conversion specifications

`npf_parse_format_spec`, with nanoprintf configured as for `to_string`: field width, precision,
large and floating-point specifiers, no binary ones and no writeback. A format is the list of its
characters, without the NUL, and an `int` of a specification is a number.

* `FormatSpec`, `parseFormatSpec`: one specification, and what follows it in the format.
* **`parseFormatSpec_suffix`**: a specification takes at least one character past its `%`.
-/

namespace Dpp.Npf

inductive FmtSpecOpt
  | none
  | literal
  | star
deriving DecidableEq

inductive LengthModifier
  | none
  | short
  | longDouble
  | char
  | long
  | largeLongLong
  | largeIntmax
  | largeSizet
  | largePtrdifft
deriving DecidableEq

inductive Conversion
  | percent
  | char
  | string
  | signedInt
  | octal
  | hexInt
  | unsignedInt
  | pointer
  | floatDec
  | floatSci
  | floatShortest
  | floatHex
deriving DecidableEq

/-- `npf_format_spec_t`. -/
structure FormatSpec where
  prepend : Option Char
  altForm : Bool
  fieldWidthOpt : FmtSpecOpt
  fieldWidth : ℤ
  leftJustified : Bool
  leadingZeroPad : Bool
  precOpt : FmtSpecOpt
  prec : ℤ
  lengthModifier : LengthModifier
  convSpec : Conversion
  caseAdjust : ℕ
deriving DecidableEq

/-- `'a'-'A'`. -/
def lowercase : ℕ := 'a'.toNat - 'A'.toNat

/-- What a specification is before its flags are read. -/
def FormatSpec.init : FormatSpec where
  prepend := .none
  altForm := false
  fieldWidthOpt := .none
  fieldWidth := 0
  leftJustified := false
  leadingZeroPad := false
  precOpt := .none
  prec := 0
  lengthModifier := .none
  convSpec := .percent
  caseAdjust := lowercase

/-! ## The parts of a specification -/

/-- The optional flags; no character but these stays in the loop. -/
def flag (fs : FormatSpec) : Char → Option FormatSpec
  | '-' => some { fs with leftJustified := true, leadingZeroPad := false }
  | '0' => some { fs with leadingZeroPad := !fs.leftJustified }
  | '+' => some { fs with prepend := some '+' }
  | ' ' => some { fs with prepend := fs.prepend.or (some ' ') }
  | '#' => some { fs with altForm := true }
  | _ => .none

def flags (fs : FormatSpec) : List Char → FormatSpec × List Char
  | [] => (fs, [])
  | c :: cur =>
    match flag fs c with
    | some fs => flags fs cur
    | .none => (fs, c :: cur)

/-- `while ((*cur >= '0') && (*cur <= '9'))`. -/
def digits (n : ℤ) : List Char → ℤ × List Char
  | [] => (n, [])
  | c :: cur => if c.isDigit then digits (n * 10 + (c.toNat - '0'.toNat)) cur else (n, c :: cur)

def fieldWidth (fs : FormatSpec) : List Char → FormatSpec × List Char
  | '*' :: cur => ({ fs with fieldWidthOpt := .star }, cur)
  | cur =>
    let opt := if cur.head?.any Char.isDigit then .literal else .none
    ({ fs with fieldWidthOpt := opt, fieldWidth := (digits 0 cur).1 }, (digits 0 cur).2)

def precision (fs : FormatSpec) : List Char → FormatSpec × List Char
  | '.' :: '*' :: cur => ({ fs with precOpt := .star, prec := 0 }, cur)
  | '.' :: '-' :: cur => ({ fs with precOpt := .none, prec := (digits 0 cur).1 }, (digits 0 cur).2)
  | '.' :: cur => ({ fs with precOpt := .literal, prec := (digits 0 cur).1 }, (digits 0 cur).2)
  | cur => ({ fs with precOpt := .none, prec := 0 }, cur)

def lengthModifier (fs : FormatSpec) : List Char → FormatSpec × List Char
  | 'h' :: 'h' :: cur => ({ fs with lengthModifier := .char }, cur)
  | 'h' :: cur => ({ fs with lengthModifier := .short }, cur)
  | 'l' :: 'l' :: cur => ({ fs with lengthModifier := .largeLongLong }, cur)
  | 'l' :: cur => ({ fs with lengthModifier := .long }, cur)
  | 'L' :: cur => ({ fs with lengthModifier := .longDouble }, cur)
  | 'j' :: cur => ({ fs with lengthModifier := .largeIntmax }, cur)
  | 'z' :: cur => ({ fs with lengthModifier := .largeSizet }, cur)
  | 't' :: cur => ({ fs with lengthModifier := .largePtrdifft }, cur)
  | cur => ({ fs with lengthModifier := .none }, cur)

/-- The cases `i`, `d`, `o`, `u`, `X` and `x`, which fall through to one end. -/
def integer (conv : Conversion) (fs : FormatSpec) : FormatSpec :=
  { fs with
    convSpec := conv
    leadingZeroPad := if fs.precOpt = .none then fs.leadingZeroPad else false }

def float (conv : Conversion) (fs : FormatSpec) : FormatSpec :=
  { fs with convSpec := conv, prec := if fs.precOpt = .none then 6 else fs.prec }

def conversion (fs : FormatSpec) : Char → Option FormatSpec
  | '%' => some { fs with convSpec := .percent, precOpt := .none }
  | 'c' => some { fs with convSpec := .char, precOpt := .none }
  | 's' => some { fs with convSpec := .string, leadingZeroPad := false }
  | 'i' | 'd' => some (integer .signedInt fs)
  | 'o' => some (integer .octal fs)
  | 'u' => some (integer .unsignedInt fs)
  | 'X' => some (integer .hexInt { fs with caseAdjust := 0 })
  | 'x' => some (integer .hexInt fs)
  | 'F' => some (float .floatDec { fs with caseAdjust := 0 })
  | 'f' => some (float .floatDec fs)
  | 'E' => some (float .floatSci { fs with caseAdjust := 0 })
  | 'e' => some (float .floatSci fs)
  | 'G' => some (float .floatShortest { fs with caseAdjust := 0 })
  | 'g' => some (float .floatShortest fs)
  | 'A' => some (float .floatHex { fs with caseAdjust := 0 })
  | 'a' => some (float .floatHex fs)
  | 'p' => some { fs with convSpec := .pointer, precOpt := .none }
  | _ => .none

/-- What stands before the conversion specifier. -/
def modifiers (cur : List Char) : FormatSpec × List Char :=
  let (fs, cur) := flags .init cur
  let (fs, cur) := fieldWidth fs cur
  let (fs, cur) := precision fs cur
  lengthModifier fs cur

/-- `npf_parse_format_spec` at a `%`: the specification and the characters after it, or nothing
where it returns `0`. -/
def parseFormatSpec (format : List Char) : Option (FormatSpec × List Char) :=
  let (fs, cur) := modifiers format.tail
  match cur with
  | [] => .none
  | c :: cur => (conversion fs c).map (·, cur)

/-! ## What is left of the format -/

variable {fs : FormatSpec} {format rest : List Char}

theorem flags_suffix (fs : FormatSpec) (cur : List Char) : (flags fs cur).2 <:+ cur := by
  induction cur generalizing fs with
  | nil => exact List.suffix_rfl
  | cons c cur ih =>
    unfold flags
    split
    · exact (ih _).trans (List.suffix_cons c cur)
    · exact List.suffix_rfl

theorem digits_suffix (n : ℤ) (cur : List Char) : (digits n cur).2 <:+ cur := by
  induction cur generalizing n with
  | nil => exact List.suffix_rfl
  | cons c cur ih =>
    unfold digits
    split_ifs
    · exact (ih _).trans (List.suffix_cons c cur)
    · exact List.suffix_rfl

theorem fieldWidth_suffix (fs : FormatSpec) (cur : List Char) : (fieldWidth fs cur).2 <:+ cur := by
  unfold fieldWidth
  split
  · exact List.suffix_cons _ _
  · exact digits_suffix 0 cur

theorem precision_suffix (fs : FormatSpec) (cur : List Char) : (precision fs cur).2 <:+ cur := by
  unfold precision
  split
  · exact List.suffix_append ['.', '*'] _
  · exact (digits_suffix 0 _).trans (List.suffix_append ['.', '-'] _)
  · exact (digits_suffix 0 _).trans (List.suffix_cons _ _)
  · exact List.suffix_rfl

theorem lengthModifier_suffix (fs : FormatSpec) (cur : List Char) :
    (lengthModifier fs cur).2 <:+ cur := by
  unfold lengthModifier
  split
  · exact List.suffix_append ['h', 'h'] _
  · exact List.suffix_cons _ _
  · exact List.suffix_append ['l', 'l'] _
  all_goals first | exact List.suffix_cons _ _ | exact List.suffix_rfl

theorem modifiers_suffix (cur : List Char) : (modifiers cur).2 <:+ cur := by
  unfold modifiers
  refine (lengthModifier_suffix _ _).trans ((precision_suffix _ _).trans ?_)
  exact (fieldWidth_suffix _ _).trans (flags_suffix _ cur)

/-- **A specification ends after at least one character past its `%`**. -/
theorem parseFormatSpec_suffix (h : parseFormatSpec format = some (fs, rest)) :
    ∃ c, c :: rest <:+ format.tail := by
  have hs := modifiers_suffix format.tail
  unfold parseFormatSpec at h
  simp only at h
  split at h
  · exact absurd h.symm (Option.some_ne_none _)
  · rename_i c cur hcur
    obtain ⟨fs', -, h⟩ := Option.map_eq_some_iff.mp h
    obtain ⟨-, rfl⟩ := Prod.mk.inj h
    exact ⟨c, hcur ▸ hs⟩

theorem parseFormatSpec_length (h : parseFormatSpec format = some (fs, rest)) :
    rest.length < format.length := by
  obtain ⟨c, hc⟩ := parseFormatSpec_suffix h
  have := hc.length_le
  rw [List.length_cons, List.length_tail] at this
  omega

end Dpp.Npf
