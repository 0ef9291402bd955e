import Dpp.CTypes
import Dpp.Lib.Decimal
import Dpp.Text.Digits

/-!
# One conversion

The body of the loop of `npf_vpprintf`, after the specification is parsed. A `double` and a `float`
are their IEEE models; a `va_arg` that asks for another type than it finds is undefined, and gives
nothing. There are no `long double` arguments.

* `Payload`, `convert`: the argument as text, and what the code knows of it.
* `Payload.render`: the characters that are put for it.
* **`render_ofSigned`**, **`render_ofUnsigned`**: an integer without flags, width and precision is
  its decimal.
* **`render_ofFloat`**: a float has a point and six decimals after it, or is three letters.
-/

namespace Dpp.Npf

open Lib.Decimal

/-- A `float` from a `double`, rounded to nearest. -/
def toFloat (x : Float.Model) : Float32.Model :=
  .pack <| match x.unpack with
    | .finite s mantissa exponent _ =>
      Float.Model.UnpackedFloat.round .binary32 s mantissa exponent
    | x => x

/-- A `double` from a `float`, which is exact. -/
def toDouble (x : Float32.Model) : Float.Model :=
  .pack <| match x.unpack with
    | .finite s mantissa exponent _ =>
      Float.Model.UnpackedFloat.round .binary64 s mantissa exponent
    | x => x

/-! ## Arguments -/

/-- An argument of a `va_list`; a string is what its pointer points to. -/
inductive Vararg
  | word (n : ℕ) (w : BitVec n)
  | double (x : Float.Model)
  | string (s : List Char)
  | pointer (p : BitVec 64)

/-- `va_arg` for an integer type of `n` bits. -/
def vaWord (n : ℕ) : List Vararg → Option (BitVec n × List Vararg)
  | .word k w :: args => if k = n then some (w.setWidth n, args) else none
  | _ => none

def vaDouble : List Vararg → Option (Float.Model × List Vararg)
  | .double x :: args => some (x, args)
  | _ => none

def vaString : List Vararg → Option (List Char × List Vararg)
  | .string s :: args => some (s, args)
  | _ => none

def vaPointer : List Vararg → Option (BitVec 64 × List Vararg)
  | .pointer p :: args => some (p, args)
  | _ => none

/-- `NPF_EXTRACT`: an argument of `n` bits, cast. -/
def extract {α : Type} (n : ℕ) (cast : BitVec n → α) (args : List Vararg) :
    Option (α × List Vararg) :=
  (vaWord n args).map fun r => (cast r.1, r.2)

def longBits (m : DataModel) : ℕ := IntType.bits m ⟨.long, true⟩

def signedArg (m : DataModel) (args : List Vararg) : LengthModifier → Option (ℤ × List Vararg)
  | .none | .longDouble => extract 32 BitVec.toInt args
  | .short => extract 32 (fun w => (w.setWidth 16).toInt) args
  | .char => extract 32 (fun w => (w.setWidth 8).toInt) args
  | .long => extract (longBits m) BitVec.toInt args
  | .largeLongLong | .largeIntmax | .largeSizet | .largePtrdifft => extract 64 BitVec.toInt args

def unsignedArg (m : DataModel) (args : List Vararg) : LengthModifier → Option (ℕ × List Vararg)
  | .none | .longDouble => extract 32 BitVec.toNat args
  | .short => extract 32 (fun w => (w.setWidth 16).toNat) args
  | .char => extract 32 (fun w => (w.setWidth 8).toNat) args
  | .long => extract (longBits m) BitVec.toNat args
  | .largeLongLong | .largeIntmax | .largeSizet | .largePtrdifft => extract 64 BitVec.toNat args

/-- The star of a field width. -/
def starWidth (fs : FormatSpec) (args : List Vararg) : Option (FormatSpec × List Vararg) :=
  let width (w : ℤ) : FormatSpec := { fs with
    fieldWidthOpt := .literal
    fieldWidth := |w|
    leftJustified := fs.leftJustified || decide (w < 0) }
  if fs.fieldWidthOpt = .star then extract 32 (fun w => width w.toInt) args else some (fs, args)

/-- The star of a precision. -/
def starPrec (fs : FormatSpec) (args : List Vararg) : Option (FormatSpec × List Vararg) :=
  let prec (p : ℤ) : FormatSpec := { fs with
    precOpt := if 0 ≤ p then .literal else .none
    prec := p }
  if fs.precOpt = .star then extract 32 (fun w => prec w.toInt) args else some (fs, args)

/-! ## The argument as text -/

/-- The variables of one iteration once the argument is converted. -/
structure Payload where
  fs : FormatSpec
  cbuf : List Char
  cbufLen : ℤ
  signC : Option Char
  need0x : Option Char
  zero : Bool
  fracChars : ℤ
  infOrNan : Bool

namespace Payload

/-- A text as it is. -/
def ofText (fs : FormatSpec) (cbuf : List Char) : Payload where
  fs := fs
  cbuf := cbuf
  cbufLen := cbuf.length
  signC := none
  need0x := none
  zero := false
  fracChars := 0
  infOrNan := false

def ofSigned (fs : FormatSpec) (val : ℤ) : Payload :=
  let skip := val = 0 ∧ fs.precOpt = .literal ∧ fs.prec = 0
  { ofText fs (if skip then [] else itoaRev val) with
    signC := if val < 0 then some '-' else fs.prepend
    zero := decide (val = 0) }

def ofUnsigned (fs : FormatSpec) (val : ℕ) : Payload :=
  let skip := val = 0 ∧ fs.precOpt = .literal ∧ fs.prec = 0
  let base := if fs.convSpec = .octal then Base.octal
    else if fs.convSpec = .hexInt then Base.hex else Base.decimal
  let cbuf := if skip then [] else utoaRev base fs.caseAdjust val
  let alt := val ≠ 0 ∧ fs.altForm
  { ofText fs (if alt ∧ fs.convSpec = .octal then cbuf ++ ['0'] else cbuf) with
    -- an alternative octal zero of precision zero is still a zero
    fs := if skip ∧ fs.convSpec = .octal ∧ fs.altForm then { fs with prec := 1 } else fs
    need0x := if alt ∧ fs.convSpec = .hexInt
      then some (Char.ofNat ('X'.toNat + fs.caseAdjust)) else none
    zero := decide (val = 0) }

def ofPointer (fs : FormatSpec) (p : BitVec 64) : Payload :=
  { ofText fs (utoaRev .hex lowercase p.toNat) with need0x := some 'x' }

/-- After `npf_ftoa_rev`: the digits past the precision are skipped, which stand first. -/
def ofFtoa (fs : FormatSpec) : Except (List Char) (List Char × ℕ) → Payload
  | .error text => { ofText fs text with infOrNan := true }
  | .ok (text, fracChars) =>
    let precAdj := max 0 (fracChars - fs.prec)
    { ofText fs (text.drop precAdj.toNat) with
      cbufLen := text.length - precAdj
      fracChars := fracChars }

def ofFloat (fs : FormatSpec) (val : Float32.Model) : Payload :=
  { ofFtoa fs (ftoaRev val.toBits.toBitVec fs.caseAdjust) with
    signC := if val < .ofNat 0 then some '-' else fs.prepend
    zero := val == .ofNat 0 }

end Payload

/-- A string up to its NUL, or to its precision. -/
def stringText (fs : FormatSpec) (s : List Char) : List Char :=
  let s := s.takeWhile (· ≠ '\x00')
  if fs.precOpt = .none then s else s.take fs.prec.toNat

def convert (m : DataModel) (fs : FormatSpec) (args : List Vararg) :
    Option (Payload × List Vararg) :=
  match fs.convSpec with
  | .percent => some (.ofText fs ['%'], args)
  | .char => extract 32 (fun w => .ofText fs [Char.ofNat (w.setWidth 8).toNat]) args
  | .string => (vaString args).map fun r => (.ofText fs (stringText fs r.1), r.2)
  | .signedInt => (signedArg m args fs.lengthModifier).map fun r => (.ofSigned fs r.1, r.2)
  | .octal | .hexInt | .unsignedInt =>
      (unsignedArg m args fs.lengthModifier).map fun r => (.ofUnsigned fs r.1, r.2)
  | .pointer => (vaPointer args).map fun r => (.ofPointer fs r.1, r.2)
  | .floatDec | .floatSci | .floatShortest | .floatHex =>
      if fs.lengthModifier = .longDouble then none
      else (vaDouble args).map fun r => (.ofFloat fs (toFloat r.1), r.2)

/-! ## The text as output -/

namespace Payload

variable (p : Payload)

/-- The field width pad character. -/
def padC : Option Char :=
  if p.fs.fieldWidthOpt = .literal then
    if p.fs.leadingZeroPad then
      if p.fs.convSpec ≠ .string ∧ p.fs.convSpec ≠ .char ∧ p.fs.convSpec ≠ .percent then
        if p.fs.precOpt = .literal ∧ p.fs.prec = 0 ∧ p.zero then some ' ' else some '0'
      else none
    else some ' '
  else none

/-- The zeroes of the precision. -/
def precPad : ℤ :=
  if p.fs.convSpec = .string ∨ p.infOrNan then 0
  else max 0 (p.fs.prec - if p.fs.convSpec = .floatDec then p.fracChars else p.cbufLen)

/-- The pad bytes of the field width. -/
def fieldPad : ℤ :=
  let pad := p.fs.fieldWidth - p.cbufLen - (if p.signC.isSome then 1 else 0)
  let pad := if p.need0x.isSome then pad - 2 else pad
  let pad := if p.fs.convSpec = .floatDec ∧ p.fs.prec = 0 ∧ !p.fs.altForm then pad + 1 else pad
  max 0 (pad - p.precPad)

/-- What is put before the converted text. -/
def front : List Char :=
  let prefix0x := p.need0x.elim [] fun x => ['0', x]
  match p.padC with
  | some '0' =>
    if p.fs.leftJustified then prefix0x
    else p.signC.toList ++ prefix0x ++ List.replicate p.fieldPad.toNat '0'
  | some c =>
    if p.fs.leftJustified then prefix0x
    else List.replicate p.fieldPad.toNat c ++ prefix0x
  | none => prefix0x

/-- The converted text, which is reversed unless it is a string. -/
def body : List Char :=
  let sign := if !p.fs.leftJustified ∧ p.padC = some '0' then [] else p.signC.toList
  let zeroes := List.replicate p.precPad.toNat '0'
  if p.fs.convSpec = .string then p.cbuf.take p.cbufLen.toNat
  else if p.fs.convSpec = .floatDec then
    -- no point and no fraction for precision zero
    let n := if p.fs.prec = 0 ∧ !p.fs.altForm then 1 else 0
    sign ++ ((p.cbuf.drop n).take (p.cbufLen - n).toNat).reverse ++
      if p.infOrNan then [] else zeroes
  else sign ++ zeroes ++ (p.cbuf.take p.cbufLen.toNat).reverse

/-- The field width of a left-justified text. -/
def back : List Char :=
  match p.padC with
  | some c => if p.fs.leftJustified then List.replicate p.fieldPad.toNat c else []
  | none => []

def render : List Char := p.front ++ p.body ++ p.back

end Payload

/-! ## Specifications without flags and width -/

/-- A length modifier and a conversion, and nothing else. -/
def FormatSpec.plain (mod : LengthModifier) (conv : Conversion) : FormatSpec :=
  { FormatSpec.init with lengthModifier := mod, convSpec := conv }

/-- The same for `f`, whose precision is six. -/
def FormatSpec.plainFloat (mod : LengthModifier) : FormatSpec :=
  { FormatSpec.plain mod .floatDec with prec := 6 }

namespace Payload

variable {p : Payload}

theorem padC_of_none (hw : p.fs.fieldWidthOpt = .none) : p.padC = none := by
  unfold padC
  rw [hw, if_neg (by decide)]

theorem render_eq_body (hw : p.fs.fieldWidthOpt = .none) (hx : p.need0x = none) :
    p.render = p.body := by
  unfold render front back
  rw [padC_of_none hw, hx]
  exact List.append_nil p.body

/-- An integer is put as its sign and its digits. -/
theorem render_integer {mod : LengthModifier} {conv : Conversion} (hfs : p.fs = .plain mod conv)
    (hs : conv ≠ .string) (hf : conv ≠ .floatDec) (hl : p.cbufLen = p.cbuf.length)
    (hx : p.need0x = none) : p.render = p.signC.toList ++ p.cbuf.reverse := by
  have hconv : p.fs.convSpec = conv := by rw [hfs]; rfl
  have hw : p.fs.fieldWidthOpt = .none := by rw [hfs]; rfl
  have hp : p.fs.prec = 0 := by rw [hfs]; rfl
  have hz : p.precPad.toNat = 0 := by
    unfold precPad
    rw [hconv, if_neg hf, hp, hl]
    split_ifs <;> omega
  rw [render_eq_body hw hx]
  unfold body
  rw [padC_of_none hw, hconv, if_neg hs, if_neg hf, hz, hl]
  simp

/-- **A signed integer is put as its decimal**. -/
theorem render_ofSigned (mod : LengthModifier) (val : ℤ) :
    (ofSigned (.plain mod .signedInt) val).render = decimal val := by
  have hr : (itoaRev val).reverse = Nat.toDigits 10 val.natAbs := itoaRev_reverse val
  rw [render_integer rfl (by decide) (by decide) rfl rfl]
  unfold decimal
  split_ifs with h <;> simp [ofSigned, ofText, FormatSpec.plain, FormatSpec.init, h, hr]

/-- **An unsigned integer is put as its decimal**. -/
theorem render_ofUnsigned (mod : LengthModifier) (val : ℕ) :
    (ofUnsigned (.plain mod .unsignedInt) val).render = decimal val := by
  have hr : (utoaRev .decimal lowercase val).reverse = Nat.toDigits 10 val :=
    utoaRev_reverse (by decide) lowercase val
  have hfs : (ofUnsigned (.plain mod .unsignedInt) val).fs = .plain mod .unsignedInt :=
    if_neg fun h => Bool.noConfusion h.2.2
  have hx : (ofUnsigned (.plain mod .unsignedInt) val).need0x = none :=
    if_neg fun h => Bool.noConfusion h.1.2
  rw [render_integer hfs (by decide) (by decide) rfl hx]
  unfold decimal
  rw [if_neg (by omega)]
  simp [ofUnsigned, ofText, FormatSpec.plain, FormatSpec.init, hr]

theorem render_float {mod : LengthModifier} (hfs : p.fs = .plainFloat mod)
    (hl : p.cbufLen = p.cbuf.length) (hx : p.need0x = none) :
    p.render = p.signC.toList ++ p.cbuf.reverse ++
      if p.infOrNan then [] else List.replicate (6 - p.fracChars).toNat '0' := by
  have hconv : p.fs.convSpec = .floatDec := by rw [hfs]; rfl
  have hw : p.fs.fieldWidthOpt = .none := by rw [hfs]; rfl
  have hp : p.fs.prec = 6 := by rw [hfs]; rfl
  have hz : p.infOrNan = false → p.precPad.toNat = (6 - p.fracChars).toNat := fun h => by
    unfold precPad
    rw [hconv, hp, h, if_pos rfl, if_neg (by decide)]
    omega
  rw [render_eq_body hw hx]
  unfold body
  rw [padC_of_none hw, hconv, hp, hl]
  cases h : p.infOrNan with
  | true => simp
  | false => simp [hz h]

section OfFloat

variable {mod : LengthModifier} {val : Float32.Model} {frac int text : List Char}

theorem toList_signC (mod : LengthModifier) (val : Float32.Model) :
    (ofFloat (.plainFloat mod) val).signC.toList ∈ [[], ['-']] := by
  change Option.toList (if val < .ofNat 0 then some '-' else none) ∈ _
  split_ifs <;> decide

/-- The fraction keeps its first six digits, or is filled up to them. -/
theorem render_of_ok (h : ftoaRev val.toBits.toBitVec lowercase =
    .ok (frac ++ '.' :: int, frac.length)) :
    (ofFloat (.plainFloat mod) val).render =
      (ofFloat (.plainFloat mod) val).signC.toList ++ int.reverse ++
        '.' :: ((frac.drop (frac.length - 6)).reverse ++ List.replicate (6 - frac.length) '0') := by
  have hp : ofFloat (.plainFloat mod) val = { ofFtoa (.plainFloat mod)
      (.ok (frac ++ '.' :: int, frac.length)) with
      signC := (ofFloat (.plainFloat mod) val).signC
      zero := val == .ofNat 0 } := by
    rw [← h]
    rfl
  have hk : (max 0 ((frac.length : ℤ) - 6)).toNat = frac.length - 6 := by omega
  have hcbuf : (ofFloat (.plainFloat mod) val).cbuf =
      frac.drop (frac.length - 6) ++ '.' :: int := by
    rw [← List.drop_append_of_le_length (by omega), hp, ← hk]
    rfl
  have hl : (ofFloat (.plainFloat mod) val).cbufLen =
      (ofFloat (.plainFloat mod) val).cbuf.length := by
    rw [hcbuf, hp]
    simp [ofFtoa, FormatSpec.plainFloat]
    omega
  have hzeroes : (6 - (frac.length : ℤ)).toNat = 6 - frac.length := by omega
  rw [render_float (by rw [hp]; rfl) hl (by rw [hp]; rfl), hcbuf]
  rw [hp]
  simp [ofFtoa, ofText, hzeroes]

theorem render_of_error (h : ftoaRev val.toBits.toBitVec lowercase = .error text) :
    (ofFloat (.plainFloat mod) val).render =
      (ofFloat (.plainFloat mod) val).signC.toList ++ text.reverse := by
  have hp : ofFloat (.plainFloat mod) val = { ofFtoa (.plainFloat mod) (.error text) with
      signC := (ofFloat (.plainFloat mod) val).signC
      zero := val == .ofNat 0 } := by
    rw [← h]
    rfl
  rw [hp, render_float rfl rfl rfl]
  simp [ofFtoa, ofText]

/-- **A float is put with a point and six decimals**, or as three letters. -/
theorem render_ofFloat (mod : LengthModifier) (val : Float32.Model) :
    ∃ sign ∈ [[], ['-']],
      (∃ int frac : List Char,
        (ofFloat (.plainFloat mod) val).render = sign ++ int ++ '.' :: frac ∧
        (∀ c ∈ int, c.isDigit) ∧ (∀ c ∈ frac, c.isDigit) ∧ frac.length = 6) ∨
      ∃ cs ∈ notWritten,
        (ofFloat (.plainFloat mod) val).render = sign ++ (letters cs lowercase).reverse := by
  refine ⟨_, toList_signC mod val, ?_⟩
  rcases ftoaRev_cases val.toBits.toBitVec lowercase with ⟨frac, int, h, hfrac, hint⟩ | ⟨cs, hcs, h⟩
  · refine .inl ⟨_, _, render_of_ok h, ?_, ?_, ?_⟩
    · exact fun c hc => hint c (List.mem_reverse.mp hc)
    · intro c hc
      rcases List.mem_append.mp hc with hc | hc
      · exact hfrac c (List.mem_of_mem_drop (List.mem_reverse.mp hc))
      · rw [List.eq_of_mem_replicate hc]
        rfl
    · simp only [List.length_append, List.length_reverse, List.length_drop, List.length_replicate]
      omega
  · exact .inr ⟨cs, hcs, render_of_error h⟩

end OfFloat

end Payload

/-- One iteration of the loop at a specification: the characters that are put, and the arguments
left. -/
def specText (m : DataModel) (fs : FormatSpec) (args : List Vararg) :
    Option (List Char × List Vararg) :=
  (starWidth fs args).bind fun r =>
    (starPrec r.1 r.2).bind fun r =>
      (convert m r.1 r.2).map fun r => (r.1.render, r.2)

end Dpp.Npf
