import Dpp.Text.Decimals

/-!
# Field widths

* `Payload.unpadded`: the payload of the same conversion without a field width.
* `Payload.Sound`: what the conversions see to; `sound_of_convert`.
* `justify`; **`render_justified`**: a field width adds pad characters at one place, as many as the
  text is short of it, and changes nothing else.
-/

namespace Dpp.Npf

namespace Payload

variable {p : Payload}

def unpadded (p : Payload) : Payload := { p with fs := { p.fs with fieldWidthOpt := .none } }

/-- The length is that of the text, the point is there where it is skipped, and only a decimal
number has a sign. -/
structure Sound (p : Payload) : Prop where
  length : p.cbufLen = p.cbuf.length
  point : p.fs.convSpec = .floatDec → p.cbuf ≠ []
  sign : p.need0x.isSome ∨ p.fs.convSpec = .string → p.signC = none

/-- The sign, or the prefix of a hexadecimal number. -/
def lead (p : Payload) : List Char := (p.need0x.elim [] fun x => ['0', x]) ++ p.signC.toList

/-- The text after it. -/
def digits (p : Payload) : List Char :=
  let zeroes := List.replicate p.precPad.toNat '0'
  if p.fs.convSpec = .string then p.cbuf.take p.cbufLen.toNat
  else if p.fs.convSpec = .floatDec then
    let n := if p.fs.prec = 0 ∧ !p.fs.altForm then 1 else 0
    ((p.cbuf.drop n).take (p.cbufLen - n).toNat).reverse ++
      if p.infOrNan then [] else zeroes
  else zeroes ++ (p.cbuf.take p.cbufLen.toNat).reverse

/-- The text with a field width, and a pad character for it. -/
def justify (fs : FormatSpec) (padC : Option Char) (lead digits : List Char) : List Char :=
  let n := (fs.fieldWidth - (lead ++ digits).length).toNat
  match padC with
  | none => lead ++ digits
  | some c =>
    if fs.leftJustified then lead ++ digits ++ List.replicate n c
    else if c = '0' then lead ++ List.replicate n c ++ digits
    else List.replicate n c ++ (lead ++ digits)

/-! ## The parts of a text -/

theorem body_eq (hs : p.Sound) : p.body =
    (if !p.fs.leftJustified ∧ p.padC = some '0' then [] else p.signC.toList) ++ p.digits := by
  unfold body digits
  dsimp only
  by_cases hstring : p.fs.convSpec = .string
  · have hsign : p.signC = none := hs.sign (.inr hstring)
    rw [if_pos hstring, if_pos hstring, hsign, Option.toList_none, ite_self, List.nil_append]
  rw [if_neg hstring, if_neg hstring]
  by_cases hfloat : p.fs.convSpec = .floatDec
  · rw [if_pos hfloat, if_pos hfloat, List.append_assoc]
  · rw [if_neg hfloat, if_neg hfloat, List.append_assoc]

/-- A sign and a prefix do not come together, so that their order is no matter. -/
theorem sign_append_prefix (hs : p.Sound) :
    p.signC.toList ++ (p.need0x.elim [] fun x => ['0', x]) = p.lead := by
  unfold lead
  cases hx : p.need0x with
  | none => exact List.append_nil _
  | some x =>
    have hsign : p.signC = none := hs.sign (.inl (by rw [hx]; rfl))
    rw [hsign]
    exact (List.append_nil _).symm

theorem precPad_nonneg (p : Payload) : 0 ≤ p.precPad := by
  unfold precPad
  split_ifs
  · exact le_rfl
  all_goals exact le_max_left 0 _

theorem precPad_of_infOrNan (h : p.infOrNan = true) : p.precPad = 0 := if_pos (.inr h)

/-- The point of a float is left out. -/
def Bare (p : Payload) : Prop :=
  p.fs.convSpec = .floatDec ∧ p.fs.prec = 0 ∧ !p.fs.altForm

instance (p : Payload) : Decidable p.Bare := inferInstanceAs (Decidable (_ ∧ _))

theorem length_digits (hs : p.Sound) :
    (p.digits.length : ℤ) = p.cbufLen + p.precPad - if p.Bare then 1 else 0 := by
  have hlen := hs.length
  have hpad := precPad_nonneg p
  have htake : p.cbufLen.toNat = p.cbuf.length := by omega
  unfold digits
  dsimp only
  rw [htake, List.take_length]
  by_cases hstring : p.fs.convSpec = .string
  · have hbare : ¬ p.Bare := fun h => by
      rw [h.1] at hstring
      cases hstring
    have hzero : p.precPad = 0 := if_pos (.inl hstring)
    rw [if_pos hstring, if_neg hbare, hzero, hlen]
    omega
  rw [if_neg hstring]
  by_cases hfloat : p.fs.convSpec = .floatDec
  · have hpos : 0 < p.cbuf.length := List.length_pos_iff.mpr (hs.point hfloat)
    have hzeroes : ((if p.infOrNan then [] else List.replicate p.precPad.toNat '0').length : ℤ) =
        p.precPad := by
      cases hnan : p.infOrNan with
      | true =>
        rw [precPad_of_infOrNan hnan]
        rfl
      | false =>
        rw [if_neg Bool.false_ne_true, List.length_replicate]
        exact Int.toNat_of_nonneg hpad
    rw [if_pos hfloat, List.length_append, List.length_reverse, Nat.cast_add, hzeroes]
    by_cases hbare : p.Bare
    · rw [if_pos hbare, if_pos hbare.2, List.length_take, List.length_drop]
      omega
    · rw [if_neg hbare, if_neg fun h => hbare ⟨hfloat, h⟩, List.length_take, List.length_drop]
      omega
  · have hbare : ¬ p.Bare := fun h => hfloat h.1
    rw [if_neg hfloat, if_neg hbare, List.length_append, List.length_replicate,
      List.length_reverse]
    omega

theorem fieldPad_eq (hs : p.Sound) :
    p.fieldPad.toNat = (p.fs.fieldWidth - (p.lead ++ p.digits).length).toNat := by
  have hdigits := length_digits hs
  have hpad := precPad_nonneg p
  have hlead : (p.lead.length : ℤ) =
      (if p.signC.isSome then 1 else 0) + if p.need0x.isSome then 2 else 0 := by
    unfold lead
    cases p.need0x <;> cases p.signC <;> rfl
  have hfield : p.fieldPad = max 0 ((if p.Bare then
      (if p.need0x.isSome then p.fs.fieldWidth - p.cbufLen - (if p.signC.isSome then 1 else 0) - 2
        else p.fs.fieldWidth - p.cbufLen - (if p.signC.isSome then 1 else 0)) + 1
      else if p.need0x.isSome then
        p.fs.fieldWidth - p.cbufLen - (if p.signC.isSome then 1 else 0) - 2
      else p.fs.fieldWidth - p.cbufLen - (if p.signC.isSome then 1 else 0)) - p.precPad) := rfl
  rw [hfield, List.length_append]
  push_cast
  rw [hdigits, hlead]
  split_ifs <;> omega

theorem front_of_none (h : p.padC = none) : p.front = p.need0x.elim [] fun x => ['0', x] := by
  unfold front
  rw [h]

theorem front_of_zero (h : p.padC = some '0') : p.front =
    if p.fs.leftJustified then p.need0x.elim [] fun x => ['0', x]
    else p.signC.toList ++ (p.need0x.elim [] fun x => ['0', x]) ++
      List.replicate p.fieldPad.toNat '0' := by
  unfold front
  rw [h]
  rfl

theorem front_of_some {c : Char} (h : p.padC = some c) (hc : c ≠ '0') : p.front =
    if p.fs.leftJustified then p.need0x.elim [] fun x => ['0', x]
    else List.replicate p.fieldPad.toNat c ++ p.need0x.elim [] fun x => ['0', x] := by
  unfold front
  rw [h]
  split
  · rename_i heq
    exact absurd (Option.some.inj heq) hc
  · rename_i heq
    cases heq
    rfl
  · rename_i heq
    cases heq

theorem back_of_some {c : Char} (h : p.padC = some c) :
    p.back = if p.fs.leftJustified then List.replicate p.fieldPad.toNat c else [] := by
  unfold back
  rw [h]

/-- **The text is put as it is justified**. -/
theorem render_eq_justify (hs : p.Sound) : p.render = justify p.fs p.padC p.lead p.digits := by
  have hbody := body_eq hs
  unfold render justify
  dsimp only
  rw [← fieldPad_eq hs]
  cases hpadC : p.padC with
  | none =>
    have hback : p.back = [] := by
      unfold back
      rw [hpadC]
    rw [hpadC, if_neg (by simp)] at hbody
    rw [front_of_none hpadC, hback, hbody, List.append_nil, ← List.append_assoc]
    rfl
  | some c =>
    rw [back_of_some hpadC]
    dsimp only
    by_cases hleft : p.fs.leftJustified
    · have hfront : p.front = p.need0x.elim [] fun x => ['0', x] := by
        by_cases hc : c = '0'
        · rw [front_of_zero (hc ▸ hpadC), if_pos hleft]
        · rw [front_of_some hpadC hc, if_pos hleft]
      rw [if_neg fun h => by rw [hleft] at h; exact absurd h.1 (by decide)] at hbody
      rw [if_pos hleft, if_pos hleft, hfront, hbody, ← List.append_assoc]
      rfl
    rw [if_neg hleft, if_neg hleft, List.append_nil]
    have hright : (!p.fs.leftJustified) = true := by simpa using hleft
    by_cases hc : c = '0'
    · rw [hc] at hpadC
      rw [if_pos ⟨hright, hpadC⟩, List.nil_append] at hbody
      rw [if_pos hc, front_of_zero hpadC, if_neg hleft, hbody, sign_append_prefix hs, hc]
    · rw [if_neg fun h => hc (Option.some.inj (hpadC.symm.trans h.2))] at hbody
      rw [if_neg hc, front_of_some hpadC hc, if_neg hleft, hbody, lead]
      simp only [List.append_assoc]

theorem unpadded_render (hs : p.Sound) : p.unpadded.render = p.lead ++ p.digits := by
  have hs' : p.unpadded.Sound := ⟨hs.length, hs.point, hs.sign⟩
  have hpadC : p.unpadded.padC = none := padC_of_none rfl
  rw [render_eq_justify hs', hpadC]
  rfl

theorem length_justify {fs : FormatSpec} {c : Char} (lead digits : List Char) :
    ((justify fs (some c) lead digits).length : ℤ) =
      max fs.fieldWidth (lead ++ digits).length := by
  unfold justify
  dsimp only
  split_ifs <;> simp only [List.length_append, List.length_replicate] <;> omega

end Payload

/-! ## The conversions -/

namespace FormatSpec

variable (fs : FormatSpec)

def unpadded : FormatSpec := { fs with fieldWidthOpt := .none }

def withPrec (prec : ℤ) : FormatSpec := { fs with prec := prec }

/-- The conversions of a float. -/
def IsFloat : Prop :=
  fs.convSpec = .floatDec ∨ fs.convSpec = .floatSci ∨ fs.convSpec = .floatShortest ∨
    fs.convSpec = .floatHex

/-- The conversions of characters. -/
def IsText : Prop :=
  fs.convSpec = .string ∨ fs.convSpec = .char ∨ fs.convSpec = .percent

end FormatSpec

section Convert

variable {m : DataModel} {fs : FormatSpec} {args rest : List Vararg} {p : Payload}

theorem ofUnsigned_unpadded (fs : FormatSpec) (val : ℕ) :
    Payload.ofUnsigned fs.unpadded val = (Payload.ofUnsigned fs val).unpadded := by
  have hfs : (Payload.ofUnsigned fs.unpadded val).fs = (Payload.ofUnsigned fs val).fs.unpadded := by
    show (if (val = 0 ∧ fs.precOpt = .literal ∧ fs.prec = 0) ∧ fs.convSpec = .octal ∧ fs.altForm
        then { fs.unpadded with prec := 1 } else fs.unpadded) =
      FormatSpec.unpadded (if (val = 0 ∧ fs.precOpt = .literal ∧ fs.prec = 0) ∧
        fs.convSpec = .octal ∧ fs.altForm then { fs with prec := 1 } else fs)
    split_ifs <;> rfl
  exact congrArg (fun f => { Payload.ofUnsigned fs val with fs := f }) hfs

theorem ofFloat_unpadded (fs : FormatSpec) (val : Float32.Model) :
    Payload.ofFloat fs.unpadded val = (Payload.ofFloat fs val).unpadded := by
  have hftoa : ∀ r, Payload.ofFtoa fs.unpadded r = (Payload.ofFtoa fs r).unpadded := fun r => by
    cases r <;> rfl
  exact congrArg (fun p => { p with
    signC := if val < .ofNat 0 then some '-' else fs.prepend
    zero := val == .ofNat 0 : Payload }) (hftoa _)

/-- No conversion looks at the field width. -/
theorem convert_unpadded (h : convert m fs args = some (p, rest)) :
    convert m fs.unpadded args = some (p.unpadded, rest) := by
  have hmap : ∀ {α : Type} (a : Option (α × List Vararg)) (f g : α → Payload),
      (∀ v, g v = (f v).unpadded) → a.map (fun r => (f r.1, r.2)) = some (p, rest) →
      a.map (fun r => (g r.1, r.2)) = some (p.unpadded, rest) := fun a f g hg hf => by
    obtain ⟨r, rfl, heq⟩ := Option.map_eq_some_iff.mp hf
    cases heq
    exact congrArg some (congrArg (·, r.2) (hg r.1))
  cases hc : fs.convSpec with
  | percent =>
    rw [convert, hc] at h
    cases h
    rw [convert, show fs.unpadded.convSpec = _ from hc]
    rfl
  | char =>
    rw [convert, hc] at h
    rw [convert, show fs.unpadded.convSpec = _ from hc]
    exact hmap (vaWord 32 args) (fun w => .ofText fs [Char.ofNat (w.setWidth 8).toNat]) _
      (fun _ => rfl) h
  | string =>
    rw [convert, hc] at h
    rw [convert, show fs.unpadded.convSpec = _ from hc]
    exact hmap (vaString args) (fun s => .ofText fs (stringText fs s)) _ (fun _ => rfl) h
  | signedInt =>
    rw [convert, hc] at h
    rw [convert, show fs.unpadded.convSpec = _ from hc]
    exact hmap _ _ _ (fun _ => rfl) h
  | octal | hexInt | unsignedInt =>
    rw [convert, hc] at h
    rw [convert, show fs.unpadded.convSpec = _ from hc]
    exact hmap _ _ _ (ofUnsigned_unpadded fs) h
  | pointer =>
    rw [convert, hc] at h
    rw [convert, show fs.unpadded.convSpec = _ from hc]
    exact hmap _ _ _ (fun _ => rfl) h
  | floatDec | floatSci | floatShortest | floatHex =>
    rw [convert, hc] at h
    rw [convert, show fs.unpadded.convSpec = _ from hc]
    by_cases hmod : fs.lengthModifier = .longDouble
    · exact absurd ((if_pos hmod).symm.trans h) (Option.some_ne_none _).symm
    · exact (if_neg hmod).trans (hmap (vaDouble args) (fun x => .ofFloat fs (toFloat x)) _
        (fun x => ofFloat_unpadded fs (toFloat x)) ((if_neg hmod).symm.trans h))

theorem fs_ofFloat (fs : FormatSpec) (val : Float32.Model) :
    (Payload.ofFloat fs val).fs = fs ∧ (Payload.ofFloat fs val).need0x = none := by
  have hftoa : ∀ r, (Payload.ofFtoa fs r).fs = fs ∧ (Payload.ofFtoa fs r).need0x = none :=
    fun r => by cases r <;> exact ⟨rfl, rfl⟩
  exact hftoa _

/-- As many digits are skipped as there are after the point, or fewer. -/
theorem sound_ofFloat (hprec : 0 ≤ fs.prec) (hc : fs.convSpec ≠ .string) (val : Float32.Model) :
    (Payload.ofFloat fs val).Sound := by
  obtain ⟨q, hq⟩ := Int.eq_ofNat_of_zero_le hprec
  obtain ⟨hfs, hneed⟩ := fs_ofFloat fs val
  have hsign : (Payload.ofFloat fs val).need0x.isSome ∨
      (Payload.ofFloat fs val).fs.convSpec = .string → (Payload.ofFloat fs val).signC = none := by
    rw [hfs, hneed]
    rintro (h | h)
    · cases h
    · exact absurd h hc
  rcases ftoaRev_cases val.toBits.toBitVec fs.caseAdjust with ⟨frac, int, h, -⟩ | ⟨cs, hcs, h⟩
  · obtain ⟨hcbuf, hlen⟩ := cbuf_ofFloat hq h
    refine ⟨hlen, fun _ => ?_, hsign⟩
    rw [hcbuf]
    simp
  · have hp : Payload.ofFloat fs val = { Payload.ofFtoa fs (.error (letters cs fs.caseAdjust)) with
        signC := (Payload.ofFloat fs val).signC
        zero := val == .ofNat 0 } := by
      rw [← h]
      rfl
    have hne : ∀ cs ∈ notWritten, cs ≠ [] := by decide
    refine ⟨by rw [hp]; rfl, fun _ => ?_, hsign⟩
    rw [hp]
    exact mt List.map_eq_nil_iff.mp (hne cs hcs)

theorem sound_ofText {cbuf : List Char} (hc : fs.convSpec ≠ .floatDec) :
    (Payload.ofText fs cbuf).Sound :=
  ⟨rfl, fun h => absurd h hc, fun _ => rfl⟩

theorem sound_of_convert (h : convert m fs args = some (p, rest))
    (hprec : fs.IsFloat → 0 ≤ fs.prec) : p.Sound := by
  have hfloat : fs.IsFloat → (if fs.lengthModifier = .longDouble then none
      else (vaDouble args).map fun r => (Payload.ofFloat fs (toFloat r.1), r.2)) = some (p, rest) →
      p.Sound := fun hf h => by
    have hstring : fs.convSpec ≠ .string := by
      rcases hf with h | h | h | h <;> rw [h] <;> decide
    split_ifs at h
    obtain ⟨r, -, heq⟩ := Option.map_eq_some_iff.mp h
    cases heq
    exact sound_ofFloat (hprec hf) hstring _
  cases hc : fs.convSpec with
  | percent =>
    rw [convert, hc] at h
    cases h
    exact sound_ofText (by rw [hc]; decide)
  | char =>
    rw [convert, hc] at h
    obtain ⟨r, -, heq⟩ := Option.map_eq_some_iff.mp h
    cases heq
    exact sound_ofText (by rw [hc]; decide)
  | string =>
    rw [convert, hc] at h
    obtain ⟨r, -, heq⟩ := Option.map_eq_some_iff.mp h
    cases heq
    exact sound_ofText (by rw [hc]; decide)
  | signedInt =>
    rw [convert, hc] at h
    obtain ⟨r, -, heq⟩ := Option.map_eq_some_iff.mp h
    cases heq
    refine ⟨rfl, fun h => ?_, ?_⟩
    · exact absurd (hc.symm.trans h) (by decide)
    · rintro (h | h)
      · cases h
      · exact absurd (hc.symm.trans h) (by decide)
  | octal | hexInt | unsignedInt =>
    rw [convert, hc] at h
    obtain ⟨r, -, heq⟩ := Option.map_eq_some_iff.mp h
    cases heq
    have hfs : (Payload.ofUnsigned fs r.1).fs.convSpec = fs.convSpec := by
      unfold Payload.ofUnsigned
      dsimp only
      split_ifs <;> rfl
    exact ⟨rfl, fun h => absurd (hc.symm.trans (hfs.symm.trans h)) (by decide), fun _ => rfl⟩
  | pointer =>
    rw [convert, hc] at h
    obtain ⟨r, -, heq⟩ := Option.map_eq_some_iff.mp h
    cases heq
    exact ⟨rfl, fun h => absurd (hc.symm.trans h) (by decide), fun _ => rfl⟩
  | floatDec =>
    rw [convert, hc] at h
    exact hfloat (.inl hc) h
  | floatSci =>
    rw [convert, hc] at h
    exact hfloat (.inr (.inl hc)) h
  | floatShortest =>
    rw [convert, hc] at h
    exact hfloat (.inr (.inr (.inl hc))) h
  | floatHex =>
    rw [convert, hc] at h
    exact hfloat (.inr (.inr (.inr hc))) h

/-- An octal zero gets a precision, and nothing else is changed. -/
theorem fs_of_convert (h : convert m fs args = some (p, rest)) :
    ∃ prec, p.fs = fs.withPrec prec := by
  have hfloat : (if fs.lengthModifier = .longDouble then none
      else (vaDouble args).map fun r => (Payload.ofFloat fs (toFloat r.1), r.2)) = some (p, rest) →
      ∃ prec, p.fs = fs.withPrec prec := fun h => by
    split_ifs at h
    obtain ⟨r, -, heq⟩ := Option.map_eq_some_iff.mp h
    cases heq
    exact ⟨fs.prec, (fs_ofFloat fs _).1⟩
  cases hc : fs.convSpec with
  | percent =>
    rw [convert, hc] at h
    cases h
    exact ⟨fs.prec, rfl⟩
  | char | string | signedInt | pointer =>
    rw [convert, hc] at h
    obtain ⟨r, -, heq⟩ := Option.map_eq_some_iff.mp h
    cases heq
    exact ⟨fs.prec, rfl⟩
  | octal | hexInt | unsignedInt =>
    rw [convert, hc] at h
    obtain ⟨r, -, heq⟩ := Option.map_eq_some_iff.mp h
    cases heq
    unfold Payload.ofUnsigned
    dsimp only
    split_ifs
    · exact ⟨1, rfl⟩
    · exact ⟨fs.prec, rfl⟩
  | floatDec | floatSci | floatShortest | floatHex =>
    rw [convert, hc] at h
    exact hfloat h

/-- Zeroes are not for texts. -/
theorem padC_isSome (hw : p.fs.fieldWidthOpt = .literal)
    (h : ¬ (p.fs.leadingZeroPad ∧ p.fs.IsText)) : p.padC.isSome := by
  unfold Payload.padC
  rw [if_pos hw]
  by_cases hz : p.fs.leadingZeroPad
  · have htext : p.fs.convSpec ≠ .string ∧ p.fs.convSpec ≠ .char ∧ p.fs.convSpec ≠ .percent :=
      ⟨fun hc => h ⟨hz, .inl hc⟩, fun hc => h ⟨hz, .inr (.inl hc)⟩,
        fun hc => h ⟨hz, .inr (.inr hc)⟩⟩
    rw [if_pos hz, if_pos htext]
    split_ifs <;> rfl
  · rw [if_neg hz]
    rfl

/-- Eight columns, with zeroes. -/
def eightColumns : FormatSpec := { FormatSpec.plain .none .signedInt with
  fieldWidthOpt := .literal
  fieldWidth := 8
  leadingZeroPad := true }

end Convert

end Dpp.Npf
