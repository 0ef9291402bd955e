import Dpp.String.Replace
import Dpp.Text.Format

/-!
# Texts in strings

`to_string_hex` and `format` with the strings they work on, in place of lists of characters.

* `bytes`: the characters of a text; `toStringHex`, `formatImpl`, `format`: the functions on
  strings.
* **`toStringHex_holds`**, **`format_holds`**: the strings hold what the functions give on lists.
-/

namespace Dpp.BasicString

open Lib

/-- The characters of a text, one byte each. -/
def bytes (text : List Char) : List UInt8 := text.map Char.toUInt8

@[simp] theorem length_bytes (text : List Char) : (bytes text).length = text.length :=
  List.length_map ..

theorem bytes_append (xs ys : List Char) : bytes (xs ++ ys) = bytes xs ++ bytes ys :=
  List.map_append

/-! ## `to_string_hex` -/

/-- The loop of `to_string_hex` on `rc`. -/
def hexLoop (signed : Bool) {n : ℕ} (w : BitVec n) (hexLen i j : SizeT) (rc : BasicString) :
    Option BasicString :=
  if i < hexLen then do
    let rc ← rc.setChar i.toNat (hexChar signed w j).toUInt8
    hexLoop signed w hexLen (i + 1) (j - 4) rc
  else some rc
termination_by hexLen.toNat - i.toNat
decreasing_by bv_omega

def toStringHex {m : DataModel} {t : IntType} (w : t.Word m) (fillWidth : SizeT) :
    Option BasicString := do
  let len := hexLen m t
  let n := if fillWidth < len then len else fillWidth
  let rc ← sizeInitialize n.toNat '0'.toUInt8
  hexLoop t.signed w n (n - len) ((n - 1) * 4) rc

variable {s : BasicString} {b cap : ℕ}

theorem hexLoop_rep (signed : Bool) {n : ℕ} (w : BitVec n) (hexLen : SizeT) {i j : SizeT}
    {rc : List Char} (h : Rep s b cap (bytes rc)) (hlen : rc.length = hexLen.toNat) :
    ∃ s', hexLoop signed w hexLen i j s = some s' ∧
      Rep s' b cap (bytes (Dpp.hexLoop signed w hexLen i j rc).1) := by
  induction i, j, rc using Dpp.hexLoop.induct signed w hexLen generalizing s with
  | case1 i j rc hi ih =>
    have hlt : i.toNat < (bytes rc).length := by
      rw [length_bytes, hlen]
      exact hi
    obtain ⟨s₁, hs₁, h₁⟩ := setChar_rep h hlt (hexChar signed w j).toUInt8
    rw [bytes, ← List.map_set] at h₁
    obtain ⟨s', hs', hrep⟩ := ih h₁ (by rwa [List.length_set])
    refine ⟨s', ?_, by rwa [hexLoop_of_lt hi]⟩
    rw [hexLoop, if_pos hi, hs₁]
    exact hs'
  | case2 i j rc hi =>
    refine ⟨s, ?_, by rwa [hexLoop_of_not_lt hi]⟩
    rw [hexLoop, if_neg hi]

/-- **The string that `to_string_hex` gives holds its text**, whatever the padding. -/
theorem toStringHex_holds {m : DataModel} {t : IntType} (w : t.Word m) (fillWidth : SizeT)
    (hfit : fillWidth.toNat < 2 ^ 63) :
    ∃ s b cap, toStringHex w fillWidth = some s ∧
      Rep s b cap (bytes (Dpp.toStringHex w fillWidth).1) := by
  generalize hn : (if fillWidth < hexLen m t then hexLen m t else fillWidth) = n
  have hn' : n.toNat < 2 ^ 63 := by
    have hs := t.sizeof_eq m
    rw [← hn, toNat_padded]
    omega
  obtain ⟨s₀, b, hs₀, h₀⟩ := rangeInitialize_rep (List.replicate n.toNat '0'.toUInt8)
    (by rwa [List.length_replicate])
  rw [← List.map_replicate] at h₀
  generalize max 23 _ = cap at h₀
  obtain ⟨s, hs, hrep⟩ := hexLoop_rep t.signed w n (i := n - hexLen m t) (j := (n - 1) * 4) h₀
    List.length_replicate
  refine ⟨s, b, cap, ?_, ?_⟩
  · rw [toStringHex]
    simp only [hn, Option.bind_eq_bind, sizeInitialize_eq, hs₀, Option.bind_some]
    exact hs
  · rw [Dpp.toStringHex]
    simp only [hn]
    exact hrep

theorem toStringHex_abc : ∃ s b cap,
    toStringHex (m := .llp64) (t := ⟨.int, true⟩) (BitVec.ofNat 32 0xabc) 0 = some s ∧
      Rep s b cap [48, 48, 48, 48, 48, 65, 66, 67] := by
  obtain ⟨s, b, cap, hs, hrep⟩ :=
    toStringHex_holds (m := .llp64) (t := ⟨.int, true⟩) (BitVec.ofNat 32 0xabc) 0 (by decide)
  refine ⟨s, b, cap, hs, ?_⟩
  have hright : HexRight (m := .llp64) (t := ⟨.int, true⟩) (BitVec.ofNat 32 0xabc) 0
      (Dpp.toStringHex (m := .llp64) (t := ⟨.int, true⟩) (BitVec.ofNat 32 0xabc) 0) :=
    hexRight_of_mod _ (by decide)
  rw [hright.text] at hrep
  exact hrep

/-! ## `format` -/

section Format

variable {m : DataModel}

/-- `format_impl` on `out`; the string of an argument is a temporary one. -/
def formatImpl (out : BasicString) (fmt : List Char) : List (Arg m) → Option BasicString
  | [] => out.append (.chars (bytes fmt))
  | arg :: args =>
    match Eastl.find placeholder fmt with
    | none => out.append (.chars (bytes fmt))
    | some pos => do
      let out ← out.append (.chars (bytes (fmt.take pos)))
      let temp ← rangeInitialize (bytes (toStringAny arg))
      let out ← out.append (.chars (← temp.contents))
      let _ ← temp.destruct
      formatImpl out (fmt.drop (pos + 2)) args

def format (fmt : List Char) (args : List (Arg m)) : Option BasicString := do
  let out ← construct
  let out ← out.reserve (fmt.length + args.length * 16)
  formatImpl out fmt args

theorem length_le_formatImpl (out fmt : List Char) (args : List (Arg m)) :
    out.length ≤ (Dpp.formatImpl out fmt args).length := by
  induction args generalizing out fmt with
  | nil =>
    rw [Dpp.formatImpl, List.length_append]
    omega
  | cons arg args ih =>
    rw [Dpp.formatImpl]
    split
    · rw [List.length_append]
      omega
    · refine Nat.le_trans ?_ (ih ..)
      simp only [List.length_append]
      omega

theorem formatImpl_rep {out fmt : List Char} {args : List (Arg m)} (h : Rep s b cap (bytes out))
    (hfit : (Dpp.formatImpl out fmt args).length < 2 ^ 62) :
    ∃ s' b' cap', formatImpl s fmt args = some s' ∧
      Rep s' b' cap' (bytes (Dpp.formatImpl out fmt args)) := by
  induction args generalizing s b cap out fmt with
  | nil =>
    rw [Dpp.formatImpl] at hfit ⊢
    rw [← length_bytes, bytes_append] at hfit
    obtain ⟨s', b', cap', hs', hrep, -⟩ := append_rep h (.chars (bytes fmt)) hfit
    exact ⟨s', b', cap', hs', by rwa [bytes_append]⟩
  | cons arg args ih =>
    rw [Dpp.formatImpl] at hfit ⊢
    rw [formatImpl]
    cases hfind : Eastl.find placeholder fmt with
    | none =>
      simp only [hfind] at hfit ⊢
      rw [← length_bytes, bytes_append] at hfit
      obtain ⟨s', b', cap', hs', hrep, -⟩ := append_rep h (.chars (bytes fmt)) hfit
      exact ⟨s', b', cap', hs', by rwa [bytes_append]⟩
    | some pos =>
      simp only [hfind] at hfit ⊢
      have hlen := (length_le_formatImpl ..).trans_lt hfit
      simp only [List.length_append] at hlen
      obtain ⟨s₁, b₁, cap₁, hs₁, h₁, -⟩ := append_rep h (.chars (bytes (fmt.take pos))) (by
        simp only [List.length_append, length_bytes]
        omega)
      obtain ⟨temp, bt, htemp, ht⟩ := rangeInitialize_rep (bytes (toStringAny arg)) (by
        rw [length_bytes]
        omega)
      obtain ⟨s₂, b₂, cap₂, hs₂, h₂, -⟩ := append_rep h₁ (.chars (bytes (toStringAny arg))) (by
        simp only [List.length_append, length_bytes]
        omega)
      obtain ⟨gone, hgone, -⟩ := ht.destruct
      rw [← bytes_append, ← bytes_append] at h₂
      obtain ⟨s', b', cap', hs', hrep⟩ := ih h₂ hfit
      refine ⟨s', b', cap', ?_, hrep⟩
      simp only [Option.bind_eq_bind, hs₁, Option.bind_some, htemp, ht.contents, hs₂, hgone]
      exact hs'

/-- **The string that `format` gives holds the text**, for every format and all arguments. -/
theorem format_holds (fmt : List Char) (args : List (Arg m))
    (hfit : (Dpp.format fmt args).length < 2 ^ 62)
    (hroom : fmt.length + args.length * 16 < 2 ^ 63) :
    ∃ s b cap, format fmt args = some s ∧ Rep s b cap (bytes (Dpp.format fmt args)) := by
  obtain ⟨s₀, hs₀, h₀⟩ := construct_rep
  obtain ⟨s₁, b₁, cap₁, hs₁, h₁, -⟩ := reserve_rep h₀ hroom (.inl rfl)
  obtain ⟨s, b, cap, hs, hrep⟩ : ∃ s b cap, formatImpl s₁ fmt args = some s ∧
      Rep s b cap (bytes (Dpp.formatImpl [] fmt args)) := formatImpl_rep h₁ hfit
  refine ⟨s, b, cap, ?_, hrep⟩
  rw [format, hs₀]
  simp only [Option.bind_eq_bind, Option.bind_some, hs₁]
  exact hs

end Format

theorem format_five : ∃ s b cap,
    format (m := .llp64) ['x', '=', '{', '}'] [.char '5'] = some s ∧ Rep s b cap [120, 61, 53] :=
  format_holds (m := .llp64) ['x', '=', '{', '}'] [.char '5'] (by decide) (by decide)

end Dpp.BasicString
