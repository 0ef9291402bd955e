import Dpp.Lib.Split
import Dpp.Text.ToStringAny

/-!
# `format`

* `Eastl.search`, `Eastl.find`: the search for a text of two characters or more.
* `formatImpl`, `format`: the recursion over the arguments.
* **`Eastl.find_eq_some`**, **`Eastl.find_eq_none`**: it finds the leftmost occurrence.
* **`format_eq`**: the placeholders are replaced from left to right, and nothing else is.
-/

namespace Dpp

open Lib.Split

/-! ## The search -/

namespace Eastl

variable {α : Type} [DecidableEq α]

/-- The comparison in `eastl::search` ends at the end of the pattern, at the end of the text or at
a difference. -/
inductive Compared
  | found
  | last
  | differs

/-- `while(*cur1 == *p2)`, from behind the first character on. -/
def compare : List α → List α → Compared
  | _, [] => .found
  | [], _ :: _ => .last
  | c :: cur1, p :: p2 => if c = p then compare cur1 p2 else .differs

/-- `eastl::search` for the pattern `p :: p2`: the position, or nothing for the end of the text. -/
def search (p : α) (p2 : List α) : List α → Option ℕ
  | [] => none
  | c :: first1 =>
    if c = p then
      match compare first1 p2 with
      | .found => some 0
      | .last => none
      | .differs => (search p p2 first1).map (· + 1)
    else (search p p2 first1).map (· + 1)

/-- `string_view::find`. -/
def find (sw xs : List α) : Option ℕ :=
  if sw.length ≤ xs.length then
    match sw with
    | [] => some 0
    | p :: p2 => search p p2 xs
  else none

variable {p : α} {p2 cur1 xs sw : List α} {i : ℕ}

theorem compare_found (h : compare cur1 p2 = .found) : p2 <+: cur1 := by
  induction p2 generalizing cur1 with
  | nil => exact List.nil_prefix
  | cons p p2 ih =>
    cases cur1 with
    | nil => exact Compared.noConfusion h
    | cons c cur1 =>
      unfold compare at h
      split_ifs at h with hc
      exact List.cons_prefix_cons.mpr ⟨hc.symm, ih h⟩

theorem compare_last (h : compare cur1 p2 = .last) : cur1.length < p2.length := by
  induction p2 generalizing cur1 with
  | nil => cases cur1 <;> exact Compared.noConfusion h
  | cons p p2 ih =>
    cases cur1 with
    | nil => exact Nat.succ_pos _
    | cons c cur1 =>
      unfold compare at h
      split_ifs at h
      exact Nat.succ_lt_succ (ih h)

theorem compare_differs (h : compare cur1 p2 = .differs) : ¬ p2 <+: cur1 := by
  induction p2 generalizing cur1 with
  | nil => cases cur1 <;> exact Compared.noConfusion h
  | cons p p2 ih =>
    cases cur1 with
    | nil => exact Compared.noConfusion h
    | cons c cur1 =>
      rw [List.cons_prefix_cons]
      unfold compare at h
      split_ifs at h with hc
      · exact fun hp => ih h hp.2
      · exact fun hp => hc hp.1.symm

/-- What `search` gives is right. -/
theorem search_spec (p : α) (p2 xs : List α) :
    match search p p2 xs with
    | some i => FirstAt (p :: p2) xs i
    | none => ¬ p :: p2 <:+: xs := by
  induction xs with
  | nil => exact fun h => List.cons_ne_nil _ _ (List.infix_nil.mp h)
  | cons c xs ih =>
    -- where the pattern does not start here, the rest decides
    have hstep (hc : ¬ p :: p2 <+: c :: xs) :
        match (search p p2 xs).map (· + 1) with
        | some i => FirstAt (p :: p2) (c :: xs) i
        | none => ¬ p :: p2 <:+: c :: xs := by
      cases hs : search p p2 xs with
      | none =>
        rw [hs] at ih
        exact fun h => (List.infix_cons_iff.mp h).elim hc ih
      | some i =>
        rw [hs] at ih
        exact ih.cons hc
    unfold search
    split_ifs with hcp
    · subst hcp
      cases h : compare xs p2 with
      | found => exact .zero (List.cons_prefix_cons.mpr ⟨rfl, compare_found h⟩)
      | last =>
        intro hx
        have := compare_last h
        have := hx.length_le
        simp only [List.length_cons] at this
        omega
      | differs => exact hstep fun hp => compare_differs h (List.cons_prefix_cons.mp hp).2
    · exact hstep fun hp => hcp (List.cons_prefix_cons.mp hp).1.symm

/-- **`find` gives the leftmost occurrence**. -/
theorem find_eq_some (h : find sw xs = some i) : FirstAt sw xs i := by
  unfold find at h
  split_ifs at h
  cases sw with
  | nil => exact Option.some.inj h ▸ .zero List.nil_prefix
  | cons p p2 =>
    have := search_spec p p2 xs
    simp only at h
    rwa [h] at this

/-- **`find` gives nothing only if** there is no occurrence. -/
theorem find_eq_none (h : find sw xs = none) : ¬ sw <:+: xs := by
  unfold find at h
  split_ifs at h with hl
  · cases sw with
    | nil => exact absurd h (Option.some_ne_none _)
    | cons p p2 =>
      have := search_spec p p2 xs
      simp only at h
      rwa [h] at this
  · exact fun hx => hl hx.length_le

end Eastl

/-! ## Formatting -/

/-- `"{}"`. -/
def placeholder : List Char := ['{', '}']

section Format

variable {m : DataModel}

def formatImpl (out fmt : List Char) : List (Arg m) → List Char
  | [] => out ++ fmt
  | arg :: args =>
    match Eastl.find placeholder fmt with
    | none => out ++ fmt
    | some pos => formatImpl (out ++ fmt.take pos ++ toStringAny arg) (fmt.drop (pos + 2)) args

def format (fmt : List Char) (args : List (Arg m)) : List Char := formatImpl [] fmt args

/-- What is left of the pieces `s :: ps` of a format with `args` for its placeholders: as many are
replaced as there are arguments, and the others stay. -/
def substituted (s : List Char) (ps : List (List Char)) (args : List (Arg m)) : List Char :=
  s ++ (args.zip ps).flatMap (fun r => toStringAny r.1 ++ r.2) ++
    (ps.drop args.length).flatMap (placeholder ++ ·)

theorem formatImpl_eq {fmt s : List Char} {ps : List (List Char)}
    (h : Pieces placeholder fmt (s :: ps)) (out : List Char) (args : List (Arg m)) :
    formatImpl out fmt args = out ++ substituted s ps args := by
  induction args generalizing fmt s ps out with
  | nil =>
    unfold formatImpl
    rw [h.join rfl]
    simp [substituted]
  | cons arg args ih =>
    unfold formatImpl
    cases hf : Eastl.find placeholder fmt with
    | none =>
      obtain ⟨rfl, rfl⟩ := List.cons.inj (h.last_inv (Eastl.find_eq_none hf))
      simp [substituted]
    | some pos =>
      obtain ⟨qs, hqs, ht⟩ := h.cons_inv (Eastl.find_eq_some hf)
      obtain ⟨rfl, rfl⟩ := List.cons.inj hqs
      obtain ⟨s', ps', rfl⟩ := List.exists_cons_of_ne_nil ht.ne_nil
      change formatImpl _ (fmt.drop (pos + placeholder.length)) args = _
      rw [ih ht]
      simp [substituted]

/-- **`format` replaces the placeholders from left to right**: a format has one decomposition at
them, and its text is the pieces with the texts of the arguments between them. -/
theorem format_eq (fmt : List Char) (args : List (Arg m)) :
    ∃ s ps, (∀ qs, Pieces placeholder fmt qs ↔ qs = s :: ps) ∧
      format fmt args = substituted s ps args := by
  obtain ⟨ps, hps, hu⟩ := existsUnique_pieces (List.cons_ne_nil '{' ['}']) fmt
  obtain ⟨s, qs, rfl⟩ := List.exists_cons_of_ne_nil hps.ne_nil
  exact ⟨s, qs, fun rs => ⟨hu rs, fun h => h ▸ hps⟩, formatImpl_eq hps [] args⟩

end Format

end Dpp
