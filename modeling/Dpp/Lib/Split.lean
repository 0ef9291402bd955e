import Mathlib.Data.List.Infix
import Mathlib.Data.List.Basic

/-!
# Splitting a list at a separator

* `FirstAt sep xs i`: the leftmost occurrence of `sep` in `xs` is at `i`.
* `Pieces sep xs ps`: cut at the leftmost occurrence, and again in what follows it, `xs` is the
  pieces `ps`.
* **`existsUnique_pieces`**: every list has its pieces; **`Pieces.join`**: they make it up again.
-/

namespace Lib.Split

variable {α : Type*}

def FirstAt (sep xs : List α) (i : ℕ) : Prop :=
  sep <+: xs.drop i ∧ ∀ j < i, ¬ sep <+: xs.drop j

inductive Pieces (sep : List α) : List α → List (List α) → Prop
  | last {xs : List α} : ¬ sep <:+: xs → Pieces sep xs [xs]
  | cons {s t : List α} {ps : List (List α)} : FirstAt sep (s ++ sep ++ t) s.length →
      Pieces sep t ps → Pieces sep (s ++ sep ++ t) (s :: ps)

variable {sep xs s : List α} {ps qs : List (List α)} {i j : ℕ}

/-! ## The leftmost occurrence -/

theorem FirstAt.unique (hi : FirstAt sep xs i) (hj : FirstAt sep xs j) : i = j := by
  rcases Nat.lt_trichotomy i j with h | h | h
  · exact absurd hi.1 (hj.2 i h)
  · exact h
  · exact absurd hj.1 (hi.2 j h)

theorem infix_of_prefix_drop (h : sep <+: xs.drop i) : sep <:+: xs :=
  h.isInfix.trans (List.drop_suffix i xs).isInfix

theorem FirstAt.isInfix (h : FirstAt sep xs i) : sep <:+: xs := infix_of_prefix_drop h.1

/-- Before the separator, the separator, and after it. -/
theorem FirstAt.eq_append (h : FirstAt sep xs i) :
    xs = xs.take i ++ sep ++ xs.drop (i + sep.length) := by
  rw [List.append_assoc, ← List.drop_drop, List.prefix_iff_eq_append.mp h.1, List.take_append_drop]

theorem FirstAt.zero (h : sep <+: xs) : FirstAt sep xs 0 := ⟨h, fun _ hj => absurd hj (by omega)⟩

theorem FirstAt.cons {x : α} (h : FirstAt sep xs i) (hx : ¬ sep <+: x :: xs) :
    FirstAt sep (x :: xs) (i + 1) := by
  refine ⟨h.1, fun j hj => ?_⟩
  cases j with
  | zero => exact hx
  | succ j => exact h.2 j (by omega)

/-- A list that has the separator has a leftmost one. -/
theorem exists_firstAt (h : sep <:+: xs) : ∃ i ≤ xs.length, FirstAt sep xs i := by
  induction xs with
  | nil => exact ⟨0, le_refl 0, .zero (List.infix_nil.mp h ▸ List.prefix_rfl)⟩
  | cons x xs ih =>
    by_cases hx : sep <+: x :: xs
    · exact ⟨0, Nat.zero_le _, .zero hx⟩
    · obtain ⟨i, hi, hf⟩ := ih ((List.infix_cons_iff.mp h).resolve_left hx)
      exact ⟨i + 1, Nat.succ_le_succ hi, hf.cons hx⟩

/-! ## Pieces -/

theorem Pieces.ne_nil (h : Pieces sep xs ps) : ps ≠ [] := by
  cases h <;> exact List.cons_ne_nil _ _

/-- Cut at the leftmost separator. -/
theorem Pieces.of_firstAt (h : FirstAt sep xs i) (hi : i ≤ xs.length)
    (ht : Pieces sep (xs.drop (i + sep.length)) ps) : Pieces sep xs (xs.take i :: ps) := by
  have hx := h.eq_append
  have hlen : (xs.take i).length = i := List.length_take_of_le hi
  have hc : Pieces sep (xs.take i ++ sep ++ xs.drop (i + sep.length)) (xs.take i :: ps) :=
    .cons (by rwa [← hx, hlen]) ht
  rwa [← hx] at hc

/-- The first piece ends at the leftmost separator. -/
theorem Pieces.cons_inv (h : Pieces sep xs ps) (hi : FirstAt sep xs i) :
    ∃ qs, ps = xs.take i :: qs ∧ Pieces sep (xs.drop (i + sep.length)) qs := by
  cases h with
  | last h => exact absurd hi.isInfix h
  | @cons s t qs hs ht =>
    obtain rfl : i = s.length := hi.unique hs
    refine ⟨qs, ?_, ?_⟩
    · rw [List.append_assoc, List.take_left]
    · rwa [← List.length_append, List.drop_left]

theorem Pieces.last_inv (h : Pieces sep xs ps) (hx : ¬ sep <:+: xs) : ps = [xs] := by
  cases h with
  | last => rfl
  | cons hs => exact absurd hs.isInfix hx

theorem Pieces.unique (hp : Pieces sep xs ps) (hq : Pieces sep xs qs) : ps = qs := by
  induction hp generalizing qs with
  | last h => exact (hq.last_inv h).symm
  | @cons s t ps hs ht ih =>
    obtain ⟨qs', rfl, hq'⟩ := hq.cons_inv hs
    rw [← List.length_append, List.drop_left] at hq'
    rw [ih hq', List.append_assoc, List.take_left]

theorem exists_pieces (hsep : sep ≠ []) (xs : List α) : ∃ ps, Pieces sep xs ps := by
  induction hn : xs.length using Nat.strong_induction_on generalizing xs with
  | _ n ih =>
    subst hn
    by_cases h : sep <:+: xs
    · obtain ⟨i, hi, hf⟩ := exists_firstAt h
      have hpos : 0 < sep.length := List.length_pos_of_ne_nil hsep
      have hle : (i + sep.length) ≤ xs.length := by
        have := congrArg List.length hf.eq_append
        simp only [List.length_append, List.length_take, List.length_drop] at this
        omega
      obtain ⟨ps, hps⟩ := ih _ (by rw [List.length_drop]; omega) (xs.drop (i + sep.length)) rfl
      exact ⟨_, .of_firstAt hf hi hps⟩
    · exact ⟨_, .last h⟩

/-- **Every list has its pieces**. -/
theorem existsUnique_pieces (hsep : sep ≠ []) (xs : List α) : ∃! ps, Pieces sep xs ps := by
  obtain ⟨ps, hps⟩ := exists_pieces hsep xs
  exact ⟨ps, hps, fun qs hqs => hqs.unique hps⟩

/-- **The pieces make up the list**, with a separator before each but the first. -/
theorem Pieces.join (h : Pieces sep xs ps) (hp : ps = s :: qs) :
    xs = s ++ qs.flatMap (sep ++ ·) := by
  induction h generalizing s qs with
  | last =>
    obtain ⟨rfl, rfl⟩ := List.cons.inj hp
    exact (List.append_nil _).symm
  | cons _ ht ih =>
    obtain ⟨rfl, rfl⟩ := List.cons.inj hp
    obtain ⟨s', qs', rfl⟩ := List.exists_cons_of_ne_nil ht.ne_nil
    rw [ih rfl, List.flatMap_cons]
    simp only [List.append_assoc]

end Lib.Split
