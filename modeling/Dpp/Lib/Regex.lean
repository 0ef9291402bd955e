import Mathlib.Computability.Language
import Mathlib.Data.List.TakeWhile
import Mathlib.Order.Nat

/-!
# Regular expressions and what `grep -o` prints

Regular expressions over classes of characters, matched by derivatives. A match is the longest one
at the leftmost place that has one, as in a POSIX search.

* `Regex`, `Regex.lang`: an expression and its language.
* `Regex.accepts`, `Regex.longest`: a whole text, and the longest prefix of it;
  **`longest_eq_some_iff`**, **`longest_eq_none_iff`**.
* `Regex.grepO`: the matches in a line, from left to right; **`exists_of_grepO_eq_cons`**,
  **`grepO_eq_nil_iff`**.
* `Regex.grepStart`, `Regex.grepEnd`: the same for an expression after `^` and before `$`.
-/

namespace Lib

open Computability

/-- A regular expression over the classes of `α`. -/
inductive Regex (α : Type*)
  | empty
  | epsilon
  | one (p : α → Bool)
  | alt (r s : Regex α)
  | seq (r s : Regex α)
  | star (r : Regex α)

namespace Regex

variable {α : Type*}

/-- The texts an expression matches. -/
def lang : Regex α → Language α
  | empty => 0
  | epsilon => 1
  | one p => {w | ∃ a, p a ∧ w = [a]}
  | alt r s => r.lang + s.lang
  | seq r s => r.lang * s.lang
  | star r => r.lang∗

/-- The expression of one text. -/
def literal [DecidableEq α] : List α → Regex α
  | [] => epsilon
  | a :: w => seq (one (· = a)) (literal w)

/-- The expression of some texts. -/
def oneOf [DecidableEq α] : List (List α) → Regex α
  | [] => empty
  | w :: ws => alt (literal w) (oneOf ws)

variable {r s : Regex α} {w : List α}

theorem mem_lang_alt : w ∈ (alt r s).lang ↔ w ∈ r.lang ∨ w ∈ s.lang := Language.mem_add ..

theorem mem_lang_seq : w ∈ (seq r s).lang ↔ ∃ u ∈ r.lang, ∃ v ∈ s.lang, u ++ v = w :=
  Language.mem_mul

theorem mem_lang_epsilon : w ∈ (epsilon : Regex α).lang ↔ w = [] := Language.mem_one _

theorem mem_lang_literal [DecidableEq α] {u : List α} : w ∈ (literal u).lang ↔ w = u := by
  induction u generalizing w with
  | nil => exact mem_lang_epsilon
  | cons a u ih =>
    rw [literal, mem_lang_seq]
    constructor
    · rintro ⟨x, ⟨b, hb, rfl⟩, v, hv, rfl⟩
      rw [ih.mp hv, of_decide_eq_true hb]
      rfl
    · rintro rfl
      exact ⟨[a], ⟨a, decide_eq_true rfl, rfl⟩, u, ih.mpr rfl, rfl⟩

theorem mem_lang_oneOf [DecidableEq α] {ws : List (List α)} : w ∈ (oneOf ws).lang ↔ w ∈ ws := by
  induction ws with
  | nil => exact iff_of_false (Language.notMem_zero _) List.not_mem_nil
  | cons u ws ih => rw [oneOf, mem_lang_alt, mem_lang_literal, ih, List.mem_cons]

/-- A star over a class. -/
theorem mem_lang_star_one {p : α → Bool} : w ∈ (star (one p)).lang ↔ ∀ a ∈ w, p a := by
  rw [lang, Language.mem_kstar]
  constructor
  · rintro ⟨ws, rfl, h⟩ a ha
    obtain ⟨u, hu, ha⟩ := List.mem_flatten.mp ha
    obtain ⟨b, hb, rfl⟩ := h u hu
    exact List.mem_singleton.mp ha ▸ hb
  · intro h
    refine ⟨w.map fun a => [a], (List.flatMap_singleton' w).symm, fun u hu => ?_⟩
    obtain ⟨a, ha, rfl⟩ := List.mem_map.mp hu
    exact ⟨a, h a ha, rfl⟩

/-! ## Derivatives -/

/-- The empty text matches. -/
def nullable : Regex α → Bool
  | empty | one _ => false
  | epsilon | star _ => true
  | alt r s => r.nullable || s.nullable
  | seq r s => r.nullable && s.nullable

/-- What is left to match after `a`. -/
def deriv (a : α) : Regex α → Regex α
  | empty | epsilon => empty
  | one p => if p a then epsilon else empty
  | alt r s => alt (r.deriv a) (s.deriv a)
  | seq r s =>
    if r.nullable then alt (seq (r.deriv a) s) (s.deriv a) else seq (r.deriv a) s
  | star r => seq (r.deriv a) (star r)

/-- The whole text matches. -/
def accepts : Regex α → List α → Bool
  | r, [] => r.nullable
  | r, a :: w => (r.deriv a).accepts w

/-- The longest prefix that matches. -/
def longest : Regex α → List α → Option (List α)
  | r, [] => if r.nullable then some [] else none
  | r, a :: s =>
    match (r.deriv a).longest s with
    | some w => some (a :: w)
    | none => if r.nullable then some [] else none

section Derivatives

variable {r : Regex α} {w : List α} {a : α}

theorem nullable_iff : r.nullable ↔ [] ∈ r.lang := by
  induction r with
  | empty => simp [nullable, lang]
  | epsilon => simp [nullable, lang]
  | one p =>
    change false = true ↔ ∃ a, p a ∧ [] = [a]
    simp
  | alt r s ihr ihs =>
    rw [lang, Language.mem_add, ← ihr, ← ihs]
    simp [nullable]
  | seq r s ihr ihs =>
    rw [lang, Language.mem_mul, nullable, Bool.and_eq_true, ihr, ihs]
    constructor
    · rintro ⟨hr, hs⟩
      exact ⟨[], hr, [], hs, rfl⟩
    · rintro ⟨u, hu, v, hv, h⟩
      obtain ⟨rfl, rfl⟩ := List.append_eq_nil_iff.mp h
      exact ⟨hu, hv⟩
  | star r ih => exact iff_of_true rfl (Language.nil_mem_kstar _)

/-- One text of a star, and the rest. -/
theorem cons_mem_kstar {l : Language α} :
    a :: w ∈ l∗ ↔ ∃ u v, a :: u ∈ l ∧ v ∈ l∗ ∧ u ++ v = w := by
  constructor
  · intro h
    obtain ⟨ws, hw, hl⟩ := Language.mem_kstar_iff_exists_nonempty.mp h
    cases ws with
    | nil => cases hw
    | cons x ws =>
      obtain ⟨hx, hne⟩ := hl x (List.mem_cons_self ..)
      obtain ⟨b, u, rfl⟩ := List.exists_cons_of_ne_nil hne
      obtain ⟨rfl, rfl⟩ := List.cons.inj hw
      exact ⟨u, ws.flatten, hx,
        Language.join_mem_kstar fun y hy => (hl y (List.mem_cons_of_mem _ hy)).1, rfl⟩
  · rintro ⟨u, v, hu, hv, rfl⟩
    obtain ⟨ws, rfl, hl⟩ := Language.mem_kstar.mp hv
    refine Language.mem_kstar.mpr ⟨(a :: u) :: ws, rfl, ?_⟩
    rintro y (_ | ⟨_, hy⟩)
    · exact hu
    · exact hl y hy

/-- **The derivative.** -/
theorem mem_lang_deriv : w ∈ (r.deriv a).lang ↔ a :: w ∈ r.lang := by
  induction r generalizing w with
  | empty => exact Iff.rfl
  | epsilon => simp [deriv, lang]
  | one p =>
    change w ∈ (if p a then epsilon else empty : Regex α).lang ↔ ∃ b, p b ∧ a :: w = [b]
    by_cases h : p a
    · rw [if_pos h, lang, Language.mem_one]
      constructor
      · rintro rfl
        exact ⟨a, h, rfl⟩
      · rintro ⟨b, -, hb⟩
        exact (List.cons.inj hb).2
    · rw [if_neg h]
      refine iff_of_false (Language.notMem_zero _) ?_
      rintro ⟨b, hb, hab⟩
      exact h ((List.cons.inj hab).1 ▸ hb)
  | alt r s ihr ihs =>
    rw [deriv, lang, lang, Language.mem_add, Language.mem_add, ihr, ihs]
  | seq r s ihr ihs =>
    have hcons : a :: w ∈ (seq r s).lang ↔
        (∃ u v, a :: u ∈ r.lang ∧ v ∈ s.lang ∧ u ++ v = w) ∨ [] ∈ r.lang ∧ a :: w ∈ s.lang := by
      rw [lang, Language.mem_mul]
      constructor
      · rintro ⟨x, hx, v, hv, h⟩
        cases x with
        | nil => exact .inr ⟨hx, h ▸ hv⟩
        | cons b u =>
          obtain ⟨rfl, huv⟩ := List.cons.inj h
          exact .inl ⟨u, v, hx, hv, huv⟩
      · rintro (⟨u, v, hu, hv, rfl⟩ | ⟨hn, hs⟩)
        · exact ⟨a :: u, hu, v, hv, rfl⟩
        · exact ⟨[], hn, a :: w, hs, rfl⟩
    have hseq : w ∈ (seq (r.deriv a) s).lang ↔
        ∃ u v, a :: u ∈ r.lang ∧ v ∈ s.lang ∧ u ++ v = w := by
      rw [lang, Language.mem_mul]
      constructor
      · rintro ⟨u, hu, v, hv, h⟩
        exact ⟨u, v, ihr.mp hu, hv, h⟩
      · rintro ⟨u, v, hu, hv, h⟩
        exact ⟨u, ihr.mpr hu, v, hv, h⟩
    rw [hcons, ← nullable_iff, deriv]
    by_cases hn : r.nullable
    · rw [if_pos hn, lang, Language.mem_add, hseq, ihs]
      simp [hn]
    · rw [if_neg hn, hseq]
      simp [hn]
  | star r ih =>
    rw [deriv, lang, Language.mem_mul]
    change (∃ u ∈ (r.deriv a).lang, ∃ v ∈ r.lang∗, u ++ v = w) ↔ a :: w ∈ r.lang∗
    rw [cons_mem_kstar]
    constructor
    · rintro ⟨u, hu, v, hv, h⟩
      exact ⟨u, v, ih.mp hu, hv, h⟩
    · rintro ⟨u, v, hu, hv, h⟩
      exact ⟨u, ih.mpr hu, v, hv, h⟩

theorem accepts_iff : r.accepts w ↔ w ∈ r.lang := by
  induction w generalizing r with
  | nil => exact nullable_iff
  | cons a w ih => exact ih.trans mem_lang_deriv

end Derivatives

/-! ## The longest prefix -/

section Search

variable {r : Regex α} {s t u w : List α} {a : α}

/-- `w` is the longest prefix of `s` that matches. -/
structure IsLongest (r : Regex α) (s w : List α) : Prop where
  isPrefix : w <+: s
  mem : w ∈ r.lang
  max : ∀ u, u <+: s → u ∈ r.lang → u.length ≤ w.length

theorem IsLongest.unique (hw : r.IsLongest s w) (hu : r.IsLongest s u) : w = u := by
  refine List.IsPrefix.eq_of_length_le
    (List.prefix_of_prefix_length_le hw.isPrefix hu.isPrefix ?_) ?_
  · exact hu.max w hw.isPrefix hw.mem
  · exact hw.max u hu.isPrefix hu.mem

/-- The prefixes of `a :: s` that match. -/
theorem prefix_cons_mem_iff :
    (u <+: a :: s ∧ u ∈ r.lang) ↔
      (u = [] ∧ r.nullable) ∨ ∃ v, u = a :: v ∧ v <+: s ∧ v ∈ (r.deriv a).lang := by
  cases u with
  | nil => simp [nullable_iff]
  | cons b v =>
    rw [List.cons_prefix_cons]
    constructor
    · rintro ⟨⟨rfl, hv⟩, hm⟩
      exact .inr ⟨v, rfl, hv, mem_lang_deriv.mpr hm⟩
    · rintro (⟨h, -⟩ | ⟨v', h, hv, hm⟩)
      · cases h
      · cases h
        exact ⟨⟨rfl, hv⟩, mem_lang_deriv.mp hm⟩

theorem longest_eq_none_iff : r.longest s = none ↔ ∀ u, u <+: s → u ∉ r.lang := by
  induction s generalizing r with
  | nil =>
    have h : (∀ u, u <+: [] → u ∉ r.lang) ↔ [] ∉ r.lang := by simp
    rw [h, ← nullable_iff, longest]
    split_ifs with hn <;> simp [hn]
  | cons a s ih =>
    have h : (∀ u, u <+: a :: s → u ∉ r.lang) ↔
        ¬ r.nullable ∧ ∀ v, v <+: s → v ∉ (r.deriv a).lang := by
      constructor
      · intro h
        refine ⟨fun hn => h [] List.nil_prefix (nullable_iff.mp hn), fun v hv hm => ?_⟩
        exact h (a :: v) (List.cons_prefix_cons.mpr ⟨rfl, hv⟩) (mem_lang_deriv.mp hm)
      · rintro ⟨hn, hd⟩ u hu hm
        rcases prefix_cons_mem_iff.mp ⟨hu, hm⟩ with ⟨-, h⟩ | ⟨v, -, hv, hm⟩
        · exact hn h
        · exact hd v hv hm
    rw [h, ← ih, longest]
    cases (r.deriv a).longest s with
    | none => simp
    | some w => simp

theorem isLongest_of_longest (h : r.longest s = some w) : r.IsLongest s w := by
  induction s generalizing r w with
  | nil =>
    rw [longest] at h
    split_ifs at h with hn
    cases h
    exact ⟨List.prefix_rfl, nullable_iff.mp hn, fun u hu _ => hu.length_le⟩
  | cons a s ih =>
    rw [longest] at h
    cases hd : (r.deriv a).longest s with
    | none =>
      rw [hd] at h
      simp only [Option.ite_none_right_eq_some, Option.some.injEq] at h
      obtain ⟨hn, rfl⟩ := h
      refine ⟨List.nil_prefix, nullable_iff.mp hn, fun u hu hm => ?_⟩
      rcases prefix_cons_mem_iff.mp ⟨hu, hm⟩ with ⟨rfl, -⟩ | ⟨v, -, hv, hm⟩
      · exact le_rfl
      · exact absurd hm (longest_eq_none_iff.mp hd v hv)
    | some v =>
      rw [hd] at h
      cases h
      have hv := ih hd
      refine ⟨List.cons_prefix_cons.mpr ⟨rfl, hv.isPrefix⟩, mem_lang_deriv.mp hv.mem,
        fun u hu hm => ?_⟩
      rcases prefix_cons_mem_iff.mp ⟨hu, hm⟩ with ⟨rfl, -⟩ | ⟨x, rfl, hx, hm⟩
      · exact Nat.zero_le _
      · exact Nat.succ_le_succ (hv.max x hx hm)

/-- **The longest prefix that matches.** -/
theorem longest_eq_some_iff : r.longest s = some w ↔ r.IsLongest s w := by
  refine ⟨isLongest_of_longest, fun h => ?_⟩
  cases hl : r.longest s with
  | none => exact absurd h.mem (longest_eq_none_iff.mp hl w h.isPrefix)
  | some u => rw [(isLongest_of_longest hl).unique h]

/-! ## The matches in a line -/

/-- The matches in what follows the next `k` characters; empty ones are not printed. -/
def grepFrom (r : Regex α) : List α → ℕ → List (List α)
  | [], _ => []
  | _ :: s, k + 1 => grepFrom r s k
  | a :: s, 0 =>
    match r.longest (a :: s) with
    | some (b :: w) => (b :: w) :: grepFrom r s w.length
    | _ => grepFrom r s 0

/-- What `grep -o` prints of a line. -/
def grepO (r : Regex α) (s : List α) : List (List α) := r.grepFrom s 0

/-- A match that is not empty begins here. -/
def Begins (r : Regex α) (s : List α) : Prop := ∃ w, w ≠ [] ∧ w <+: s ∧ w ∈ r.lang

theorem grepFrom_eq (r : Regex α) (s : List α) (k : ℕ) : r.grepFrom s k = r.grepO (s.drop k) := by
  induction s generalizing k with
  | nil => simp [grepO, grepFrom]
  | cons a s ih =>
    cases k with
    | zero => rfl
    | succ k => exact ih k

theorem not_begins_nil : ¬ r.Begins [] := by
  rintro ⟨w, hw, hp, -⟩
  exact hw (List.prefix_nil.mp hp)

theorem IsLongest.begins (h : r.IsLongest s w) (hw : w ≠ []) : r.Begins s :=
  ⟨w, hw, h.isPrefix, h.mem⟩

/-- Where a match begins, there is a longest one, and it is not empty. -/
theorem Begins.exists_isLongest (h : r.Begins s) : ∃ w, w ≠ [] ∧ r.IsLongest s w := by
  obtain ⟨u, hu, hp, hm⟩ := h
  cases hl : r.longest s with
  | none => exact absurd hm (longest_eq_none_iff.mp hl u hp)
  | some w =>
    have hw := isLongest_of_longest hl
    refine ⟨w, ?_, hw⟩
    rintro rfl
    exact hu (List.eq_nil_of_length_eq_zero (Nat.le_zero.mp (hw.max u hp hm)))

@[simp] theorem grepO_nil : r.grepO [] = [] := rfl

theorem grepO_cons_of_not_begins (h : ¬ r.Begins (a :: s)) : r.grepO (a :: s) = r.grepO s := by
  rw [grepO, grepFrom]
  split
  · rename_i b w hl
    exact absurd ((isLongest_of_longest hl).begins (List.cons_ne_nil _ _)) h
  · rfl

/-- A match that begins here is printed, and the search goes on behind it. -/
theorem grepO_of_isLongest (h : r.IsLongest s w) (hw : w ≠ []) :
    r.grepO s = w :: r.grepO (s.drop w.length) := by
  cases s with
  | nil => exact absurd (List.prefix_nil.mp h.isPrefix) hw
  | cons a s =>
    obtain ⟨b, v, rfl⟩ := List.exists_cons_of_ne_nil hw
    rw [grepO, grepFrom, longest_eq_some_iff.mpr h]
    dsimp only
    rw [grepFrom_eq, List.length_cons, List.drop_succ_cons]

/-- Nothing is printed of a text in which no match begins. -/
theorem grepO_append_of_not_begins (h : ∀ u v, u ++ v = s → v ≠ [] → ¬ r.Begins (v ++ t)) :
    r.grepO (s ++ t) = r.grepO t := by
  induction s with
  | nil => rfl
  | cons a s ih =>
    have hb : ¬ r.Begins (a :: (s ++ t)) := h [] (a :: s) rfl (List.cons_ne_nil _ _)
    rw [List.cons_append, grepO_cons_of_not_begins hb]
    exact ih fun u v hs hv => h (a :: u) v (by rw [← hs]; rfl) hv

theorem grepO_eq_nil_iff : r.grepO s = [] ↔ ∀ u v, u ++ v = s → ¬ r.Begins v := by
  induction s with
  | nil =>
    refine iff_of_true rfl ?_
    rintro u v h
    rw [(List.append_eq_nil_iff.mp h).2]
    exact not_begins_nil
  | cons a s ih =>
    by_cases hb : r.Begins (a :: s)
    · obtain ⟨w, hw, hl⟩ := hb.exists_isLongest
      rw [grepO_of_isLongest hl hw]
      refine iff_of_false (List.cons_ne_nil _ _) fun h => h [] (a :: s) rfl hb
    · rw [grepO_cons_of_not_begins hb, ih]
      constructor
      · intro h u v huv
        cases u with
        | nil => exact (show v = a :: s from huv) ▸ hb
        | cons b u => exact h u v (List.cons.inj huv).2
      · intro h u v huv
        exact h (a :: u) v (by rw [← huv]; rfl)

/-- **The first match** is the leftmost one and the longest there; the others are behind it. -/
theorem exists_of_grepO_eq_cons {ws : List (List α)} (h : r.grepO s = w :: ws) :
    ∃ u t, s = u ++ t ∧ (∀ x v, x ++ v = u → v ≠ [] → ¬ r.Begins (v ++ t)) ∧ w ≠ [] ∧
      r.IsLongest t w ∧ r.grepO (t.drop w.length) = ws := by
  induction s with
  | nil => cases h
  | cons a s ih =>
    by_cases hb : r.Begins (a :: s)
    · obtain ⟨v, hv, hl⟩ := hb.exists_isLongest
      rw [grepO_of_isLongest hl hv] at h
      obtain ⟨rfl, hws⟩ := List.cons.inj h
      refine ⟨[], a :: s, rfl, fun x y hxy hy => ?_, hv, hl, hws⟩
      exact absurd (List.append_eq_nil_iff.mp hxy).2 hy
    · rw [grepO_cons_of_not_begins hb] at h
      obtain ⟨u, t, rfl, hu, hrest⟩ := ih h
      refine ⟨a :: u, t, rfl, fun x v hxv hv => ?_, hrest⟩
      cases x with
      | nil =>
        obtain rfl : v = a :: u := hxv
        exact hb
      | cons b x => exact hu x v (List.cons.inj hxv).2 hv

/-! ## Anchors -/

/-- What `grep -o` prints of a line for an expression after `^`. -/
def grepStart (r : Regex α) (s : List α) : List (List α) :=
  match r.longest s with
  | some (a :: w) => [a :: w]
  | _ => []

/-- Where a match begins, it is printed. -/
theorem grepStart_ne_nil (h : r.Begins s) : r.grepStart s ≠ [] := by
  obtain ⟨w, hw, hl⟩ := h.exists_isLongest
  obtain ⟨a, v, rfl⟩ := List.exists_cons_of_ne_nil hw
  rw [grepStart, longest_eq_some_iff.mpr hl]
  exact List.cons_ne_nil _ _

/-- What `grep -o` prints of a line for an expression before `$`: the longest suffix that
matches. -/
def grepEnd (r : Regex α) : List α → List (List α)
  | [] => []
  | a :: s => if r.accepts (a :: s) then [a :: s] else grepEnd r s

/-! ## One character and a class -/

variable {p q : α → Bool}

/-- The only prefix that matches, and the characters of a class behind it. -/
theorem isLongest_seq_star (hw : w ∈ r.lang) (hr : ∀ u, u <+: w ++ s → u ∈ r.lang → u = w) :
    (seq r (star (one q))).IsLongest (w ++ s) (w ++ s.takeWhile q) := by
  refine ⟨(List.prefix_append_right_inj w).mpr (List.takeWhile_prefix q), ?_, fun u hu hm => ?_⟩
  · refine mem_lang_seq.mpr ⟨w, hw, s.takeWhile q, ?_, rfl⟩
    exact mem_lang_star_one.mpr fun b hb => List.mem_takeWhile_imp hb
  · obtain ⟨x, hx, v, hv, rfl⟩ := mem_lang_seq.mp hm
    obtain rfl := hr x ((List.prefix_append x v).trans hu) hx
    obtain ⟨z, rfl⟩ := (List.prefix_append_right_inj x).mp hu
    have hvq : v <+: (v ++ z).takeWhile q := by
      rw [List.takeWhile_append_of_pos (mem_lang_star_one.mp hv)]
      exact List.prefix_append ..
    rw [List.length_append, List.length_append]
    exact Nat.add_le_add_left hvq.length_le _

/-- A character and the characters of a class behind it. -/
theorem isLongest_one_star (h : p a) :
    (seq (one p) (star (one q))).IsLongest (a :: s) (a :: s.takeWhile q) := by
  refine isLongest_seq_star (w := [a]) ⟨a, h, rfl⟩ fun u hu hm => ?_
  obtain ⟨b, -, rfl⟩ := hm
  rw [(List.cons_prefix_cons.mp hu).1]

theorem begins_one_star_iff : (seq (one p) (star (one q))).Begins (a :: s) ↔ p a := by
  constructor
  · rintro ⟨w, hw, hp, hm⟩
    obtain ⟨_, ⟨b, hb, rfl⟩, v, hv, rfl⟩ := mem_lang_seq.mp hm
    exact (List.cons_prefix_cons.mp hp).1 ▸ hb
  · exact fun h => (isLongest_one_star h).begins (List.cons_ne_nil _ _)

/-- The suffix behind the last character that is not of the class. -/
theorem grepEnd_star (h : ∀ a ∈ t, q a) (ht : t ≠ []) (hs : ∀ a, s.getLast? = some a → ¬ q a) :
    (star (one q)).grepEnd (s ++ t) = [t] := by
  induction s with
  | nil =>
    obtain ⟨a, v, rfl⟩ := List.exists_cons_of_ne_nil ht
    exact if_pos (accepts_iff.mpr (mem_lang_star_one.mpr h))
  | cons a s ih =>
    have hn : ¬ (star (one q)).accepts (a :: (s ++ t)) := by
      rw [accepts_iff, mem_lang_star_one]
      intro hall
      have hne : a :: s ≠ [] := List.cons_ne_nil _ _
      refine hs _ (List.getLast?_eq_some_getLast hne) (hall _ ?_)
      exact List.mem_append_left t (List.getLast_mem hne)
    rw [List.cons_append, grepEnd, if_neg hn]
    refine ih fun b hb => hs b ?_
    cases s with
    | nil => cases hb
    | cons c s => exact hb

theorem grepEnd_star_nil (hs : ∀ a, s.getLast? = some a → ¬ q a) :
    (star (one q)).grepEnd s = [] := by
  induction s with
  | nil => rfl
  | cons a s ih =>
    have hn : ¬ (star (one q)).accepts (a :: s) := by
      rw [accepts_iff, mem_lang_star_one]
      intro hall
      have hne : a :: s ≠ [] := List.cons_ne_nil _ _
      exact hs _ (List.getLast?_eq_some_getLast hne) (hall _ (List.getLast_mem hne))
    rw [grepEnd, if_neg hn]
    refine ih fun b hb => hs b ?_
    cases s with
    | nil => cases hb
    | cons c s => exact hb

end Search

end Regex

end Lib
