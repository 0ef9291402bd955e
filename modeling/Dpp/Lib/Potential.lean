import Dpp.Lib.System
import Mathlib.Algebra.BigOperators.Finprod

/-!
# Costs of runs

Each step of a system has a cost and a credit, and a potential keeps what is paid and not yet used.

* `System.total`: the sum of a cost over the steps of a run.
* **`total_le`**: where every step pays its cost out of its credit and the potential, a run costs at
  most its credit and the potential it starts with.
* `length_le`: a run is no longer than a potential that every step lowers.
* `finsum_update`: a sum over finitely many holders when one of them changes.
-/

namespace Lib

namespace System

variable {σ α : Type*} (M : System σ α)

/-- The sum of `cost` over the steps that the run `as` takes from `s`. -/
def total (cost : σ → α → ℕ) : σ → List α → ℕ
  | _, [] => 0
  | s, a :: as =>
    match M.step s a with
    | some s' => cost s a + total cost s' as
    | none => 0

variable {M} {I : σ → Prop} {Φ : σ → ℕ} {cost credit : σ → α → ℕ} {s s' : σ} {a : α} {as : List α}

theorem total_cons (h : M.step s a = some s') :
    M.total cost s (a :: as) = cost s a + M.total cost s' as := by
  rw [total, h]

theorem total_add (f g : σ → α → ℕ) (s : σ) (as : List α) :
    M.total (fun s a => f s a + g s a) s as = M.total f s as + M.total g s as := by
  induction as generalizing s with
  | nil => rfl
  | cons a as ih =>
    cases h : M.step s a with
    | none => simp [total, h]
    | some s' =>
      rw [total_cons h, total_cons h, total_cons h, ih]
      omega

theorem total_const_mul (c : ℕ) (f : σ → α → ℕ) (s : σ) (as : List α) :
    M.total (fun s a => c * f s a) s as = c * M.total f s as := by
  induction as generalizing s with
  | nil => rfl
  | cons a as ih =>
    cases h : M.step s a with
    | none => simp [total, h]
    | some s' => rw [total_cons h, total_cons h, ih, Nat.mul_add]

/-- Every step of a run that goes through is counted. -/
theorem total_one (he : M.exec s as = some s') : M.total (fun _ _ => 1) s as = as.length := by
  induction as generalizing s with
  | nil => rfl
  | cons a as ih =>
    obtain ⟨t, ht, he⟩ := exec_cons_eq_some.mp he
    rw [total_cons ht, ih he, List.length_cons, Nat.add_comm]

/-- **What a run costs** is paid by its credit and the potential of the state it starts in. -/
theorem total_le (hI : M.Preserves I)
    (h : ∀ s a s', I s → M.step s a = some s' → cost s a + Φ s' ≤ credit s a + Φ s)
    (hi : I s) (as : List α) : M.total cost s as ≤ M.total credit s as + Φ s := by
  induction as generalizing s with
  | nil => exact Nat.zero_le _
  | cons a as ih =>
    cases hs : M.step s a with
    | none => simp [total, hs]
    | some s' =>
      have h1 := h s a s' hi hs
      have h2 := ih (hI s a s' hi hs)
      rw [total_cons hs, total_cons hs]
      omega

/-- A run is no longer than a potential that every step lowers. -/
theorem length_le (hI : M.Preserves I)
    (h : ∀ s a s', I s → M.step s a = some s' → 1 + Φ s' ≤ Φ s) (hi : I s)
    (he : M.exec s as = some s') : as.length ≤ Φ s := by
  have hcost : M.total (fun _ _ => 1) s as ≤ M.total (fun _ _ => 0 * 1) s as + Φ s :=
    total_le hI (fun s a s' hi hs => (h s a s' hi hs).trans (Nat.le_add_left _ _)) hi as
  rwa [total_one he, total_const_mul, Nat.zero_mul, Nat.zero_add] at hcost

end System

/-- One of the summands changes from `f t` to `x`. -/
theorem finsum_update {T : Type*} [DecidableEq T] {f : T → ℕ} (hf : f.support.Finite) (t : T)
    (x : ℕ) :
    (Function.update f t x).support.Finite ∧
      finsum (Function.update f t x) + f t = finsum f + x := by
  have hsub : f.support ⊆ ↑(insert t hf.toFinset) := by
    intro u hu
    simp [Function.mem_support.mp hu]
  have hsub' : (Function.update f t x).support ⊆ ↑(insert t hf.toFinset) := by
    intro u hu
    by_cases hut : u = t
    · simp [hut]
    · rw [Function.mem_support, Function.update_of_ne hut] at hu
      simp [hu]
  have ht : t ∈ insert t hf.toFinset := Finset.mem_insert_self ..
  refine ⟨(Finset.finite_toSet _).subset hsub', ?_⟩
  rw [finsum_eq_sum_of_support_subset _ hsub, finsum_eq_sum_of_support_subset _ hsub',
    Finset.sum_update_of_mem ht, Finset.sdiff_singleton_eq_erase, ← Finset.add_sum_erase _ f ht]
  omega

end Lib
