import Mathlib.Algebra.BigOperators.Group.Finset.Basic
import Mathlib.Algebra.Order.BigOperators.Group.Finset

/-!
# Counts over agents

How much the states of finitely many agents weigh together.

* `tally w f`: the sum of the weights `w` of the states `f`.
* **`tally_update`**: what the tally becomes when one agent changes its state.
* `le_tally`, `tally_mono`, `tally_le`: bounds by one agent, by another weight and by the number of
  agents.
-/

namespace Lib

variable {A S : Type*} [Fintype A] (w : S → ℕ) (f : A → S)

/-- The weights of the states of all agents together. -/
def tally : ℕ := ∑ a, w (f a)

variable {w f}

theorem le_tally (a : A) : w (f a) ≤ tally w f :=
  Finset.single_le_sum (f := fun a => w (f a)) (fun _ _ => Nat.zero_le _) (Finset.mem_univ a)

theorem tally_eq_zero (h : ∀ a, w (f a) = 0) : tally w f = 0 := Finset.sum_eq_zero fun a _ => h a

theorem exists_of_tally_pos (h : 0 < tally w f) : ∃ a, 0 < w (f a) := by
  by_contra hc
  have hz : tally w f = 0 := tally_eq_zero fun a => by
    have := not_exists.mp hc a
    omega
  omega

theorem tally_mono {v : S → ℕ} (h : ∀ s, w s ≤ v s) : tally w f ≤ tally v f :=
  Finset.sum_le_sum fun a _ => h (f a)

theorem tally_le (h : ∀ s, w s ≤ 1) : tally w f ≤ Fintype.card A := by
  have hle : tally w f ≤ ∑ _a : A, 1 := Finset.sum_le_sum fun a _ => h (f a)
  rwa [← Finset.card_eq_sum_ones, Finset.card_univ] at hle

/-- **A change of one agent** moves its old weight out and its new weight in. -/
theorem tally_update [DecidableEq A] (a : A) (s : S) :
    tally w (Function.update f a s) + w (f a) = tally w f + w s := by
  have hrest : ∑ b ∈ Finset.univ.erase a, w (Function.update f a s b) =
      ∑ b ∈ Finset.univ.erase a, w (f b) :=
    Finset.sum_congr rfl fun b hb => by rw [Function.update_of_ne (Finset.ne_of_mem_erase hb)]
  have hnew := Finset.add_sum_erase Finset.univ (fun b => w (Function.update f a s b))
    (Finset.mem_univ a)
  have hold := Finset.add_sum_erase Finset.univ (fun b => w (f b)) (Finset.mem_univ a)
  simp only [Function.update_self, hrest] at hnew
  rw [tally, tally, ← hnew, ← hold]
  omega

end Lib
