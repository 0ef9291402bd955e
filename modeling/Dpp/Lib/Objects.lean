import Mathlib.Data.Option.Basic
import Mathlib.Logic.Function.Basic
import Mathlib.Logic.Relator
import Mathlib.Tactic.TypeStar

/-!
# The objects of two programs

Two programs that name their objects alike, and objects that are related one by one.

* `Agree`: the same objects exist, and they are related.
* `Agree.update`, `Agree.erase`: an object that changes in both, or ends in both.
* `Agree.get`, `Agree.get_left`, `Agree.none_iff`: one side read off the other.
* `Each`: what holds of every object, with `Each.update` and `Each.erase`.
-/

namespace Lib

variable {ι V W : Type*}

/-- The same objects exist in both programs, and `R` relates them. -/
def Agree (R : V → W → Prop) (env : ι → Option V) (ls : ι → Option W) : Prop :=
  ∀ i, Option.Rel R (env i) (ls i)

/-- `P` holds of every object. -/
def Each (P : W → Prop) (ls : ι → Option W) : Prop := ∀ i w, ls i = some w → P w

namespace Agree

variable {R : V → W → Prop} {env : ι → Option V} {ls : ι → Option W} {i : ι} {v : V} {w : W}

theorem update [DecidableEq ι] (h : Agree R env ls) (hr : R v w) :
    Agree R (Function.update env i (some v)) (Function.update ls i (some w)) := fun j => by
  by_cases hj : j = i
  · subst hj
    rw [Function.update_self, Function.update_self]
    exact .some hr
  · rw [Function.update_of_ne hj, Function.update_of_ne hj]
    exact h j

theorem erase [DecidableEq ι] (h : Agree R env ls) :
    Agree R (Function.update env i none) (Function.update ls i none) := fun j => by
  by_cases hj : j = i
  · subst hj
    rw [Function.update_self, Function.update_self]
    exact .none
  · rw [Function.update_of_ne hj, Function.update_of_ne hj]
    exact h j

theorem get_none (h : Agree R env ls) (hl : ls i = none) : env i = none := by
  have hi := h i
  rw [hl] at hi
  generalize hd : env i = o at hi
  cases hi with
  | none => rfl

theorem get (h : Agree R env ls) (hl : ls i = some w) : ∃ v, env i = some v ∧ R v w := by
  have hi := h i
  rw [hl] at hi
  generalize hd : env i = o at hi
  cases hi with
  | some hr => exact ⟨_, rfl, hr⟩

theorem get_left (h : Agree R env ls) (hv : env i = some v) : ∃ w, ls i = some w ∧ R v w := by
  have hi := h i
  rw [hv] at hi
  generalize hl : ls i = o at hi
  cases hi with
  | some hr => exact ⟨_, rfl, hr⟩

theorem none_iff (h : Agree R env ls) : env i = none ↔ ls i = none := by
  refine ⟨fun hi => ?_, h.get_none⟩
  cases hl : ls i with
  | none => rfl
  | some w =>
    obtain ⟨v, hv, -⟩ := h.get hl
    exact absurd (hv.symm.trans hi) (Option.some_ne_none v)

end Agree

namespace Each

variable [DecidableEq ι] {P : W → Prop} {ls : ι → Option W} {i : ι} {w : W}

theorem update (h : Each P ls) (hw : P w) : Each P (Function.update ls i (some w)) :=
  fun j v hv => by
  by_cases hj : j = i
  · rw [hj, Function.update_self] at hv
    obtain rfl : w = v := Option.some.inj hv
    exact hw
  · rw [Function.update_of_ne hj] at hv
    exact h j v hv

theorem erase (h : Each P ls) : Each P (Function.update ls i none) := fun j v hv => by
  by_cases hj : j = i
  · rw [hj, Function.update_self] at hv
    cases hv
  · rw [Function.update_of_ne hj] at hv
    exact h j v hv

end Each

end Lib
