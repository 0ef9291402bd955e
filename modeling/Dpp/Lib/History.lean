import Dpp.Lib.System

/-!
# What a run does

The steps of a system are given events, and the events of a run are those of its steps in order.

* `System.events`: the events of a run.
* `System.Records`: every step keeps a relation between the events so far and the state;
  **`Records.exec`**: so does a run.
* **`exec_rec`**: the case in which the actions themselves are the events.
-/

namespace Lib.System

variable {σ α ε : Type*} (M : System σ α) (event : σ → α → List ε)

/-- What the run `as` does from `s`. -/
def events : σ → List α → List ε
  | _, [] => []
  | s, a :: as =>
    match M.step s a with
    | some s' => event s a ++ events s' as
    | none => []

/-- Every step keeps `I`, when its events are added. -/
def Records (I : List ε → σ → Prop) : Prop :=
  ∀ es s a s', I es s → M.step s a = some s' → I (es ++ event s a) s'

variable {M event} {I : List ε → σ → Prop} {s s' : σ} {a : α} {as : List α} {es : List ε}

theorem events_cons (h : M.step s a = some s') :
    M.events event s (a :: as) = event s a ++ M.events event s' as := by
  rw [events, h]

/-- **What every step keeps, a run keeps.** -/
theorem Records.exec (hI : M.Records event I) (hi : I es s) (he : M.exec s as = some s') :
    I (es ++ M.events event s as) s' := by
  induction as generalizing s es with
  | nil =>
    cases he
    rw [events, List.append_nil]
    exact hi
  | cons a as ih =>
    obtain ⟨t, ht, he⟩ := exec_cons_eq_some.mp he
    rw [events_cons ht, ← List.append_assoc]
    exact ih (hI es s a t hi ht) he

theorem events_self (he : M.exec s as = some s') : M.events (fun _ a => [a]) s as = as := by
  induction as generalizing s with
  | nil => rfl
  | cons a as ih =>
    obtain ⟨t, ht, he⟩ := exec_cons_eq_some.mp he
    rw [events_cons ht, ih he]
    rfl

/-- **A relation between the actions so far and the state**, kept by every step. -/
theorem exec_rec {I : List α → σ → Prop} (hi : I [] s)
    (hI : ∀ as s a s', I as s → M.step s a = some s' → I (as ++ [a]) s')
    (he : M.exec s as = some s') : I as s' := by
  have h : M.Records (fun _ a => [a]) I := hI
  have := h.exec hi he
  rwa [events_self he] at this

end Lib.System
