import Mathlib.Data.Option.Basic
import Mathlib.Data.List.Basic
import Mathlib.Tactic.TypeStar

/-!
# Systems and their runs

A system is a set of initial states and a partial step function on labelled actions; a run is the
list of its actions. Everything concurrent is a system whose actions name the thread that moves
and the outcome of whatever the program does not decide.

* `System.exec`: the state a run ends in; `System.Reach`: the states runs end in.
* `System.Meets C`: the steps of a run meet `C`; `System.Always P`: its states satisfy `P`.
* **`Keeps.always`**, `Keeps.meets`: an invariant kept by the steps that meet `C` holds along
  every run that meets `C`; **`Inductive.reach`** is the case without a condition.
* `Simulates`: every step of one system is a run of another; **`Simulates.reach`** carries
  reachable states across.
* **`exec_follows`**, **`exec_rel`**: a system that implements the steps of another one, along a map
  of the actions, implements its runs.
-/

namespace Lib

/-- **A system**: its initial states and its partial step function. -/
structure System (σ : Type*) (α : Type*) where
  init : σ → Prop
  step : σ → α → Option σ

namespace System

variable {σ α τ β : Type*} (M : System σ α)

/-- The state after the actions `as`, when every one of them is enabled. -/
def exec : σ → List α → Option σ
  | s, [] => some s
  | s, a :: as => (M.step s a).bind fun s' => exec s' as

/-- Every step the run `as` takes from `s` meets `C`. -/
def Meets (C : σ → α → Prop) : σ → List α → Prop
  | _, [] => True
  | s, a :: as => ∀ s', M.step s a = some s' → C s a ∧ Meets C s' as

/-- `P` holds in every state the run `as` visits from `s`. -/
def Always (P : σ → Prop) : σ → List α → Prop
  | s, [] => P s
  | s, a :: as => P s ∧ ∀ s', M.step s a = some s' → Always P s' as

/-- The states in which a run from an initial state ends. -/
def Reach (s : σ) : Prop := ∃ s₀ as, M.init s₀ ∧ M.exec s₀ as = some s

/-- The steps that meet `C` keep `I`. -/
def Keeps (C : σ → α → Prop) (I : σ → Prop) : Prop :=
  ∀ s a s', I s → C s a → M.step s a = some s' → I s'

/-- Every step keeps `I`. -/
def Preserves (I : σ → Prop) : Prop :=
  ∀ s a s', I s → M.step s a = some s' → I s'

/-- An inductive invariant. -/
structure Inductive (I : σ → Prop) : Prop where
  init : ∀ s, M.init s → I s
  step : M.Preserves I

variable {M} {C D : σ → α → Prop} {I P Q : σ → Prop} {s s' : σ} {a : α} {as bs : List α}

/-! ## Runs -/

@[simp] theorem exec_nil : M.exec s [] = some s := rfl

@[simp] theorem exec_cons : M.exec s (a :: as) = (M.step s a).bind fun s' => M.exec s' as := rfl

theorem exec_append : M.exec s (as ++ bs) = (M.exec s as).bind fun s' => M.exec s' bs := by
  induction as generalizing s with
  | nil => rfl
  | cons a as ih =>
    cases h : M.step s a with
    | none => simp [h]
    | some t => simp [h, ih]

/-- The first step of a run, and the rest of it. -/
theorem exec_cons_eq_some {t : σ} :
    M.exec s (a :: as) = some t ↔ ∃ s', M.step s a = some s' ∧ M.exec s' as = some t := by
  rw [exec_cons, Option.bind_eq_some_iff]

/-! ## Properties of runs -/

/-- One enabled step, and the rest of the run. -/
theorem Meets.cons (h : M.step s a = some s') (hc : C s a) (hm : M.Meets C s' as) :
    M.Meets C s (a :: as) := by
  intro t ht
  obtain rfl : s' = t := Option.some.inj (h.symm.trans ht)
  exact ⟨hc, hm⟩

theorem Meets.nil : M.Meets C s [] := trivial

theorem Meets.mono (h : ∀ s a, C s a → D s a) (hm : M.Meets C s as) : M.Meets D s as := by
  induction as generalizing s with
  | nil => trivial
  | cons a as ih => exact fun s' hs => ⟨h s a (hm s' hs).1, ih (hm s' hs).2⟩

theorem Meets.and (hc : M.Meets C s as) (hd : M.Meets D s as) :
    M.Meets (fun s a => C s a ∧ D s a) s as := by
  induction as generalizing s with
  | nil => trivial
  | cons a as ih =>
    exact fun s' hs => ⟨⟨(hc s' hs).1, (hd s' hs).1⟩, ih (hc s' hs).2 (hd s' hs).2⟩

theorem Meets.of_true (as : List α) : M.Meets (fun _ _ => True) s as := by
  induction as generalizing s with
  | nil => trivial
  | cons a as ih => exact fun s' _ => ⟨trivial, ih⟩

/-- Two conditions that agree on the steps that are possible. -/
theorem Meets.congr (h : ∀ s a s', M.step s a = some s' → (C s a ↔ D s a)) :
    M.Meets C s as ↔ M.Meets D s as := by
  induction as generalizing s with
  | nil => exact Iff.rfl
  | cons a as ih =>
    exact forall_congr' fun s' => imp_congr_right fun hs => and_congr (h s a s' hs) ih

theorem Always.cons (h : M.step s a = some s') (hp : P s) (ha : M.Always P s' as) :
    M.Always P s (a :: as) := by
  refine ⟨hp, fun t ht => ?_⟩
  obtain rfl : s' = t := Option.some.inj (h.symm.trans ht)
  exact ha

theorem Always.mono (h : ∀ s, P s → Q s) (ha : M.Always P s as) : M.Always Q s as := by
  induction as generalizing s with
  | nil => exact h s ha
  | cons a as ih => exact ⟨h s ha.1, fun s' hs => ih (ha.2 s' hs)⟩

theorem Always.and (hp : M.Always P s as) (hq : M.Always Q s as) :
    M.Always (fun s => P s ∧ Q s) s as := by
  induction as generalizing s with
  | nil => exact ⟨hp, hq⟩
  | cons a as ih => exact ⟨⟨hp.1, hq.1⟩, fun s' hs => ih (hp.2 s' hs) (hq.2 s' hs)⟩

theorem Always.head (ha : M.Always P s as) : P s := by
  cases as with
  | nil => exact ha
  | cons a as => exact ha.1

/-- The last state of a run. -/
theorem Always.last (ha : M.Always P s as) (he : M.exec s as = some s') : P s' := by
  induction as generalizing s with
  | nil => cases he; exact ha
  | cons a as ih =>
    obtain ⟨t, ht, he⟩ := exec_cons_eq_some.mp he
    exact ih (ha.2 t ht) he

/-- A property of the states before and after a step that forces `C` on the step. -/
theorem Meets.of_always (h : ∀ s a s', M.step s a = some s' → P s → P s' → C s a)
    (ha : M.Always P s as) : M.Meets C s as := by
  induction as generalizing s with
  | nil => trivial
  | cons a as ih => exact fun s' hs => ⟨h s a s' hs ha.1 (ha.2 s' hs).head, ih (ha.2 s' hs)⟩

instance decidableMeets [∀ s a, Decidable (C s a)] :
    ∀ (s : σ) (as : List α), Decidable (M.Meets C s as)
  | _, [] => isTrue trivial
  | s, a :: as =>
    match h : M.step s a with
    | none => isTrue fun s' hs => by rw [h] at hs; cases hs
    | some t =>
      haveI := decidableMeets t as
      decidable_of_iff (C s a ∧ M.Meets C t as)
        ⟨fun hm s' hs => by rw [h] at hs; cases hs; exact hm, fun hm => hm t h⟩

/-! ## Invariants -/

/-- **An invariant that the steps meeting `C` keep holds along every run that meets `C`.** -/
theorem Keeps.always (hk : M.Keeps C I) (hi : I s) (hm : M.Meets C s as) : M.Always I s as := by
  induction as generalizing s with
  | nil => exact hi
  | cons a as ih => exact ⟨hi, fun s' hs => ih (hk s a s' hi (hm s' hs).1 hs) (hm s' hs).2⟩

/-- What an invariant and `C` say about a step holds along every run that meets `C`. -/
theorem Keeps.meets (hk : M.Keeps C I) (h : ∀ s a s', I s → C s a → M.step s a = some s' → D s a)
    (hi : I s) (hm : M.Meets C s as) : M.Meets D s as := by
  induction as generalizing s with
  | nil => trivial
  | cons a as ih =>
    intro s' hs
    obtain ⟨hc, hm⟩ := hm s' hs
    exact ⟨h s a s' hi hc hs, ih (hk s a s' hi hc hs) hm⟩

theorem Preserves.exec (h : M.Preserves I) (hi : I s) (he : M.exec s as = some s') : I s' := by
  induction as generalizing s with
  | nil => cases he; exact hi
  | cons a as ih =>
    obtain ⟨t, ht, he⟩ := exec_cons_eq_some.mp he
    exact ih (h s a t hi ht) he

/-- A run that takes the step `a`, when every step keeps what `a` brings about. -/
theorem Preserves.exec_of_mem (h : M.Preserves I) (ha : ∀ s s', M.step s a = some s' → I s')
    (hm : a ∈ as) (he : M.exec s as = some s') : I s' := by
  obtain ⟨bs, cs, rfl⟩ := List.append_of_mem hm
  rw [exec_append, Option.bind_eq_some_iff] at he
  obtain ⟨t, -, he⟩ := he
  obtain ⟨u, hu, he⟩ := exec_cons_eq_some.mp he
  exact h.exec (ha t u hu) he

theorem Inductive.always (h : M.Inductive I) (hi : I s) : M.Always I s as := by
  induction as generalizing s with
  | nil => exact hi
  | cons a as ih => exact ⟨hi, fun s' hs => ih (h.step s a s' hi hs)⟩

theorem Keeps.exec (hk : M.Keeps C I) (hi : I s) (hm : M.Meets C s as)
    (he : M.exec s as = some s') : I s' := (hk.always hi hm).last he

/-- Where a step that breaks `C` leads to `Q`, and the steps that meet `D` keep `Q`, a run that
meets `D` meets `C` or ends in `Q`. -/
theorem Keeps.meets_or (hI : M.Keeps D I) (hQ : M.Keeps D Q)
    (h : ∀ s a s', I s → D s a → M.step s a = some s' → C s a ∨ Q s') (hi : I s)
    (hd : M.Meets D s as) (he : M.exec s as = some s') : M.Meets C s as ∨ Q s' := by
  induction as generalizing s with
  | nil => exact .inl trivial
  | cons a as ih =>
    obtain ⟨t, ht, he⟩ := exec_cons_eq_some.mp he
    obtain ⟨hda, hd⟩ := hd t ht
    rcases h s a t hi hda ht with hc | hq
    · exact (ih (hI s a t hi hda ht) hd he).imp_left (Meets.cons ht hc)
    · exact .inr (hQ.exec hq hd he)

/-- Where a step that breaks `C` leads to `Q`, which no step leaves, a run meets `C` or ends in
`Q`. -/
theorem Preserves.meets_or (hI : M.Preserves I) (hQ : M.Preserves Q)
    (h : ∀ s a s', I s → M.step s a = some s' → C s a ∨ Q s') (hi : I s)
    (he : M.exec s as = some s') : M.Meets C s as ∨ Q s' := by
  have hI' : M.Keeps (fun _ _ => True) I := fun s a s' hi _ hs => hI s a s' hi hs
  have hQ' : M.Keeps (fun _ _ => True) Q := fun s a s' hq _ hs => hQ s a s' hq hs
  exact hI'.meets_or hQ' (fun s a s' hi _ hs => h s a s' hi hs) hi (Meets.of_true as) he

/-- **An inductive invariant holds in every reachable state.** -/
theorem Inductive.reach (h : M.Inductive I) (hr : M.Reach s) : I s := by
  obtain ⟨s₀, as, h0, he⟩ := hr
  exact h.step.exec (h.init s₀ h0) he

theorem Reach.init (h : M.init s) : M.Reach s := ⟨s, [], h, rfl⟩

theorem Reach.exec (hr : M.Reach s) (he : M.exec s as = some s') : M.Reach s' := by
  obtain ⟨s₀, bs, h0, hb⟩ := hr
  exact ⟨s₀, bs ++ as, h0, by rw [exec_append, hb]; exact he⟩

theorem Reach.step (hr : M.Reach s) (h : M.step s a = some s') : M.Reach s' := by
  have he : M.exec s [a] = some s' := by rw [exec_cons, h]; rfl
  exact hr.exec he

/-! ## Simulations -/

/-- Every step of `M` is matched by a run of `N`, possibly empty, that restores `R`. -/
structure Simulates (M : System σ α) (N : System τ β) (R : σ → τ → Prop) : Prop where
  init : ∀ s, M.init s → ∃ t, N.init t ∧ R s t
  step : ∀ s a s' t, R s t → M.step s a = some s' → ∃ bs t', N.exec t bs = some t' ∧ R s' t'

/-- **Every reachable state of `M` is related to a reachable state of `N`.** -/
theorem Simulates.reach {N : System τ β} {R : σ → τ → Prop} (h : M.Simulates N R)
    (hr : M.Reach s) : ∃ t, N.Reach t ∧ R s t := by
  have hi : M.Inductive fun s => ∃ t, N.Reach t ∧ R s t := by
    refine ⟨fun s h0 => ?_, fun s a s' hs ht => ?_⟩
    · obtain ⟨t, ht, hR⟩ := h.init s h0
      exact ⟨t, .init ht, hR⟩
    · obtain ⟨t, htr, hR⟩ := hs
      obtain ⟨bs, t', hb, hR'⟩ := h.step s a s' t hR ht
      exact ⟨t', htr.exec hb, hR'⟩
  exact hi.reach hr

/-! ## Implementations -/

section

variable {N : System τ β} {R : σ → τ → Prop} {E : τ → β → Prop} {f : α → β} {t t' : τ}

/-- Where the steps of `N` that meet `E` are steps of `M`, its runs that meet `E` are runs of
`M`. -/
theorem exec_follows (h : ∀ s t a t', R s t → E t (f a) → N.step t (f a) = some t' →
      ∃ s', M.step s a = some s' ∧ R s' t')
    (hR : R s t) (hE : N.Meets E t (as.map f)) (he : N.exec t (as.map f) = some t') :
    ∃ s', M.exec s as = some s' ∧ R s' t' := by
  induction as generalizing s t with
  | nil =>
    cases he
    exact ⟨s, rfl, hR⟩
  | cons a as ih =>
    obtain ⟨u, hu, he⟩ := exec_cons_eq_some.mp he
    obtain ⟨hEa, hE⟩ := hE u hu
    obtain ⟨s₁, hs₁, hR₁⟩ := h s t a u hR hEa hu
    obtain ⟨s', hs', hR'⟩ := ih hR₁ hE he
    exact ⟨s', exec_cons_eq_some.mpr ⟨s₁, hs₁, hs'⟩, hR'⟩

/-- Where a step of `M` is possible exactly if it is one of `N`, with related results, so is a run;
`E` has to hold of the steps that `N` takes. -/
theorem exec_rel (h : ∀ s t a, R s t → (∀ t', N.step t (f a) = some t' → E t (f a)) →
      Option.Rel R (M.step s a) (N.step t (f a)))
    (hR : R s t) (hE : N.Meets E t (as.map f)) :
    Option.Rel R (M.exec s as) (N.exec t (as.map f)) := by
  induction as generalizing s t with
  | nil => exact .some hR
  | cons a as ih =>
    have hrel := h s t a hR fun t' ht' => (hE t' ht').1
    rw [List.map_cons, exec_cons, exec_cons]
    generalize hm : M.step s a = m at hrel
    generalize hu : N.step t (f a) = u at hrel
    cases hrel with
    | none => exact .none
    | some hR' => exact ih hR' (hE _ hu).2

end

end System

end Lib
