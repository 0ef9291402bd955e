import Dpp.Driver.Model

/-!
# Calls through the system routines

The `Wrapper` functions call through their pointers unchecked. `ntdll_zw_functions` fills all of
them or the load is refused, but the constructors have run before it.

* `EntersResolved`: a `Wrapper` function is entered only with the whole table filled.
* `Filled`: the table is empty until the lookups, and full wherever the driver's code runs after
  them.
* **`entersResolved_iff`**: the pointers are there exactly if no constructor enters a `Wrapper`
  function.
-/

namespace Dpp.Driver

open Lib

variable {F : Type}

/-- Whichever `Wrapper` function is entered, `ntdll_zw_functions` has filled the table. -/
def EntersResolved (s : State F) : Action F → Prop
  | .enter _ => ∀ w, s.table w = true
  | _ => True

/-- A `Wrapper` function is not entered in a constructor. -/
def CtorsEnterNone (s : State F) : Action F → Prop
  | .enter _ => ∀ func rest, s.point ≠ .ctor func rest
  | _ => True

/-! ## The lookups -/

theorem Routine.mem_all (w : Routine) : w ∈ Routine.all := by
  cases w <;> decide

section Lookups

variable (found : Routine → Bool)

/-- The lookups of `ws`, one after the other. -/
theorem foldl_lookup (ws : List Routine) (t : Table) (n : ℕ) :
    ws.foldl (fun r w => (Function.update r.1 w (found w), if found w then r.2 else r.2 + 1))
      (t, n) = (fun w => if w ∈ ws then found w else t w, n + ws.countP fun w => !found w) := by
  induction ws generalizing t n with
  | nil => simp
  | cons v ws ih =>
    rw [List.foldl_cons, ih]
    apply Prod.ext
    · funext w
      by_cases hw : w ∈ ws
      · simp [hw]
      · by_cases hv : w = v
        · subst hv
          simp [hw]
        · simp [hw, hv]
    · rw [List.countP_cons]
      cases hv : found v
      · simp
        omega
      · simp

/-- **`ntdll_zw_functions` fills the table**, and counts what it has not found. -/
theorem ntdllZwFunctions_eq (t : Table) :
    ntdllZwFunctions found t = (found, Routine.all.countP fun w => !found w) := by
  unfold ntdllZwFunctions
  rw [foldl_lookup]
  simp [Routine.mem_all]

theorem ntdllZwFunctions_eq_zero (t : Table) :
    (ntdllZwFunctions found t).2 = 0 ↔ ∀ w, found w = true := by
  rw [ntdllZwFunctions_eq, List.countP_eq_zero]
  simp [Routine.mem_all]

end Lookups

/-! ## Where the table is full -/

/-- Before the lookups. -/
def Point.early : Point F → Bool
  | ctors _ | ctor .. | resolve => true
  | _ => false

/-- After the lookups, in a driver that is not refused. -/
def Point.resolved : Point F → Bool
  | driverEntry | driverUnload | dtors _ | exitFunc .. | free _ | next _ => true
  | returned status => ntSuccess status
  | _ => false

structure Filled (s : State F) : Prop where
  early : s.point.early → ∀ w, s.table w = false
  resolved : s.point.resolved → ∀ w, s.table w = true

variable {s s' : State F} {a : Action F}

/-- A step to another point that leaves the table alone. -/
theorem Filled.of_point (hf : Filled s) {t : State F} (ht : t.table = s.table)
    (he : t.point.early → s.point.early) (hr : t.point.resolved → s.point.resolved) : Filled t := by
  refine ⟨fun h => ?_, fun h => ?_⟩
  · rw [ht]
    exact hf.early (he h)
  · rw [ht]
    exact hf.resolved (hr h)

theorem Filled.resolve (found : Routine → Bool) : Filled (s.resolve found) := by
  unfold State.resolve
  by_cases h : (ntdllZwFunctions found s.table).2 = 0
  · refine ⟨fun he => ?_, fun _ w => ?_⟩
    · simp [h, Point.early] at he
    · rw [ntdllZwFunctions_eq_zero] at h
      simp only [ntdllZwFunctions_eq]
      exact h w
  · refine ⟨fun he => ?_, fun hr => ?_⟩
    · simp [h, Point.early] at he
    · simp only [h, ne_eq, not_false_eq_true, if_true, Point.resolved] at hr
      exact absurd hr (by decide)

theorem Filled.step (hf : Filled s) (h : step s a = some s') : Filled s' := by
  cases step_cases h with
  | ctor func rest hp | ctorsEnd hp | ctorReturns func rest status hp =>
    exact hf.of_point rfl (fun _ => by rw [hp]; rfl) Bool.noConfusion
  | call p n hp hn | next p n hp hn | unloadReturns status hp | exitReturns p func status hp =>
    exact hf.of_point rfl Bool.noConfusion fun _ => by rw [hp]; rfl
  | free p hp hr hn => exact hf.of_point rfl Bool.noConfusion fun _ => by rw [hp]; rfl
  | dtorsEnd hp | crash w hh ht | drop status hp hs =>
    exact hf.of_point rfl Bool.noConfusion Bool.noConfusion
  | resolve found hp => exact .resolve found
  | entryReturns status hp => exact hf.of_point rfl Bool.noConfusion fun _ => by rw [hp]; rfl
  | unload status hp hs =>
    refine hf.of_point rfl Bool.noConfusion fun _ => ?_
    rw [hp]
    exact (Bool.and_eq_true_iff.mp hs).1
  | register func hh | overwrite k n hk => exact hf.of_point rfl id id
  | refuse func alloc hh hr | enter w hh ht => exact hf

theorem filled_inductive : (system F).Inductive Filled := by
  refine ⟨fun s h0 => ?_, fun s a s' hf h => hf.step h⟩
  obtain ⟨ctorList, rfl⟩ := h0
  exact ⟨fun _ _ => rfl, Bool.noConfusion⟩

theorem resolved_of_hook (hh : s.point.hook) (hc : ∀ func rest, s.point ≠ .ctor func rest) :
    s.point.resolved := by
  cases hp : s.point with
  | ctor func rest => exact absurd hp (hc func rest)
  | driverEntry | driverUnload | exitFunc p func => rfl
  | returned status =>
    rw [hp] at hh
    exact hh
  | ctors rest | resolve | dtors p | free p | next p | unloaded | dropped | bugCheck =>
    rw [hp] at hh
    exact Bool.noConfusion hh

/-- One entry: the table is full exactly outside the constructors. -/
theorem Filled.enter_iff (hf : Filled s) (h : Driver.step s a = some s') :
    EntersResolved s a ↔ CtorsEnterNone s a := by
  cases a with
  | enter w =>
    have hh : s.point.hook := by
      simp only [Driver.step, Option.ite_none_right_eq_some] at h
      exact h.1
    constructor
    · intro ht func rest hp
      have := hf.early (by rw [hp]; rfl) w
      rw [ht w] at this
      exact Bool.noConfusion this
    · intro hc
      exact hf.resolved (resolved_of_hook hh hc)
  | crt | resolve found | returns status | atexit func alloc | unload | overwrite k n =>
    exact Iff.rfl

/-- **No `Wrapper` function is entered before its pointer is there exactly if** no constructor
enters one. -/
theorem entersResolved_iff (ctorList : List F) (as : List (Action F)) :
    (system F).Meets EntersResolved (.initial ctorList) as ↔
      (system F).Meets CtorsEnterNone (.initial ctorList) as := by
  have h0 : Filled (.initial ctorList : State F) := filled_inductive.init _ ⟨ctorList, rfl⟩
  have hk : ∀ C, (system F).Keeps C Filled := fun C s a s' hf _ h => hf.step h
  constructor
  · exact (hk _).meets (fun s a s' hf hc h => (hf.enter_iff h).mp hc) h0
  · exact (hk _).meets (fun s a s' hf hc h => (hf.enter_iff h).mpr hc) h0

/-- **A constructor that allocates a timer** calls through a null pointer. -/
theorem not_entersResolved_ctor : ¬ ∀ (ctorList : List Unit) as,
    (system Unit).Meets EntersResolved (.initial ctorList) as := by
  intro h
  have := h [()] [.crt, .enter .exAllocateTimer] _ rfl
  have := (this.2 _ rfl).1 .exAllocateTimer
  exact Bool.noConfusion this

end Dpp.Driver
