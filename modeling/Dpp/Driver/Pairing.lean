import Dpp.Driver.ExitFunctions

/-!
# Constructors and exit functions

A load that fails, at the lookups or in `DriverEntry`, ends without `_CRT_DriverUnload`.

* `Paired`: when the image is gone every registered function has been called once, and none is
  called before `DriverUnload` has returned.
* **`paired_of_loadsClean`**: so it is when a load fails only with nothing registered and the exit
  functions are undisturbed; and a run that ends otherwise is not paired.
-/

namespace Dpp.Driver

open Lib

variable {F : Type}

structure Paired (s : State F) : Prop where
  called : s.point.gone → ∀ k < s.registered, s.log.count (.pop k) = 1
  late : s.point.walk = .before → ∀ k, s.log.count (.pop k) = 0

/-- The load does not fail here with functions registered. -/
def FailsBare (s : State F) : Action F → Prop
  | .resolve found => (∀ w, found w = true) ∨ s.registered = 0
  | .returns status => s.point = .driverEntry → ntSuccess status ∨ s.registered = 0
  | _ => True

/-- The load fails only with nothing registered, and the exit functions run undisturbed. -/
def LoadsClean (s : State F) (a : Action F) : Prop := FailsBare s a ∧ Undisturbed s a

/-- The load has failed. -/
def Point.failed : Point F → Bool
  | returned status => !ntSuccess status
  | dropped => true
  | _ => false

/-- The load has succeeded. -/
def Point.succeeded : Point F → Bool
  | returned status => ntSuccess status
  | _ => false

/-- What every load keeps: a success leaves `DriverUnload` set. -/
def Loaded (s : State F) : Prop := s.point.succeeded → s.driverUnload = true

variable {s s' : State F} {a : Action F}

/-! ## Failed loads -/

theorem not_ntSuccess_statusNotImplemented : ntSuccess statusNotImplemented = false := by decide

theorem resolve_point (found : Routine → Bool) :
    ((s.resolve found).point = .driverEntry ∧ ∀ w, found w = true) ∨
      ((s.resolve found).point = .returned statusNotImplemented ∧ ¬ ∀ w, found w = true) := by
  unfold State.resolve
  by_cases h : (ntdllZwFunctions found s.table).2 = 0
  · exact .inl ⟨by simp [h], (ntdllZwFunctions_eq_zero found s.table).mp h⟩
  · exact .inr ⟨by simp [h], fun hf => h ((ntdllZwFunctions_eq_zero found s.table).mpr hf)⟩

theorem loaded_inductive : (system F).Inductive Loaded := by
  refine ⟨fun s h0 => ?_, fun s a s' hi h => ?_⟩
  · obtain ⟨ctorList, rfl⟩ := h0
    exact Bool.noConfusion
  · cases step_cases h with
    | ctor func rest hp | ctorsEnd hp | call p n hp hn | dtorsEnd hp | free p hp hr hn
    | next p n hp hn | ctorReturns func rest status hp | unloadReturns status hp
    | exitReturns p func status hp | crash w hh ht | unload status hp hs | drop status hp hs =>
      exact Bool.noConfusion
    | entryReturns status hp => exact fun _ => rfl
    | resolve found hp =>
      intro hr
      rcases resolve_point (s := s) found with ⟨hd, -⟩ | ⟨hd, -⟩
      · rw [hd] at hr
        exact Bool.noConfusion hr
      · rw [hd, Point.succeeded, not_ntSuccess_statusNotImplemented] at hr
        exact Bool.noConfusion hr
    | register func hh | refuse func alloc hh hr | enter w hh ht | overwrite k n hk => exact hi

/-- A failed load stays failed, and registers nothing more. -/
theorem failed_step (hf : s.point.failed) (h : step s a = some s') :
    s'.point.failed ∧ s'.registered = s.registered := by
  have hh : s.point.hook = false := by
    cases hp : s.point <;> simp_all [Point.failed, Point.hook]
  cases step_cases h with
  | ctor func rest hp | ctorsEnd hp | call p n hp hn | dtorsEnd hp | free p hp hr hn
  | next p n hp hn | resolve found hp | ctorReturns func rest status hp | entryReturns status hp
  | unloadReturns status hp | exitReturns p func status hp =>
    rw [hp] at hf
    exact Bool.noConfusion hf
  | register func h' | refuse func alloc h' hr | enter w h' ht | crash w h' ht =>
    rw [hh] at h'
    exact Bool.noConfusion h'
  | unload status hp hs =>
    rw [hp] at hf
    simp_all [Point.failed]
  | drop status hp hs => exact ⟨rfl, rfl⟩
  | overwrite k n hk => exact ⟨hf, rfl⟩

/-- A step on which the load fails. -/
theorem failed_of_step (hl : Loaded s) (hf : s.point.failed = false) (hs : s'.point.failed)
    (h : step s a = some s') :
    s'.registered = s.registered ∧ (FailsBare s a → s.registered = 0) := by
  cases step_cases h with
  | ctor func rest hp | ctorsEnd hp | call p n hp hn | dtorsEnd hp | free p hp hr hn
  | next p n hp hn | ctorReturns func rest status hp | unloadReturns status hp
  | exitReturns p func status hp | crash w hh ht | unload status hp hs' =>
    exact Bool.noConfusion hs
  | resolve found hp =>
    refine ⟨rfl, fun hb => hb.resolve_left fun hw => ?_⟩
    rcases resolve_point (s := s) found with ⟨hd, -⟩ | ⟨-, hn⟩
    · rw [hd] at hs
      exact Bool.noConfusion hs
    · exact hn hw
  | entryReturns status hp =>
    refine ⟨rfl, fun hb => (hb hp).resolve_left fun hw => ?_⟩
    simp [Point.failed, hw] at hs
  | drop status hp hd =>
    -- a success leaves `DriverUnload` set
    rw [hp, Point.failed, Bool.not_eq_false'] at hf
    rw [hf, hl (by rw [hp]; exact hf)] at hd
    exact Bool.noConfusion hd
  | register func hh | refuse func alloc hh hr | enter w hh ht | overwrite k n hk =>
    exact Bool.noConfusion (hf.symm.trans hs)

/-! ## Runs -/

/-- What runs that meet `LoadsClean` keep. -/
structure Clean (s : State F) : Prop where
  loaded : Loaded s
  complete : Complete s
  bare : s.point.failed → s.registered = 0

theorem clean_keeps : (system F).Keeps LoadsClean Clean := by
  intro s a s' hi hc h
  refine ⟨loaded_inductive.step s a s' hi.loaded h, complete_keeps s a s' hi.complete hc.2 h,
    fun hs => ?_⟩
  cases hf : s.point.failed with
  | true => exact (failed_step hf h).2.trans (hi.bare hf)
  | false =>
    obtain ⟨hr, hb⟩ := failed_of_step hi.loaded hf hs h
    exact hr.trans (hb hc.1)

theorem clean_initial (ctorList : List F) : Clean (.initial ctorList) :=
  ⟨Bool.noConfusion, complete_initial ctorList, Bool.noConfusion⟩

theorem walk_of_gone (hg : s.point.gone) : s.point.walk = .after ∨ s.point.failed := by
  cases hp : s.point with
  | unloaded => exact .inl rfl
  | dropped => exact .inr rfl
  | ctors rest | ctor func rest | resolve | driverEntry | returned status | driverUnload | dtors p
  | exitFunc p func | free p | next p | bugCheck =>
    rw [hp] at hg
    exact Bool.noConfusion hg

theorem Clean.paired (hi : Clean s) : Paired s := by
  obtain ⟨-, st, hw⟩ := hi.complete
  refine ⟨fun hg => ?_, fun hb => (hw.early hb).2⟩
  rcases walk_of_gone hg with ha | hf
  · exact (hw.allRun ha).called
  · intro k hk
    rw [hi.bare hf] at hk
    omega

/-- The load has failed with functions registered. -/
def FailedBound (s : State F) : Prop := s.point.failed ∧ s.registered ≠ 0

theorem failedBound_preserved : (system F).Preserves FailedBound := by
  rintro s a s' ⟨hf, hr⟩ h
  obtain ⟨hf', he⟩ := failed_step hf h
  exact ⟨hf', he ▸ hr⟩

theorem failedBound_of_step (h : step s a = some s') (hb : ¬ FailsBare s a) : FailedBound s' := by
  cases a with
  | resolve found =>
    obtain ⟨hn, hr⟩ := not_or.mp hb
    cases step_cases h with
    | resolve _ hp =>
      refine ⟨?_, hr⟩
      rcases resolve_point (s := s) found with ⟨-, hw⟩ | ⟨hd, -⟩
      · exact absurd hw hn
      · rw [hd, Point.failed, not_ntSuccess_statusNotImplemented]
        rfl
  | returns status =>
    obtain ⟨hp, hb⟩ := Classical.not_imp.mp hb
    obtain ⟨hn, hr⟩ := not_or.mp hb
    simp only [step, State.returns, hp, Option.some.injEq] at h
    subst h
    exact ⟨by simp [Point.failed, hn], hr⟩
  | crt | atexit func alloc | enter w | unload | overwrite k n => exact absurd trivial hb

/-- A run that ends badly: a failed load, or a function lost by the loop. -/
def Unpaired (s : State F) : Prop := (FailedBound s ∧ Walking s) ∨ Losing s

theorem unpaired_keeps : (system F).Keeps CursorKept Unpaired := by
  rintro s a s' (⟨hf, hw⟩ | hl) hc h
  · exact .inl ⟨failedBound_preserved s a s' hf h, walking_keeps s a s' hw hc h⟩
  · exact .inr (losing_keeps s a s' hl hc h)

theorem Unpaired.not_paired (hu : Unpaired s) (hg : s.point.gone) : ¬ Paired s := by
  intro hp
  rcases hu with ⟨⟨hf, hr⟩, -⟩ | ⟨-, st, lost, hl, hw⟩
  · have hb : s.point.walk = .before := by
      cases hp : s.point <;> simp_all [Point.failed, Point.walk]
    have h1 := hp.called hg 0 (Nat.pos_of_ne_zero hr)
    have h0 := hp.late hb 0
    omega
  · obtain ⟨k, hk, hz⟩ := hw.lost_not_called hl
    have := hp.called hg k hk
    omega

/-- **Constructors and exit functions are paired** when a load fails only with nothing registered
and no function is registered in the loop; a run that breaks this and ends is not. -/
theorem paired_of_loadsClean (ctorList : List F) (as : List (Action F)) :
    ((system F).Meets LoadsClean (.initial ctorList) as →
      (system F).Always Paired (.initial ctorList) as) ∧
    ∀ s, (system F).Meets CursorKept (.initial ctorList) as →
      (system F).exec (.initial ctorList) as = some s → s.point.gone → Paired s →
      (system F).Meets LoadsClean (.initial ctorList) as := by
  refine ⟨fun hm => (clean_keeps.always (clean_initial ctorList) hm).mono fun _ => Clean.paired, ?_⟩
  intro s hm he hg hp
  have hc : ∀ s a s', Walking s → CursorKept s a → (system F).step s a = some s' →
      LoadsClean s a ∨ Unpaired s' := by
    intro s a s' hw hk h
    by_cases hb : FailsBare s a
    · by_cases hn : NoneRegistered s a
      · exact .inl ⟨hb, hk, hn⟩
      · exact .inr (.inr (hw.losing hk h hn))
    · exact .inr (.inl ⟨failedBound_of_step h hb, walking_keeps s a s' hw hk h⟩)
  have hwalking := (complete_initial ctorList).walking
  exact (walking_keeps.meets_or unpaired_keeps hc hwalking hm he).resolve_right
    fun hu => hu.not_paired hg hp

instance (s : State F) : ∀ a, Decidable (FailsBare s a)
  | .resolve found =>
    decidable_of_iff ((∀ w ∈ Routine.all, found w = true) ∨ s.registered = 0)
      (or_congr_left ⟨fun h w => h w (Routine.mem_all w), fun h w _ => h w⟩)
  | .returns status =>
    match hp : s.point with
    | .driverEntry =>
      decidable_of_iff (ntSuccess status ∨ s.registered = 0) ⟨fun h _ => h, fun h => h hp⟩
    | .ctors _ | .ctor .. | .resolve | .returned _ | .driverUnload | .dtors _ | .exitFunc ..
    | .free _ | .next _ | .unloaded | .dropped | .bugCheck =>
      isTrue fun h => absurd (hp.symm.trans h) (by simp)
  | .crt | .atexit .. | .enter _ | .unload | .overwrite .. => isTrue trivial

instance (s : State F) (a : Action F) : Decidable (LoadsClean s a) :=
  inferInstanceAs (Decidable (_ ∧ _))

/-- A constructor registers a function, the load succeeds, and the unload calls it. -/
theorem paired_of_loadsClean_unload : (system ℕ).Always Paired (.initial [0])
    [.crt, .atexit (some 1) true, .returns 0, .crt, .resolve fun _ => true, .returns statusSuccess,
      .unload, .returns 0, .crt, .returns 0, .crt, .crt, .crt] :=
  (paired_of_loadsClean [0] _).1 (by decide)

/-- **A `DriverEntry` that fails** leaves the function a constructor has registered. -/
theorem not_paired_failed : ¬ ∀ (ctorList : List ℕ) as,
    (system ℕ).Always Paired (.initial ctorList) as := by
  intro h
  have := (h [0] [.crt, .atexit (some 1) true, .returns 0, .crt, .resolve fun _ => true,
    .returns statusUnsuccessful, .unload]).last rfl
  exact absurd (this.called rfl 0 (by decide)) (by decide)

end Dpp.Driver
