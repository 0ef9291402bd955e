import Dpp.Driver.ExitList

/-!
# Running the exit functions

* `AllRun`: every registered function was called once, every node freed once, the list cleared.
* `ExitsInOrder`: the functions are called last first, and all of them by the end of the unload.
* **`exitsInOrder_of_undisturbed`**: so they are when no function is registered in the loop, and a
  run that registers one never ends with all of them called.
-/

namespace Dpp.Driver

open Lib

variable {F : Type}

structure AllRun (s : State F) : Prop where
  called : ∀ k < s.registered, s.log.count (.pop k) = 1
  freed : ∀ k < s.registered, s.frees.count k = 1
  cleared : s.atexitList = none

/-- At each call the function called is the last one registered and not yet called, and after
`KCRT_OnDriverUnload` every one has been. -/
structure ExitsInOrder (s : State F) : Prop where
  lastFirst : Lifo.LastFirst s.log
  allRun : s.point = .unloaded → AllRun s

/-- Nobody registers a function in the loop, or takes a freed node before its `next` is read. -/
def Undisturbed (s : State F) (a : Action F) : Prop := CursorKept s a ∧ NoneRegistered s a

instance (s : State F) : ∀ a, Decidable (CursorKept s a)
  | .overwrite k _ => inferInstanceAs (Decidable (s.point.walk ≠ .advance k))
  | .crt | .resolve _ | .returns _ | .atexit .. | .enter _ | .unload => isTrue trivial

instance (s : State F) : ∀ a, Decidable (NoneRegistered s a)
  | .atexit (some _) true => inferInstanceAs (Decidable (s.point.walk = .before))
  | .atexit none _ | .atexit (some _) false => isTrue trivial
  | .crt | .resolve _ | .returns _ | .enter _ | .unload | .overwrite .. => isTrue trivial

instance (s : State F) (a : Action F) : Decidable (Undisturbed s a) :=
  inferInstanceAs (Decidable (_ ∧ _))

variable {s s' : State F} {a : Action F} {st lost : List ℕ}

/-! ## The end of the walk -/

theorem Walks.nil_of_after (hw : Walks s st lost) (ha : s.point.walk = .after) : st = [] := by
  have hc := hw.chain
  unfold State.ahead at hc
  rw [ha] at hc
  exact hc.eq_nil

/-- A walk that has lost nothing ends with all functions called. -/
theorem Walks.allRun (hw : Walks s st []) (ha : s.point.walk = .after) : AllRun s := by
  obtain rfl := hw.nil_of_after ha
  refine ⟨fun k hk => ?_, fun k hk => ?_, hw.cleared ha⟩
  · have := hw.calls k
    rw [if_pos hk] at this
    simpa using this
  · have := hw.nodes k
    rw [if_pos hk, ha] at this
    simpa [Walk.current] using this

theorem Walks.lost_not_called (hw : Walks s st lost) (hl : lost ≠ []) :
    ∃ k < s.registered, s.log.count (.pop k) = 0 := by
  obtain ⟨k, hk⟩ := List.exists_mem_of_ne_nil lost hl
  have hpos := List.count_pos_iff.mpr hk
  have hc := hw.calls k
  split_ifs at hc with hlt
  · exact ⟨k, hlt, by omega⟩
  · omega

/-! ## Runs -/

theorem lostAfter_eq (h : NoneRegistered s a) : s.lostAfter lost a = lost := by
  cases a with
  | atexit func alloc =>
    cases func with
    | none => rfl
    | some func =>
      cases alloc with
      | false => rfl
      | true => exact if_pos h
  | crt | resolve found | returns status | enter w | unload | overwrite k n => rfl

theorem lostAfter_ne (h : lost ≠ [] ∨ ¬ NoneRegistered s a) : s.lostAfter lost a ≠ [] := by
  by_cases hn : NoneRegistered s a
  · rw [lostAfter_eq hn]
    exact h.resolve_right (not_not.mpr hn)
  · cases a with
    | atexit func alloc =>
      cases func with
      | none => exact absurd trivial hn
      | some func =>
        cases alloc with
        | false => exact absurd trivial hn
        | true =>
          have hl : s.lostAfter lost (.atexit (some func) true) = s.registered :: lost := if_neg hn
          rw [hl]
          exact List.cons_ne_nil _ _
    | crt | resolve found | returns status | enter w | unload | overwrite k n =>
      exact absurd trivial hn

/-- The walk, whatever it has lost. -/
def Walking (s : State F) : Prop := Filled s ∧ ∃ st lost, Walks s st lost

/-- The walk, with nothing lost. -/
def Complete (s : State F) : Prop := Filled s ∧ ∃ st, Walks s st []

/-- The walk, with something lost. -/
def Losing (s : State F) : Prop := Filled s ∧ ∃ st lost, lost ≠ [] ∧ Walks s st lost

theorem walking_keeps : (system F).Keeps CursorKept Walking := by
  rintro s a s' ⟨hf, st, lost, hw⟩ hc h
  obtain ⟨st', hw', -⟩ := hw.step hf hc h
  exact ⟨hf.step h, st', _, hw'⟩

theorem complete_keeps : (system F).Keeps Undisturbed Complete := by
  rintro s a s' ⟨hf, st, hw⟩ hc h
  obtain ⟨st', hw', -⟩ := hw.step hf hc.1 h
  rw [lostAfter_eq hc.2] at hw'
  exact ⟨hf.step h, st', hw'⟩

theorem losing_keeps : (system F).Keeps CursorKept Losing := by
  rintro s a s' ⟨hf, st, lost, hl, hw⟩ hc h
  obtain ⟨st', hw', -⟩ := hw.step hf hc h
  exact ⟨hf.step h, st', _, lostAfter_ne (.inl hl), hw'⟩

/-- A registration in the loop loses the new node. -/
theorem Walking.losing (hi : Walking s) (hc : CursorKept s a) (h : step s a = some s')
    (hn : ¬ NoneRegistered s a) : Losing s' := by
  obtain ⟨hf, st, lost, hw⟩ := hi
  obtain ⟨st', hw', -⟩ := hw.step hf hc h
  exact ⟨hf.step h, st', _, lostAfter_ne (.inr hn), hw'⟩

theorem complete_initial (ctorList : List F) : Complete (.initial ctorList) :=
  ⟨filled_inductive.init _ ⟨ctorList, rfl⟩, [], walks_initial ctorList⟩

theorem Complete.walking (h : Complete s) : Walking s := ⟨h.1, h.2.choose, [], h.2.choose_spec⟩

theorem Complete.exitsInOrder (h : Complete s) : ExitsInOrder s := by
  obtain ⟨-, st, hw⟩ := h
  exact ⟨.of_replay (hw.order rfl), fun hp => hw.allRun (by rw [hp]; rfl)⟩

/-- **The exit functions run once each, last registered first**, when none is registered in the
loop; and when one is, the unload does not end with all of them called. -/
theorem exitsInOrder_of_undisturbed (ctorList : List F) (as : List (Action F)) :
    ((system F).Meets Undisturbed (.initial ctorList) as →
      (system F).Always ExitsInOrder (.initial ctorList) as) ∧
    ∀ s, (system F).Meets CursorKept (.initial ctorList) as →
      (system F).exec (.initial ctorList) as = some s → s.point = .unloaded → ExitsInOrder s →
      (system F).Meets Undisturbed (.initial ctorList) as := by
  have h0 := complete_initial ctorList
  refine ⟨fun hm => (complete_keeps.always h0 hm).mono fun _ => Complete.exitsInOrder, ?_⟩
  intro s hm he hp ho
  have hc : ∀ s a s', Walking s → CursorKept s a → (system F).step s a = some s' →
      Undisturbed s a ∨ Losing s' := by
    intro s a s' hw hk h
    by_cases hn : NoneRegistered s a
    · exact .inl ⟨hk, hn⟩
    · exact .inr (hw.losing hk h hn)
  rcases walking_keeps.meets_or losing_keeps hc h0.walking hm he with h | ⟨-, st, lost, hl, hw⟩
  · exact h
  · obtain ⟨k, hk, hz⟩ := hw.lost_not_called hl
    have := (ho.allRun hp).called k hk
    omega

/-- A constructor and `DriverEntry` register a function each, and the unload calls both. -/
theorem exitsInOrder_of_undisturbed_two : (system ℕ).Always ExitsInOrder (.initial [0])
    [.crt, .atexit (some 1) true, .returns 0, .crt, .resolve fun _ => true,
      .atexit (some 2) true, .returns statusSuccess, .unload, .returns 0, .crt, .returns 0, .crt,
      .crt, .crt, .returns 0, .crt, .crt, .crt] :=
  (exitsInOrder_of_undisturbed [0] _).1 (by decide)

/-- **A function registered by an exit function** is not called. -/
theorem not_exitsInOrder_nested : ¬ ∀ (ctorList : List ℕ) as,
    (system ℕ).Always ExitsInOrder (.initial ctorList) as := by
  intro h
  have := (h [0] [.crt, .atexit (some 1) true, .returns 0, .crt, .resolve fun _ => true,
    .returns statusSuccess, .unload, .returns 0, .crt, .atexit (some 2) true, .returns 0, .crt,
    .crt, .crt]).last rfl
  exact absurd ((this.allRun rfl).called 1 (by decide)) (by decide)

end Dpp.Driver
