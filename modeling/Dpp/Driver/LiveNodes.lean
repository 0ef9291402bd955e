import Dpp.Driver.ExitFunctions

/-!
# The nodes the loop touches

The loop of `__dtors` frees a node and then reads its `next`.

* `TouchesLive`: a node whose field is read is registered and has not been freed.
* `VisitsLinked`: the nodes visited are those that were linked when the loop began, in order.
* **`visitsLinked_of_cursorKept`**: so they are as long as nobody gets a freed node too early.
* **`touchesLive_of_nothingLinked`**: no freed node is read if nothing is linked when the loop
  begins, and otherwise one is in the first iteration.
-/

namespace Dpp.Driver

open Lib

variable {F : Type}

namespace Point

/-- In `DriverUnload`. -/
def unloading : Point F → Bool
  | driverUnload => true
  | _ => false

/-- In an iteration of the loop. -/
def iterating : Point F → Bool
  | dtors (some _) | exitFunc .. | free _ | next _ => true
  | _ => false

end Point

/-- The node whose `func` or `next` the loop reads next. -/
def State.touched (s : State F) : Option ℕ :=
  match s.point with
  | .dtors p => p
  | .next p => some p
  | _ => none

/-- A field is read of a node that is linked, and not after `free`. -/
def TouchesLive (s : State F) : Action F → Prop
  | .crt => ∀ p ∈ s.touched, p < s.registered ∧ p ∉ s.frees
  | _ => True

structure VisitsLinked (s : State F) : Prop where
  soFar : Lifo.pops s.log <+: Lifo.firstStack s.log
  all : s.point = .unloaded → Lifo.pops s.log = Lifo.firstStack s.log

/-- `atexit_list` is `NULL` when `DriverUnload` returns. -/
def NothingLinked (s : State F) : Action F → Prop
  | .returns _ => s.point.unloading → s.atexitList = none
  | _ => True

instance (s : State F) : ∀ a, Decidable (TouchesLive s a)
  | .crt => inferInstanceAs (Decidable (∀ p ∈ s.touched, _))
  | .resolve _ | .returns _ | .atexit .. | .enter _ | .unload | .overwrite .. => isTrue trivial

instance (s : State F) : ∀ a, Decidable (NothingLinked s a)
  | .returns _ => inferInstanceAs (Decidable (_ → _))
  | .crt | .resolve _ | .atexit .. | .enter _ | .unload | .overwrite .. => isTrue trivial

variable {s s' : State F} {a : Action F} {st lost : List ℕ}

/-! ## The nodes visited -/

/-- The walk, in the order of the links. -/
def WalkingInLine (s : State F) : Prop := Filled s ∧ ∃ st lost, Walks s st lost ∧ s.InLine st

theorem walkingInLine_keeps : (system F).Keeps CursorKept WalkingInLine := by
  rintro s a s' ⟨hf, st, lost, hw, hl⟩ hc h
  obtain ⟨st', hw', hl'⟩ := hw.step hf hc h
  exact ⟨hf.step h, st', _, hw', hl' hl⟩

theorem walkingInLine_initial (ctorList : List F) : WalkingInLine (.initial ctorList) :=
  ⟨filled_inductive.init _ ⟨ctorList, rfl⟩, [], [], walks_initial ctorList, rfl⟩

theorem WalkingInLine.visitsLinked (h : WalkingInLine s) : VisitsLinked s := by
  obtain ⟨-, st, lost, hw, hl⟩ := h
  refine ⟨⟨st, hl⟩, fun hp => ?_⟩
  have hst : st = [] := hw.nil_of_after (by rw [hp]; rfl)
  rw [← hl, hst, List.append_nil]

/-- **The nodes visited are the right ones** as long as a freed node is left alone until its `next`
has been read. -/
theorem visitsLinked_of_cursorKept (ctorList : List F) (as : List (Action F))
    (hc : (system F).Meets CursorKept (.initial ctorList) as) :
    (system F).Always VisitsLinked (.initial ctorList) as :=
  (walkingInLine_keeps.always (walkingInLine_initial ctorList) hc).mono fun _ =>
    WalkingInLine.visitsLinked

/-! ## Nothing linked -/

/-- The loop has not begun, or has nothing to do. -/
structure Idle (s : State F) : Prop where
  walk : s.point.walk = .before ∨ s.point = .dtors none ∨ s.point = .unloaded
  frees : s.frees = []

theorem Idle.of_before {t : State F} (hi : Idle s) (hp : t.point.walk = .before)
    (hf : t.frees = s.frees) : Idle t := ⟨.inl hp, hf.trans hi.frees⟩

theorem Idle.not_iterating (hi : Idle s) : s.point.iterating = false := by
  rcases hi.walk with hw | hp | hp
  · cases hp : s.point with
    | dtors p | exitFunc p func | free p | next p =>
      rw [hp] at hw
      exact Walk.noConfusion hw
    | ctors rest | ctor func rest | resolve | driverEntry | returned status | driverUnload
    | unloaded | dropped | bugCheck => rfl
  · rw [hp]
    rfl
  · rw [hp]
    rfl

theorem Idle.step (hi : Idle s) (hc : NothingLinked s a) (h : Driver.step s a = some s') :
    Idle s' := by
  have hn := hi.not_iterating
  cases step_cases h with
  | call p n hp hn' | free p hp hr hf | next p n hp hn' | exitReturns p func status hp =>
    rw [hp] at hn
    exact Bool.noConfusion hn
  | ctor func rest hp | ctorsEnd hp | ctorReturns func rest status hp | entryReturns status hp
  | unload status hp hs | drop status hp hs | crash w hh ht => exact hi.of_before rfl rfl
  | resolve found hp => exact hi.of_before (resolve_walk found) rfl
  | dtorsEnd hp => exact ⟨.inr (.inr rfl), hi.frees⟩
  | unloadReturns status hp =>
    have hnull : s.atexitList = none := hc (by rw [hp]; rfl)
    exact ⟨.inr (.inl (congrArg Point.dtors hnull)), hi.frees⟩
  | register func hh | refuse func alloc hh hr | enter w hh ht | overwrite k n hk =>
    exact ⟨hi.walk, hi.frees⟩

theorem Idle.touched_eq_none (hi : Idle s) : s.touched = none := by
  have hn := hi.not_iterating
  unfold State.touched
  cases hp : s.point with
  | dtors p =>
    cases p with
    | none => rfl
    | some p =>
      rw [hp] at hn
      exact Bool.noConfusion hn
  | next p =>
    rw [hp] at hn
    exact Bool.noConfusion hn
  | ctors rest | ctor func rest | resolve | driverEntry | returned status | driverUnload
  | exitFunc p func | free p | unloaded | dropped | bugCheck => rfl

theorem Idle.touchesLive (hi : Idle s) : TouchesLive s a := by
  cases a with
  | crt =>
    intro p hp
    rw [hi.touched_eq_none] at hp
    cases hp
  | resolve found | returns status | atexit func alloc | enter w | unload | overwrite k n => trivial

theorem Idle.cursorKept (hi : Idle s) (h : Driver.step s a = some s') : CursorKept s a := by
  cases step_cases h with
  | overwrite k n hk =>
    rw [hi.frees] at hk
    cases hk
  | _ => trivial

theorem idle_keeps : (system F).Keeps NothingLinked Idle := fun _ _ _ hi hc h => hi.step hc h

theorem idle_initial (ctorList : List F) : Idle (.initial ctorList) := ⟨.inl rfl, rfl⟩

/-! ## Something linked -/

/-- Before the loop reads a `next` it has freed the node. -/
structure Freeing (s : State F) : Prop where
  filled : Filled s
  next : ∀ p, s.point.walk = .advance p → p ∈ s.frees

theorem Freeing.step (hi : Freeing s) (h : Driver.step s a = some s') : Freeing s' := by
  refine ⟨hi.filled.step h, fun q hq => ?_⟩
  cases step_cases h with
  | free p hp hr hn =>
    obtain rfl : p = q := Walk.advance.inj hq
    exact List.mem_append_right _ (List.mem_singleton_self p)
  | register func hh | refuse func alloc hh hr | enter w hh ht | overwrite k n hk =>
    exact hi.next q hq
  | resolve found hp =>
    rw [resolve_walk found] at hq
    exact Walk.noConfusion hq
  | ctor func rest hp | ctorsEnd hp | call p n hp hn | dtorsEnd hp | next p n hp hn
  | ctorReturns func rest status hp | entryReturns status hp | unloadReturns status hp
  | exitReturns p func status hp | crash w hh ht | unload status hp hs | drop status hp hs =>
    exact Walk.noConfusion hq

theorem resolved_of_iterating {p : Point F} (h : p.iterating) : p.resolved := by
  cases p with
  | dtors p | exitFunc p func | free p | next p => rfl
  | ctors rest | ctor func rest | resolve | driverEntry | returned status | driverUnload
  | unloaded | dropped | bugCheck => exact Bool.noConfusion h

/-- The loop does not get out of its first iteration without a read of the node it has freed. -/
theorem Freeing.iterating_step (hi : Freeing s) (hp : s.point.iterating) (ht : TouchesLive s a)
    (h : Driver.step s a = some s') : s'.point.iterating := by
  cases step_cases h with
  | call p n hd hn | free p hd hr hn | exitReturns p func status hd => rfl
  | next p n hd hn =>
    have hlive := (ht p (by rw [State.touched, hd]; rfl)).2
    exact absurd (hi.next p (by rw [hd]; rfl)) hlive
  | crash w hh hz =>
    have hfull := hi.filled.resolved (resolved_of_iterating hp) w
    rw [hz] at hfull
    exact Bool.noConfusion hfull
  | register func hh | refuse func alloc hh hr | enter w hh hw | overwrite k n hk => exact hp
  | ctor func rest hd | ctorsEnd hd | dtorsEnd hd | resolve found hd
  | ctorReturns func rest status hd | entryReturns status hd | unloadReturns status hd
  | unload status hd hs | drop status hd hs =>
    rw [hd] at hp
    exact Bool.noConfusion hp

theorem iterating_of_linked (hc : ¬ NothingLinked s a) (h : Driver.step s a = some s') :
    s'.point.iterating := by
  cases step_cases h with
  | unloadReturns status hp =>
    obtain ⟨-, hl⟩ := Classical.not_imp.mp hc
    obtain ⟨k, hk⟩ := Option.ne_none_iff_exists'.mp hl
    simp only [hk, Point.iterating]
  | ctorReturns func rest status hp | entryReturns status hp | exitReturns p func status hp =>
    exact absurd (fun hu => by rw [hp] at hu; exact Bool.noConfusion hu) hc
  | _ => exact absurd trivial hc

theorem freeing_initial (ctorList : List F) : Freeing (.initial ctorList) :=
  ⟨filled_inductive.init _ ⟨ctorList, rfl⟩, fun _ => Walk.noConfusion⟩

/-- **The loop touches live nodes only**, and visits the linked ones, when nothing is linked as it
begins; and when something is, it reads a freed node before it is through with the first one. -/
theorem touchesLive_of_nothingLinked (ctorList : List F) (as : List (Action F)) :
    ((system F).Meets NothingLinked (.initial ctorList) as →
      (system F).Meets TouchesLive (.initial ctorList) as ∧
        (system F).Always VisitsLinked (.initial ctorList) as) ∧
    ∀ s, (system F).exec (.initial ctorList) as = some s → s.point.iterating = false →
      (system F).Meets TouchesLive (.initial ctorList) as →
        (system F).Meets NothingLinked (.initial ctorList) as := by
  constructor
  · intro hm
    have hkept : (system F).Meets CursorKept (.initial ctorList) as :=
      idle_keeps.meets (fun _ _ _ hi _ h => hi.cursorKept h) (idle_initial ctorList) hm
    exact ⟨idle_keeps.meets (fun _ _ _ hi _ _ => hi.touchesLive) (idle_initial ctorList) hm,
      visitsLinked_of_cursorKept ctorList as hkept⟩
  · intro s he hs hm
    have hfreeing : (system F).Keeps TouchesLive Freeing := fun _ _ _ hi _ h => hi.step h
    have hstay : (system F).Keeps TouchesLive fun s => Freeing s ∧ s.point.iterating :=
      fun _ _ _ hi ht h => ⟨hi.1.step h, hi.1.iterating_step hi.2 ht h⟩
    have hc : ∀ s a s', Freeing s → TouchesLive s a → (system F).step s a = some s' →
        NothingLinked s a ∨ Freeing s' ∧ s'.point.iterating := by
      intro s a s' hi _ h
      by_cases hn : NothingLinked s a
      · exact .inl hn
      · exact .inr ⟨hi.step h, iterating_of_linked hn h⟩
    rcases hfreeing.meets_or hstay hc (freeing_initial ctorList) hm he with h | ⟨-, h⟩
    · exact h
    · rw [hs] at h
      exact Bool.noConfusion h

/-- An unload with nothing registered. -/
theorem touchesLive_of_nothingLinked_none : ∃ as : List (Action ℕ),
    (system ℕ).Meets TouchesLive (.initial []) as ∧
      (system ℕ).Always VisitsLinked (.initial []) as ∧
      (system ℕ).Meets NothingLinked (.initial []) as := by
  have h := touchesLive_of_nothingLinked (F := ℕ) [] [.crt, .resolve fun _ => true,
    .returns statusSuccess, .unload, .returns 0, .crt]
  have hlive := h.1 (by decide)
  exact ⟨_, hlive.1, hlive.2, h.2 _ rfl rfl hlive.1⟩

/-- **One registered function**: its node is freed, and then its `next` is read. -/
theorem not_touchesLive_one : ¬ ∀ (ctorList : List ℕ) as,
    (system ℕ).Meets TouchesLive (.initial ctorList) as ∧
      (system ℕ).Always VisitsLinked (.initial ctorList) as := by
  intro h
  have hlive := (h [0] [.crt, .atexit (some 1) true, .returns 0, .crt, .resolve fun _ => true,
    .returns statusSuccess, .unload, .returns 0, .crt, .returns 0, .crt, .crt]).1
  exact absurd hlive (by decide)

end Dpp.Driver
