import Dpp.Lib.System
import Mathlib.Data.BitVec
import Mathlib.Logic.Function.Basic
import Mathlib.Data.Option.Basic

/-!
# `ExTimer`

One owner calls `Start` and `StopAndWait` and at last destroys the object; between its steps the
kernel invokes `ExTimerInterceptor` for the timers it has armed. `Start` overwrites `m_Timer` with
a new timer and `StopAndWait` deletes the timer `m_Timer` names, so a timer `Start` has overwritten
stays with the kernel.

* `State`, `Action`, `step`, `system`: the object, the kernel's timers and their steps.
* `Owned`: the timers not yet deleted are at most `m_Timer`, and there are none after
  `StopAndWait` and after the destructor.
* **`owned_iff_startsCleared`**: a run keeps `Owned` exactly if `m_Timer` is `NULL` at each of its
  `Start`s.
-/

namespace Dpp.ExTimer

open Lib

/-- `EX_TIMER_HIGH_RESOLUTION`. -/
def highResolution : BitVec 32 := 4

/-- An `EX_TIMER` allocated with the object as its callback context. -/
structure KTimer where
  attributes : BitVec 32
  dueTime : BitVec 64 := 0
  period : BitVec 64 := 0
  armed : Bool := false
  running : ℕ := 0

/-- The owner: between two calls, or at a kernel call inside one. -/
inductive Owner
  | constructed
  | setTimer (timeout : BitVec 64) (periodic : Bool)
  | started (rv : Bool)
  | cancelTimer (dtor : Bool)
  | deleteTimer (dtor rv : Bool)
  | clearTimer (dtor rv : Bool)
  | stopped (rv : Bool)
  | destroyed

namespace Owner

/-- Not inside a call, and the object is still there. -/
def free : Owner → Bool
  | constructed | started _ | stopped _ => true
  | _ => false

/-- `StopAndWait` or the destructor has returned, and `Start` was not called since. -/
def done : Owner → Bool
  | stopped _ | destroyed => true
  | _ => false

/-- The timer is deleted and `m_Timer` still names it. -/
def clearing : Owner → Bool
  | clearTimer .. => true
  | _ => false

/-- `StopAndWait` returns `rv`, to its caller or to `~ExTimer`. -/
def finish (dtor rv : Bool) : Owner := if dtor then destroyed else stopped rv

@[simp] theorem finish_clearing (dtor rv : Bool) : (finish dtor rv).clearing = false := by
  cases dtor <;> rfl

end Owner

/-- The members of the object, and the timers the kernel holds for it. -/
structure State (R : Type) where
  timer : Option ℕ := none
  callback : Option R := none
  allocated : ℕ → Option KTimer := fun _ => none
  next : ℕ := 0
  owner : Owner := .constructed

inductive Action (R : Type)
  | start (routine : R) (timeout : BitVec 64) (periodic highPrecision alloc : Bool)
  | setTimer (armed result : Bool)
  | stopAndWait (dtor : Bool)
  | cancelTimer (result : Bool)
  | deleteTimer
  | clearTimer
  | invoke (k : ℕ)
  | complete (k : ℕ)

variable {R : Type}

namespace State

variable (s : State R)

/-- Change timer `k` of the kernel. -/
def modify (k : ℕ) (f : KTimer → KTimer) : State R :=
  { s with allocated := Function.update s.allocated k ((s.allocated k).map f) }

/-- `ExTimer::Start` up to the `NULL` check; `alloc` is whether `WrapperExAllocateTimer` gives a
timer. -/
def start (routine : R) (timeout : BitVec 64) (periodic highPrecision alloc : Bool) : State R :=
  if alloc then
    { timer := some s.next
      callback := some routine
      allocated := Function.update s.allocated s.next
        (some { attributes := if highPrecision then highResolution else 0 })
      next := s.next + 1
      owner := .setTimer timeout periodic }
  else { s with timer := none, callback := some routine, owner := .started false }

/-- `WrapperExSetTimer` in `Start`. Whether the timer is armed and what the call returns are both
left to the kernel. -/
def setTimer (k : ℕ) (timeout : BitVec 64) (periodic armed result : Bool) : State R :=
  { s.modify k fun t =>
      { t with dueTime := timeout, period := if periodic then -timeout else 0, armed } with
    owner := .started result }

/-- `ExTimer::StopAndWait` up to the `NULL` check. -/
def stopAndWait (dtor : Bool) : State R :=
  { s with owner := if s.timer = none then .finish dtor false else .cancelTimer dtor }

end State

/-- The steps of the owner and of the kernel. `WrapperExDeleteTimer` with `Cancel` and `Wait` set
returns when no callback of the timer is running. -/
def step (s : State R) : Action R → Option (State R)
  | .start routine timeout periodic highPrecision alloc =>
    if s.owner.free then some (s.start routine timeout periodic highPrecision alloc) else none
  | .setTimer armed result =>
    match s.owner, s.timer with
    | .setTimer timeout periodic, some k => some (s.setTimer k timeout periodic armed result)
    | _, _ => none
  | .stopAndWait dtor => if s.owner.free then some (s.stopAndWait dtor) else none
  | .cancelTimer result =>
    match s.owner, s.timer with
    | .cancelTimer dtor, some k =>
      some { s.modify k fun t => { t with armed := false } with owner := .deleteTimer dtor result }
    | _, _ => none
  | .deleteTimer =>
    match s.owner, s.timer with
    | .deleteTimer dtor rv, some k =>
      if (s.allocated k).map KTimer.running = some 0 then
        some { s with
          allocated := Function.update s.allocated k none, owner := .clearTimer dtor rv }
      else none
    | _, _ => none
  | .clearTimer =>
    match s.owner with
    | .clearTimer dtor rv => some { s with timer := none, owner := .finish dtor rv }
    | _ => none
  -- the kernel calls `ExTimerInterceptor`; a one-shot timer fires once
  | .invoke k =>
    if (s.allocated k).map KTimer.armed = some true then
      some (s.modify k fun t => { t with armed := t.period != 0, running := t.running + 1 })
    else none
  | .complete k =>
    if ((s.allocated k).map KTimer.running).getD 0 ≠ 0 then
      some (s.modify k fun t => { t with running := t.running - 1 })
    else none

variable (R) in
/-- The owner and the kernel, from the constructor on. -/
def system : System (State R) (Action R) where
  init s := s = {}
  step := step

/-! ## The timers the kernel holds -/

/-- The timers allocated by the object and not yet deleted are at most `m_Timer`; after
`StopAndWait` and after the destructor there are none, and none can call back. -/
structure Owned (s : State R) : Prop where
  only : ∀ k, (s.allocated k).isSome → s.timer = some k
  empty : s.owner.done → ∀ k, s.allocated k = none
  silent : s.owner.done → ∀ k, step s (.invoke k) = none

/-- `m_Timer` is `NULL` when `Start` is called. -/
def StartsCleared (s : State R) : Action R → Prop
  | .start .. => s.timer = none
  | _ => True

/-- What every run keeps: outside the last assignment of `StopAndWait`, `m_Timer` names a timer
the kernel holds. -/
structure Held (s : State R) : Prop where
  timer : ∀ k, s.timer = some k → s.owner.clearing = false → (s.allocated k).isSome
  fresh : ∀ k, (s.allocated k).isSome → k < s.next

/-- What a run keeps whose `Start`s find `m_Timer` cleared. -/
structure Single (s : State R) : Prop where
  only : ∀ k, (s.allocated k).isSome → s.timer = some k
  cleared : s.owner.clearing → ∀ k, s.allocated k = none
  done : s.owner.done → s.timer = none

section Steps

variable {s s' : State R} {a : Action R}

@[simp] theorem modify_isSome (s : State R) (k j : ℕ) (f : KTimer → KTimer) :
    ((s.modify k f).allocated j).isSome = (s.allocated j).isSome := by
  by_cases h : j = k
  · subst h; simp [State.modify]
  · simp [State.modify, Function.update_of_ne h]

/-- A step that allocates and deletes nothing and leaves `m_Timer` alone. -/
structure Quiet (s s' : State R) : Prop where
  timer : s'.timer = s.timer
  next : s'.next = s.next
  isSome : ∀ k, (s'.allocated k).isSome = (s.allocated k).isSome
  clearing : s'.owner.clearing = s.owner.clearing
  done : s'.owner.done → s.owner.done ∨ s.timer = none

theorem quiet_modify (s : State R) (k : ℕ) (f : KTimer → KTimer) : Quiet s (s.modify k f) :=
  ⟨rfl, rfl, fun _ => modify_isSome .., rfl, .inl⟩

theorem quiet_stopAndWait (dtor : Bool) (h : s.owner.free) : Quiet s (s.stopAndWait dtor) := by
  refine ⟨rfl, rfl, fun _ => rfl, ?_, fun hd => ?_⟩
  · have hc : s.owner.clearing = false := by
      cases ho : s.owner <;> simp_all [Owner.free, Owner.clearing]
    rw [hc]
    simp only [State.stopAndWait]
    split_ifs
    · exact Owner.finish_clearing ..
    · rfl
  · by_cases ht : s.timer = none
    · exact .inr ht
    · simp [State.stopAndWait, ht, Owner.done] at hd

/-- **What a step can do**: start, delete the timer `m_Timer` names, clear `m_Timer`, or nothing
to the set of timers. -/
theorem step_cases (h : step s a = some s') :
    (∃ routine timeout periodic highPrecision alloc,
        a = .start routine timeout periodic highPrecision alloc ∧ s.owner.free ∧
        s' = s.start routine timeout periodic highPrecision alloc) ∨
      (∃ dtor rv k, s.timer = some k ∧
        s' = { s with
          allocated := Function.update s.allocated k none, owner := .clearTimer dtor rv }) ∨
      (∃ dtor rv, s.owner = .clearTimer dtor rv ∧
        s' = { s with timer := none, owner := .finish dtor rv }) ∨
      Quiet s s' := by
  cases a with
  | start routine timeout periodic highPrecision alloc =>
    simp only [step, Option.ite_none_right_eq_some, Option.some.injEq] at h
    exact .inl ⟨_, _, _, _, _, rfl, h.1, h.2.symm⟩
  | setTimer armed result =>
    simp only [step] at h
    split at h <;> cases h
    rename_i ho _
    exact .inr (.inr (.inr ⟨rfl, rfl, fun _ => modify_isSome .., by rw [ho]; rfl, nofun⟩))
  | stopAndWait dtor =>
    simp only [step, Option.ite_none_right_eq_some, Option.some.injEq] at h
    obtain ⟨hf, rfl⟩ := h
    exact .inr (.inr (.inr (quiet_stopAndWait dtor hf)))
  | cancelTimer result =>
    simp only [step] at h
    split at h <;> cases h
    rename_i ho _
    exact .inr (.inr (.inr ⟨rfl, rfl, fun _ => modify_isSome .., by rw [ho]; rfl, nofun⟩))
  | deleteTimer =>
    simp only [step] at h
    split at h
    · rename_i dtor rv k ho ht
      simp only [Option.ite_none_right_eq_some, Option.some.injEq] at h
      exact .inr (.inl ⟨dtor, rv, k, ht, h.2.symm⟩)
    · cases h
  | clearTimer =>
    simp only [step] at h
    split at h <;> cases h
    rename_i dtor rv ho
    exact .inr (.inr (.inl ⟨dtor, rv, ho, rfl⟩))
  | invoke k =>
    simp only [step, Option.ite_none_right_eq_some, Option.some.injEq] at h
    obtain ⟨-, rfl⟩ := h
    exact .inr (.inr (.inr (quiet_modify ..)))
  | complete k =>
    simp only [step, Option.ite_none_right_eq_some, Option.some.injEq] at h
    obtain ⟨-, rfl⟩ := h
    exact .inr (.inr (.inr (quiet_modify ..)))

/-- The timers after a `Start`. -/
theorem start_isSome (routine : R) (timeout : BitVec 64) (periodic highPrecision alloc : Bool)
    (k : ℕ) : ((s.start routine timeout periodic highPrecision alloc).allocated k).isSome ↔
      (s.allocated k).isSome ∨ (alloc ∧ k = s.next) := by
  cases alloc with
  | false => simp [State.start]
  | true =>
    by_cases hk : k = s.next
    · subst hk; simp [State.start]
    · simp [State.start, hk]

/-- The timers after a deletion. -/
theorem isSome_of_update_none {f : ℕ → Option KTimer} {j k : ℕ}
    (h : (Function.update f k none j).isSome) : j ≠ k ∧ (f j).isSome := by
  by_cases hjk : j = k
  · subst hjk; simp at h
  · exact ⟨hjk, by simpa [Function.update_of_ne hjk] using h⟩

theorem Held.step (hi : Held s) (h : step s a = some s') : Held s' := by
  obtain ⟨routine, timeout, periodic, hp, alloc, -, -, rfl⟩ | ⟨dtor, rv, k, -, rfl⟩ |
    ⟨dtor, rv, -, rfl⟩ | hq := step_cases h
  · refine ⟨fun k hk _ => ?_, fun k hk => ?_⟩
    · cases alloc with
      | false => simp [State.start] at hk
      | true =>
        obtain rfl : s.next = k := by simpa [State.start] using hk
        exact (start_isSome ..).mpr (.inr ⟨rfl, rfl⟩)
    · cases alloc with
      | false => exact hi.fresh k (by simpa [start_isSome] using hk)
      | true =>
        change k < s.next + 1
        rcases (start_isSome ..).mp hk with hk | ⟨-, rfl⟩
        · exact Nat.lt_succ_of_lt (hi.fresh k hk)
        · exact Nat.lt_succ_self _
  · exact ⟨nofun, fun j hj => hi.fresh j (isSome_of_update_none hj).2⟩
  · exact ⟨nofun, hi.fresh⟩
  · refine ⟨fun k hk hc => ?_, fun k hk => ?_⟩
    · rw [hq.isSome]
      exact hi.timer k (hq.timer ▸ hk) (hq.clearing ▸ hc)
    · rw [hq.next]
      exact hi.fresh k (hq.isSome k ▸ hk)

theorem Single.step (hi : Single s) (hc : StartsCleared s a) (h : step s a = some s') :
    Single s' := by
  obtain ⟨routine, timeout, periodic, hp, alloc, rfl, -, rfl⟩ | ⟨dtor, rv, k, ht, rfl⟩ |
    ⟨dtor, rv, ho, rfl⟩ | hq := step_cases h
  · -- no timer is left when `Start` is called
    have hn : ∀ k, ¬ (s.allocated k).isSome := by
      intro k hk
      have := hi.only k hk
      rw [show s.timer = none from hc] at this
      cases this
    cases alloc with
    | false =>
      exact ⟨fun k hk => absurd hk (hn k), nofun, nofun⟩
    | true =>
      refine ⟨fun k hk => ?_, nofun, nofun⟩
      rcases (start_isSome ..).mp hk with hk | ⟨-, rfl⟩
      · exact absurd hk (hn k)
      · rfl
  · have hn : ∀ j, Function.update s.allocated k none j = none := by
      intro j
      by_contra hj
      obtain ⟨hjk, hj⟩ := isSome_of_update_none (Option.isSome_iff_ne_none.mpr hj)
      exact hjk (Option.some.inj ((hi.only j hj).symm.trans ht))
    exact ⟨fun j hj => absurd hj (by simp [hn]), fun _ => hn, nofun⟩
  · have hn := hi.cleared (by rw [ho]; rfl)
    exact ⟨fun k hk => absurd hk (by simp [hn k]), fun hc => absurd hc (by simp), fun _ => rfl⟩
  · refine ⟨fun k hk => ?_, fun hcl k => ?_, fun hd => ?_⟩
    · rw [hq.timer]
      exact hi.only k (hq.isSome k ▸ hk)
    · have := hi.cleared (hq.clearing ▸ hcl) k
      rw [← Option.not_isSome_iff_eq_none, hq.isSome, this]
      simp
    · rw [hq.timer]
      exact (hq.done hd).elim hi.done id

theorem Single.owned (hi : Single s) : Owned s := by
  have hn : s.owner.done → ∀ k, s.allocated k = none := by
    intro hd k
    by_contra hk
    have := hi.only k (Option.isSome_iff_ne_none.mpr hk)
    rw [hi.done hd] at this
    cases this
  exact ⟨hi.only, hn, fun hd k => by simp [ExTimer.step, hn hd k]⟩

/-- A `Start` that overwrites a timer leaves it with the kernel. -/
theorem startsCleared_of_owned (hi : Held s) (h : step s a = some s') (ho : Owned s') :
    StartsCleared s a := by
  cases a with
  | start routine timeout periodic hp alloc =>
    simp only [step, Option.ite_none_right_eq_some, Option.some.injEq] at h
    obtain ⟨hf, rfl⟩ := h
    have hc : s.owner.clearing = false := by
      cases ho : s.owner <;> simp_all [Owner.free, Owner.clearing]
    change s.timer = none
    by_contra hn
    obtain ⟨k, hk⟩ := Option.ne_none_iff_exists'.mp hn
    have hs := hi.timer k hk hc
    have hlt := hi.fresh k hs
    have := ho.only k ((start_isSome ..).mpr (.inl hs))
    cases alloc with
    | false => simp [State.start] at this
    | true =>
      obtain rfl : s.next = k := by simpa [State.start] using this
      omega
  | _ => trivial

end Steps

theorem held_inductive : (system R).Inductive Held := by
  refine ⟨fun s h0 => ?_, fun s a s' hi h => hi.step h⟩
  obtain rfl := h0
  constructor <;> simp

/-- **The timers a run has not deleted are at most `m_Timer`, with none left after `StopAndWait`
and the destructor, exactly if the run calls `Start` only while `m_Timer` is `NULL`.** -/
theorem owned_iff_startsCleared (as : List (Action R)) :
    (system R).Always Owned {} as ↔ (system R).Meets StartsCleared {} as := by
  constructor
  · intro ho
    have hh : (system R).Always Held {} as := held_inductive.always (held_inductive.init _ rfl)
    exact System.Meets.of_always (fun s a s' h hs hs' => startsCleared_of_owned hs.2 h hs'.1)
      (ho.and hh)
  · intro hc
    have hk : (system R).Keeps StartsCleared Single := fun s a s' hi hc h => hi.step hc h
    have h0 : Single ({} : State R) := by constructor <;> simp [Owner.clearing]
    exact (hk.always h0 hc).mono fun _ => Single.owned

/-- **A second `Start` leaves the first timer with the kernel**, and it still calls back after the
destructor has returned. -/
theorem not_owned_restart : ¬ ∀ as, (system Unit).Always Owned {} as := by
  intro h
  have := (h [.start () (-100000) true true true, .setTimer true true,
    .start () (-100000) true true true, .setTimer true true, .stopAndWait true,
    .cancelTimer true, .deleteTimer, .clearTimer]).last rfl
  exact Option.some_ne_none _ (this.empty rfl 0)

end Dpp.ExTimer
