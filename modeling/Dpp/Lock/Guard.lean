import Dpp.Lib.System
import Dpp.Lock.Mutex
import Mathlib.Data.Set.Subsingleton
import Mathlib.Logic.Function.Iterate
import Mathlib.Data.Fintype.Defs
import Mathlib.Tactic.Push

/-!
# Scopes under a `LockGuard`

Any number of threads construct a `LockGuard` on one `Mutex`, run a scope and destroy the guard,
again and again. The member `m_Lock` of the guard is a `Mutex`, not a reference: the constructor
copies the mutex, and `Lock` and `Unlock` act on the copy.

* `Guard`, `Guard.step`: a thread's guard and its next access; `system`: the threads together.
* `Guard.reaches_scope`: a guard gets into its scope by its own steps, whatever other guards do.
* **`exclusive_of_serial`**: scopes exclude each other as long as no guard is constructed while
  another one is live, and the first construction that breaks this lets two threads into their
  scopes.
-/

namespace Dpp.Lock

open Lib

/-! ## One thread -/

/-- A thread and its `LockGuard`. -/
inductive Guard
  /-- No guard was constructed yet. -/
  | none
  /-- In the constructor, inside `m_Lock.Lock()`. -/
  | locking (lock : Mutex) (next : LockPoint)
  /-- The constructor has returned. -/
  | scope (lock : Mutex)
  /-- The destructor has started and is about to call `m_Lock.Unlock()`. -/
  | unlocking (lock : Mutex)
  /-- The guard is gone. -/
  | closed (lock : Mutex)
deriving DecidableEq

namespace Guard

/-- The next step of a thread whose guards are constructed on `m`. -/
def step (m : Mutex) : Guard → Guard
  -- `LockGuard(Mutex & m) : m_Lock(m)` copies the mutex
  | none => locking m .read
  | closed _ => locking m .read
  | locking lock next =>
    match lock.lock next with
    | (lock, some next) => locking lock next
    | (lock, .none) => scope lock
  | scope lock => unlocking lock
  | unlocking lock => closed lock.unlock

/-- The next step constructs a guard. -/
def constructs : Guard → Bool
  | none | closed _ => true
  | _ => false

/-- Between the start of the constructor and the start of the destructor. -/
def live : Guard → Bool
  | locking .. | scope _ => true
  | _ => false

/-- Between the end of the constructor and the start of the destructor. -/
def inScope : Guard → Bool
  | scope _ => true
  | _ => false

/-- What the private copy of a word that was `0` holds. -/
def Fresh : Guard → Prop
  | locking lock _ => lock = ⟨0⟩
  | _ => True

theorem live_of_inScope {g : Guard} (h : g.inScope) : g.live := by
  cases g <;> simp_all [inScope, live]

theorem Fresh.step {g : Guard} (h : g.Fresh) : (g.step ⟨0⟩).Fresh := by
  cases g with
  | locking lock next =>
    obtain rfl : lock = ⟨0⟩ := h
    cases next <;> trivial
  | _ => first | rfl | trivial

/-- Only a construction makes a guard live. -/
theorem live_step {g : Guard} (m : Mutex) (h : (g.step m).live) : g.live ∨ g.constructs := by
  cases g <;> simp_all [step, live, constructs]

/-- **A live guard on a fresh copy gets into its scope by its own steps.** -/
theorem reaches_scope {g : Guard} (hf : g.Fresh) (h : g.live) :
    ∃ n, ((step ⟨0⟩)^[n] g).inScope := by
  cases g with
  | scope lock => exact ⟨0, rfl⟩
  | locking lock next =>
    obtain rfl : lock = ⟨0⟩ := hf
    cases next with
    | read => exact ⟨2, rfl⟩
    | exchange => exact ⟨1, rfl⟩
  | _ => simp [live] at h

end Guard

/-! ## All threads -/

/-- The mutex and the guards of the threads. -/
structure State (T : Type) where
  mutex : Mutex
  guard : T → Guard

/-- A mutex whose word is `0`, and no guard. -/
def State.start (T : Type) : State T := { mutex := ⟨0⟩, guard := fun _ => .none }

variable {T : Type} [DecidableEq T]

/-- Thread `t` takes its next step. -/
def State.step (s : State T) (t : T) : State T :=
  { s with guard := Function.update s.guard t ((s.guard t).step s.mutex) }

theorem State.step_guard (s : State T) (t u : T) :
    (s.step t).guard u = if u = t then (s.guard t).step s.mutex else s.guard u :=
  Function.update_apply ..

variable (T) in
/-- The threads of `T` with their guards on one mutex. -/
def system : System (State T) T where
  init s := s = .start T
  step s t := some (s.step t)

/-- At most one thread is in its scope. -/
def Exclusive (s : State T) : Prop := {t | (s.guard t).inScope}.Subsingleton

/-- Thread `t` does not construct a guard while a guard is live. -/
def Serial (s : State T) (t : T) : Prop :=
  (s.guard t).constructs → ∀ u, ¬ (s.guard u).live

instance [Fintype T] (s : State T) (t : T) : Decidable (Serial s t) := by
  unfold Serial; infer_instance

/-- The word stays `0`, and so does every copy being locked. -/
structure Fresh (s : State T) : Prop where
  mutex : s.mutex = ⟨0⟩
  guard : ∀ t, (s.guard t).Fresh

omit [DecidableEq T] in
theorem fresh_start : Fresh (.start T) := ⟨rfl, fun _ => trivial⟩

theorem Fresh.step {s : State T} (h : Fresh s) (t : T) : Fresh (s.step t) := by
  refine ⟨h.mutex, fun u => ?_⟩
  rw [State.step_guard]
  split_ifs with hu
  · rw [h.mutex]
    exact (h.guard t).step
  · exact h.guard u

theorem fresh_exec {as : List T} {s : State T} (h : (system T).exec (.start T) as = some s) :
    Fresh s := by
  have hi : (system T).Inductive Fresh := by
    refine ⟨fun s h0 => ?_, fun s t s' hs ht => ?_⟩
    · obtain rfl := h0
      exact fresh_start
    · cases ht
      exact hs.step t
  exact hi.step.exec fresh_start h

/-- At most one guard is live. -/
def OneLive (s : State T) : Prop := {t | (s.guard t).live}.Subsingleton

omit [DecidableEq T] in
theorem OneLive.exclusive {s : State T} (h : OneLive s) : Exclusive s :=
  h.anti fun _ => Guard.live_of_inScope

theorem OneLive.step {s : State T} {t : T} (h : OneLive s) (hs : Serial s t) :
    OneLive (s.step t) := by
  intro u hu v hv
  simp only [Set.mem_ofPred_eq, State.step_guard] at hu hv
  by_cases hc : (s.guard t).constructs
  · -- no guard was live, so only the one under construction is
    have hn := hs hc
    by_cases hut : u = t
    · by_cases hvt : v = t
      · rw [hut, hvt]
      · rw [if_neg hvt] at hv; exact absurd hv (hn v)
    · rw [if_neg hut] at hu; exact absurd hu (hn u)
  · -- the live threads after the step were live before it
    have hl : ∀ w, (if w = t then (s.guard t).step s.mutex else s.guard w).live →
        (s.guard w).live := by
      intro w hw
      split_ifs at hw with hwt
      · rw [hwt]; exact (Guard.live_step s.mutex hw).resolve_right hc
      · exact hw
    exact h (hl u hu) (hl v hv)

/-! ## Two live guards -/

/-- The state after `n` steps of thread `t`. -/
def State.advance (s : State T) (t : T) (n : ℕ) : State T :=
  { s with guard := Function.update s.guard t ((Guard.step s.mutex)^[n] (s.guard t)) }

theorem exec_replicate (s : State T) (t : T) (n : ℕ) :
    (system T).exec s (List.replicate n t) = some (s.advance t n) := by
  induction n generalizing s with
  | zero => simp [State.advance]
  | succ n ih =>
    rw [List.replicate_succ, System.exec_cons]
    change (system T).exec (s.step t) (List.replicate n t) = _
    rw [ih]
    simp [State.advance, State.step, Function.iterate_succ_apply]

/-- **Two threads with live guards can both get into their scopes.** -/
theorem exists_both_inScope {s : State T} (hf : Fresh s) {t u : T} (htu : t ≠ u)
    (ht : (s.guard t).live) (hu : (s.guard u).live) :
    ∃ as s', (system T).exec s as = some s' ∧ (s'.guard t).inScope ∧ (s'.guard u).inScope := by
  obtain ⟨n, hn⟩ := Guard.reaches_scope (hf.guard t) ht
  obtain ⟨m, hm⟩ := Guard.reaches_scope (hf.guard u) hu
  refine ⟨List.replicate n t ++ List.replicate m u, (s.advance t n).advance u m, ?_, ?_, ?_⟩
  · rw [System.exec_append, exec_replicate, Option.bind_some, exec_replicate]
  · simpa [State.advance, Function.update_of_ne htu, hf.mutex] using hn
  · simpa [State.advance, Function.update_of_ne htu.symm, hf.mutex] using hm

/-- **Scopes exclude each other in every run in which no guard is constructed while another is
live, and the first construction that breaks this can be continued to two threads in their
scopes.** -/
theorem exclusive_of_serial (as : List T) (hm : (system T).Meets Serial (.start T) as) :
    (system T).Always Exclusive (.start T) as ∧
      ∀ s t, (system T).exec (.start T) as = some s → ¬ Serial s t →
        ∃ bs s', (system T).exec s (t :: bs) = some s' ∧ ¬ Exclusive s' := by
  constructor
  · have hk : (system T).Keeps Serial OneLive := by
      intro s t s' h hs ht
      cases ht
      exact h.step hs
    have h0 : OneLive (.start T) := fun t ht => by simp [State.start, Guard.live] at ht
    exact (hk.always h0 hm).mono fun _ => OneLive.exclusive
  · intro s t he hs
    unfold Serial at hs
    push Not at hs
    obtain ⟨hc, u, hu⟩ := hs
    have htu : t ≠ u := by
      rintro rfl
      cases h : s.guard t <;> simp_all [Guard.constructs, Guard.live]
    have hl : ((s.step t).guard t).live := by
      rw [State.step_guard, if_pos rfl]
      cases h : s.guard t <;> simp_all [Guard.constructs, Guard.step, Guard.live]
    obtain ⟨bs, s', hr, hst, hsu⟩ := exists_both_inScope ((fresh_exec he).step t) htu hl
      (by rw [State.step_guard, if_neg htu.symm]; exact hu)
    exact ⟨bs, s', hr, fun hx => htu (hx hst hsu)⟩

theorem exclusive_of_serial_two :
    (system Bool).Always Exclusive (.start Bool)
        [true, true, true, true, true, false, false, false] ∧
      ∀ s t, (system Bool).exec (.start Bool)
          [true, true, true, true, true, false, false, false] = some s → ¬ Serial s t →
        ∃ bs s', (system Bool).exec s (t :: bs) = some s' ∧ ¬ Exclusive s' :=
  exclusive_of_serial _ (by decide)

/-- **Two threads that both construct a guard are in their scopes together.** -/
theorem not_exclusive_two :
    ¬ ∀ as, (system Bool).Always Exclusive (.start Bool) as := fun h =>
  Bool.noConfusion ((h [true, true, true, false, false, false]).last rfl
    (show Guard.inScope (.scope ⟨1⟩) from rfl) (show Guard.inScope (.scope ⟨1⟩) from rfl) :
      true = false)

end Dpp.Lock
