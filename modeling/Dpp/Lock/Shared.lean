import Dpp.Lib.System
import Dpp.Lock.Mutex
import Mathlib.Data.Set.Subsingleton
import Mathlib.Logic.Function.Basic
import Mathlib.Tactic.SplitIfs

/-!
# One mutex for all threads

Any number of threads call `Lock` and `Unlock` on one `Mutex`, whose constructor does not write
`m_interlock`.

* `Point`, `State`, `system`: the threads and the mutex, from its construction on.
* `Works`: mutual exclusion, every return of `Lock` an acquisition, and a free word when nobody
  holds the mutex.
* **`works_iff`**: so it is in every run exactly if the storage held `0` before the construction.
-/

namespace Dpp.Lock.Shared

open Lib

/-- Where a thread is. -/
inductive Point
  | outside
  /-- In `Lock`, before the access `next`. -/
  | locking (next : LockPoint)
  /-- From the return of `Lock` to the store of `Unlock`. `acquired`: the exchange of this `Lock`
  has changed the word from `0` to `1`. -/
  | inside (acquired : Bool)
deriving DecidableEq

/-- Between a returned `Lock` and its `Unlock`. -/
def Point.isInside : Point → Bool
  | inside _ => true
  | _ => false

structure State (T : Type) where
  mutex : Mutex
  point : T → Point

variable {T : Type}

/-- The mutex is constructed and no thread has called it. -/
def State.start (T : Type) (storage : BitVec 32) : State T :=
  { mutex := .construct storage, point := fun _ => .outside }

/-- The next step of a thread: the call of `Lock`, an access in it, or `Unlock`. -/
def Point.step (m : Mutex) : Point → Mutex × Point
  | outside => (m, locking .read)
  | locking next =>
    match m.lock next with
    | (m, some next) => (m, locking next)
    | (m', none) => (m', inside (m.interlock = 0 ∧ m'.interlock = 1))
  | inside _ => (m.unlock, outside)

variable [DecidableEq T]

/-- Thread `t` takes its next step. -/
def State.step (s : State T) (t : T) : State T :=
  let (mutex, point) := (s.point t).step s.mutex
  { mutex, point := Function.update s.point t point }

variable (T) in
/-- The threads of `T` on one mutex, built in any storage. -/
def system : System (State T) T where
  init s := ∃ storage, s = .start T storage
  step s t := some (s.step t)

/-! ## What a mutex is for -/

/-- At most one thread is inside, it has acquired the word itself, and while no thread has acquired
it the word is `0`, so that a pending `Lock` acquires it by its own steps. -/
structure Works (s : State T) : Prop where
  exclusive : {t | (s.point t).isInside}.Subsingleton
  acquired : ∀ t, s.point t ≠ .inside false
  free : (∀ t, s.point t ≠ .inside true) → s.mutex.interlock = 0
  able : (∀ t, s.point t ≠ .inside true) → ∀ t next, s.point t = .locking next →
    ∃ n s', (system T).exec s (List.replicate n t) = some s' ∧ s'.point t = .inside true

/-! ## The word -/

/-- The word is `1` while one thread has acquired it, and `0` otherwise. -/
inductive Holds (s : State T) : Prop
  | free (hw : s.mutex.interlock = 0) (hn : ∀ t, (s.point t).isInside = false)
  | held (t : T) (hw : s.mutex.interlock = 1) (ht : s.point t = .inside true)
      (hn : ∀ u, u ≠ t → (s.point u).isInside = false)

variable {s : State T} {t : T}

/-- A read finds the word as it is. -/
theorem step_read (h : s.point t = .locking .read) :
    s.step t = { s with
      point := Function.update s.point t
        (.locking (if s.mutex.interlock = 1 then .read else .exchange)) } := by
  unfold State.step Point.step
  rw [h]
  simp only [Mutex.lock]
  split_ifs <;> rfl

/-- An exchange that finds `0` acquires the word. -/
theorem step_acquire (h : s.point t = .locking .exchange) (hw : s.mutex.interlock = 0) :
    s.step t = { mutex := ⟨1⟩, point := Function.update s.point t (.inside true) } := by
  unfold State.step Point.step
  rw [h]
  simp [Mutex.lock, interlockedCompareExchange, hw]

/-- An exchange that finds `1` goes back to the read. -/
theorem step_retry (h : s.point t = .locking .exchange) (hw : s.mutex.interlock = 1) :
    s.step t = { s with point := Function.update s.point t (.locking .read) } := by
  have hm : s.mutex = ⟨1⟩ := congrArg Mutex.mk hw
  unfold State.step Point.step
  rw [h, hm]
  simp [Mutex.lock, interlockedCompareExchange]

/-- The call of `Lock`. -/
theorem step_call (h : s.point t = .outside) :
    s.step t = { s with point := Function.update s.point t (.locking .read) } := by
  unfold State.step Point.step
  rw [h]

/-- `Unlock`. -/
theorem step_unlock {acquired : Bool} (h : s.point t = .inside acquired) :
    s.step t = { mutex := ⟨0⟩, point := Function.update s.point t .outside } := by
  unfold State.step Point.step
  rw [h]
  rfl

/-- A step to a place outside, which leaves the word and the other threads alone. -/
theorem Holds.move (hi : Holds s) {p : Point} (ht : (s.point t).isInside = false)
    (hp : p.isInside = false) : Holds { s with point := Function.update s.point t p } := by
  have hu : ∀ u, (s.point u).isInside = false →
      ((Function.update s.point t p) u).isInside = false := by
    intro u h
    by_cases hut : u = t
    · rw [hut, Function.update_self]
      exact hp
    · rw [Function.update_of_ne hut]
      exact h
  cases hi with
  | free hw hn => exact .free hw fun u => hu u (hn u)
  | held v hw hv hn =>
    have hvt : v ≠ t := by
      rintro rfl
      rw [hv] at ht
      exact Bool.noConfusion ht
    refine .held v hw ?_ fun u h => hu u (hn u h)
    exact (Function.update_of_ne hvt ..).trans hv

theorem Holds.step (hi : Holds s) (t : T) : Holds (s.step t) := by
  cases hp : s.point t with
  | outside =>
    rw [step_call hp]
    exact hi.move (by rw [hp]; rfl) rfl
  | locking next =>
    cases next with
    | read =>
      rw [step_read hp]
      exact hi.move (by rw [hp]; rfl) rfl
    | exchange =>
      cases hi with
      | free hw hn =>
        rw [step_acquire hp hw]
        refine .held t rfl (Function.update_self ..) fun u hut => ?_
        show (Function.update s.point t (.inside true) u).isInside = false
        rw [Function.update_of_ne hut]
        exact hn u
      | held v hw hv hn =>
        rw [step_retry hp hw]
        exact (Holds.held v hw hv hn).move (by rw [hp]; rfl) rfl
  | inside acquired =>
    -- only the holder is inside
    rw [step_unlock hp]
    refine .free rfl fun u => ?_
    show (Function.update s.point t .outside u).isInside = false
    by_cases hut : u = t
    · rw [hut, Function.update_self]
      rfl
    · rw [Function.update_of_ne hut]
      cases hi with
      | free hw hn => exact hn u
      | held v hw hv hn =>
        by_cases huv : u = v
        · have htv : t ≠ v := fun h => hut (huv.trans h.symm)
          have := hn t htv
          rw [hp] at this
          exact Bool.noConfusion this
        · exact hn u huv

theorem holds_start (T : Type) : Holds (.start T 0) := .free rfl fun _ => rfl

/-! ## What the word is worth -/

/-- From a free word a pending `Lock` acquires it by at most two steps of its own. -/
theorem able_of_free (hw : s.mutex.interlock = 0) {next : LockPoint}
    (h : s.point t = .locking next) :
    ∃ n s', (system T).exec s (List.replicate n t) = some s' ∧ s'.point t = .inside true := by
  have he : ∀ s : State T, s.point t = .locking .exchange → s.mutex.interlock = 0 →
      (s.step t).point t = .inside true := by
    intro s h hw
    rw [step_acquire h hw]
    exact Function.update_self ..
  cases next with
  | read =>
    have hr : s.step t = { s with point := Function.update s.point t (.locking .exchange) } := by
      rw [step_read h, if_neg (by rw [hw]; decide)]
    refine ⟨2, (s.step t).step t, rfl, he _ ?_ ?_⟩
    · rw [hr]
      exact Function.update_self ..
    · rw [hr]
      exact hw
  | exchange => exact ⟨1, s.step t, rfl, he s h hw⟩

theorem Holds.works (hi : Holds s) : Works s := by
  have hfree : (∀ t, s.point t ≠ .inside true) → s.mutex.interlock = 0 := by
    intro hn
    cases hi with
    | free hw _ => exact hw
    | held t _ ht _ => exact absurd ht (hn t)
  refine ⟨fun t ht u hu => ?_, fun t ht => ?_, hfree, fun hn t next h => able_of_free (hfree hn) h⟩
  · cases hi with
    | free hw hn => exact absurd (ht.symm.trans (hn t)) (by decide)
    | held v hw hv hn =>
      have hv' : ∀ u, (s.point u).isInside → u = v := by
        intro u hu
        by_contra huv
        exact absurd (hu.symm.trans (hn u huv)) (by decide)
      rw [hv' t ht, hv' u hu]
  · cases hi with
    | free hw hn =>
      have := hn t
      rw [ht] at this
      exact Bool.noConfusion this
    | held v hw hv hn =>
      by_cases htv : t = v
      · rw [htv, hv] at ht
        cases ht
      · have := hn t htv
        rw [ht] at this
        exact Bool.noConfusion this

/-- **A mutex works in every state of a run exactly if** its storage held `0`. -/
theorem works_iff (storage : BitVec 32) (as : List T) :
    (system T).Always Works (.start T storage) as ↔ storage = 0 := by
  constructor
  · intro h
    exact h.head.free fun _ => Point.noConfusion
  · rintro rfl
    have hk : (system T).Preserves Holds := by
      intro s t s' hi h
      cases h
      exact hi.step t
    have hk' : (system T).Keeps (fun _ _ => True) Holds := fun s t s' hi _ h => hk s t s' hi h
    exact (hk'.always (holds_start T) (System.Meets.of_true as)).mono fun _ => Holds.works

/-- **A mutex built where a `1` was** is held by nobody and never free. -/
theorem not_works_one : ¬ ∀ storage as, (system Bool).Always Works (.start Bool storage) as := by
  intro h
  have := (h 1 []).head.free fun _ => Point.noConfusion
  exact absurd this (by decide)

end Dpp.Lock.Shared
