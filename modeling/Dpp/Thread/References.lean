import Dpp.Lib.Custody
import Dpp.Thread.Start
import Dpp.Thread.Steps

/-!
# The references to the thread objects

A successful `ObReferenceObjectByHandle` puts a reference into `m_threadObject`, the guard block of
a wait call moves it into `localThreadObject`, and `ObDereferenceObject` gives it back.

* `event`: what a step does with references, as an operation on a slot and its holders.
* `Custodian`: `m_threadObject` is the slot and the wait calls are the holders;
  **`records_custodian`**: every step is an operation of the library or none.
* `Balanced`: the references that were taken and not given back are in `m_threadObject` or with one
  waiter each.
* **`balanced_of_exec`**: so it is after every run.
-/

namespace Dpp.Thread

open Lib Lib.Custody

variable {C R A : Type}

/-- The thread object a wait call has taken and not dereferenced. -/
def Frame.localThreadObject : Frame → Option ℕ
  | idle => none
  | wait _ k | dereference _ k => some k

theorem Frame.localThreadObject_eq_none {f : Frame} : f.localThreadObject = none ↔ f = .idle := by
  cases f <;> simp [localThreadObject]

/-- The reference a step takes by `ObReferenceObjectByHandle`, moves to a waiter, or gives back by
`ObDereferenceObject`. -/
def event [DecidableEq C] (s : State C R A) : Action C R A → List (Op (Tid C))
  | .start _ _ _ k =>
    if s.obj.threadObject = none ∧ ntSuccess k.create ∧ ntSuccess k.reference then
      [.acquire s.next]
    else []
  | .wait t _ =>
    match s.obj.takeThreadObject t with
    | (_, .waits k) => [.take t k]
    | (_, .returns _) => []
  | .dereference t =>
    match s.frame t with
    | .dereference _ k => [.release t k]
    | _ => []
  | .waitReturns .. | .thread .. => []

/-- The account of the references after the events `es`. -/
structure Balanced (es : List (Op (Tid C))) (s : State C R A) : Prop where
  finite : {t | s.frame t ≠ .idle}.Finite
  balance : ((acquired es).length : ℤ) - (released es).length =
    (if s.obj.threadObject = none then 0 else 1) + {t | s.frame t ≠ .idle}.ncard
  /-- No reference is counted twice, -/
  acquired_once : (acquired es).Nodup
  /-- none is handed to two waiters, -/
  taken_once : (taken es).Nodup
  /-- and none is given back twice. -/
  released_once : (released es).Nodup
  /-- A waiter in `KeWaitForSingleObject` or at `ObDereferenceObject` holds the reference, -/
  holds : ∀ t k, (s.frame t).localThreadObject = some k → Holds es t k
  /-- and so did each that has called `ObDereferenceObject`, before it. -/
  released_held : ∀ xs t k ys, es = xs ++ .release t k :: ys → Holds xs t k

/-- `m_threadObject` is the slot and the waiters are the holders. -/
structure Custodian (c : Custody (Tid C)) (s : State C R A) : Prop where
  next : c.next ≤ s.next
  slot : c.slot = s.obj.threadObject
  held : c.held = fun t => (s.frame t).localThreadObject

section Steps

variable {s s' : State C R A} {c : Custody (Tid C)} {t : Tid C}

theorem Custodian.held_eq (hc : Custodian c s) (t : Tid C) :
    c.held t = (s.frame t).localThreadObject := congrFun hc.held t

/-- A step that leaves the references alone. -/
theorem Custodian.quiet (hc : Custodian c s) (hn : s.next ≤ s'.next)
    (ho : s'.obj.threadObject = s.obj.threadObject)
    (hf : ∀ t, (s'.frame t).localThreadObject = (s.frame t).localThreadObject) :
    Custodian c s' :=
  ⟨hc.next.trans hn, hc.slot.trans ho.symm, hc.held.trans (funext fun t => (hf t).symm)⟩

variable [DecidableEq C]

/-- A frame of `t` that has `x` in `localThreadObject`. -/
theorem localThreadObject_update (s : State C R A) (t : Tid C) (f : Frame) :
    (fun u => (Function.update s.frame t f u).localThreadObject) =
      Function.update (fun u => (s.frame u).localThreadObject) t f.localThreadObject := by
  funext u
  by_cases hu : u = t
  · subst hu
    rw [Function.update_self, Function.update_self]
  · rw [Function.update_of_ne hu, Function.update_of_ne hu]

theorem localThreadObject_idle {f : Frame} (h : (s.frame t).localThreadObject = f.localThreadObject)
    (u : Tid C) :
    (Function.update s.frame t f u).localThreadObject = (s.frame u).localThreadObject := by
  have := congrFun (localThreadObject_update s t f) u
  rw [← h, Function.update_eq_self] at this
  exact this

/-- `Start` takes a reference when both kernel calls succeed. -/
theorem Custodian.start (hc : Custodian c s) (routine : R) (args : Option A) (k : StartOutcome) :
    ∃ c', (Custody.system (Tid C)).exec c (event s (.start t routine args k)) = some c' ∧
      Custodian c' (s.start routine args k) := by
  by_cases ho : s.obj.threadObject = none
  · by_cases hcr : ntSuccess k.create
    · by_cases hr : ntSuccess k.reference
      · have he : event s (.start t routine args k) = [.acquire s.next] :=
          if_pos ⟨ho, hcr, hr⟩
        have hs : (Custody.system (Tid C)).step c (.acquire s.next) =
            some { c with next := s.next + 1, slot := some s.next } :=
          if_pos ⟨hc.slot.trans ho, hc.next⟩
        refine ⟨{ c with next := s.next + 1, slot := some s.next }, ?_, ?_⟩
        · rw [he, System.exec_cons, hs]
          rfl
        · unfold State.start
          rw [Obj.start_referenced ho hcr hr]
          exact ⟨le_rfl, rfl, hc.held⟩
      · have he : event s (.start t routine args k) = [] := if_neg fun h => hr h.2.2
        refine ⟨c, by rw [he, System.exec_nil], ?_⟩
        unfold State.start
        rw [Obj.start_not_referenced ho hcr hr]
        exact hc.quiet (Nat.le_succ _) rfl fun _ => rfl
    · have he : event s (.start t routine args k) = [] := if_neg fun h => hcr h.2.1
      refine ⟨c, by rw [he, System.exec_nil], ?_⟩
      unfold State.start
      rw [Obj.start_not_created ho hcr]
      exact hc.quiet le_rfl rfl fun _ => rfl
  · have he : event s (.start t routine args k) = [] := if_neg fun h => ho h.1
    refine ⟨c, by rw [he, System.exec_nil], ?_⟩
    unfold State.start
    rw [Obj.start_refused ho]
    exact hc

/-- The guard block of a wait call moves the reference it finds. -/
theorem Custodian.wait (hc : Custodian c s) (ht : s.frame t = .idle) (call : WaitCall) :
    ∃ c', (Custody.system (Tid C)).exec c (event s (.wait t call)) = some c' ∧
      Custodian c' (s.wait t call) := by
  have hi : c.held t = none := by
    rw [hc.held_eq, ht]
    rfl
  rcases takeThreadObject_cases s.obj t with ⟨-, h⟩ | ⟨k, -, hk, h⟩
  · have he : event s (.wait t call) = [] := by simp only [event, h]
    unfold State.wait
    rw [h]
    refine ⟨c, by rw [he, System.exec_nil],
      hc.quiet (finish_next ..).ge (by rw [finish_obj]) fun u => ?_⟩
    rw [finish_frame]
    exact localThreadObject_idle (by rw [ht]) u
  · have he : event s (.wait t call) = [.take t k] := by simp only [event, h]
    unfold State.wait
    rw [h]
    have hs : (Custody.system (Tid C)).step c (.take t k) =
        some { c with slot := none, held := Function.update c.held t (some k) } :=
      if_pos ⟨hc.slot.trans hk, hi⟩
    refine ⟨{ c with slot := none, held := Function.update c.held t (some k) }, ?_,
      hc.next, rfl, ?_⟩
    · rw [he, System.exec_cons, hs]
      rfl
    · exact hc.held ▸ (localThreadObject_update s t (.wait call k)).symm

/-- `ObDereferenceObject` gives the waiter's reference back. -/
theorem Custodian.dereference (hc : Custodian c s) {call : WaitCall} {k : ℕ}
    (ht : s.frame t = .dereference call k) (f : KThread A → KThread A) :
    ∃ c', (Custody.system (Tid C)).exec c [.release t k] = some c' ∧
      Custodian c' ((s.modify k f).finish t call) := by
  have hi : c.held t = some k := by
    rw [hc.held_eq, ht]
    rfl
  have hs : (Custody.system (Tid C)).step c (.release t k) =
      some { c with held := Function.update c.held t none } := if_pos hi
  refine ⟨{ c with held := Function.update c.held t none }, ?_, ?_, ?_, ?_⟩
  · rw [System.exec_cons, hs]
    rfl
  · rw [finish_next]
    exact hc.next
  · rw [finish_obj]
    exact hc.slot
  · rw [finish_frame]
    exact hc.held ▸ (localThreadObject_update s t .idle).symm

/-- **Every step of the threads is an operation on the slot and its holders, or none.** -/
theorem records_custodian : (system C R A).Records event fun es s =>
    ∃ c, (Custody.system (Tid C)).exec {} es = some c ∧ Custodian c s := by
  rintro es s a s' ⟨c, he, hc⟩ h
  suffices hs : ∃ c', (Custody.system (Tid C)).exec c (event s a) = some c' ∧ Custodian c' s' by
    obtain ⟨c', hs, hc'⟩ := hs
    exact ⟨c', by rw [System.exec_append, he]; exact hs, hc'⟩
  cases a with
  | start t routine args k =>
    obtain ⟨-, h⟩ := Option.ite_none_right_eq_some.mp h
    cases h
    exact hc.start routine args k
  | wait t call =>
    obtain ⟨hm, h⟩ := Option.ite_none_right_eq_some.mp h
    cases h
    exact hc.wait (mayWait_alive hm).1 call
  | waitReturns t status =>
    simp only [system, step] at h
    split at h
    · rename_i call k hf
      obtain ⟨-, h⟩ := Option.ite_none_right_eq_some.mp h
      cases h
      exact ⟨c, rfl, hc.quiet le_rfl rfl fun u => localThreadObject_idle (by rw [hf]; rfl) u⟩
    · cases h
  | dereference t =>
    simp only [system, step] at h
    split at h
    · rename_i call k hf
      cases h
      simp only [event, hf]
      exact hc.dereference hf _
    · cases h
  | thread k last =>
    refine ⟨c, rfl, ?_⟩
    have hf := fades_interceptorThreadRoutine h
    refine hc.quiet hf.next.ge ?_ fun u => by rw [(interceptorThreadRoutine_frame h).1]
    cases intercepts_of_step h
    all_goals rfl

end Steps

/-- The account of the library, in the words of the object. -/
theorem Custodian.balanced {es : List (Op (Tid C))} {s : State C R A} {c : Custody (Tid C)}
    (hc : Custodian c s) (h : Settled es c) : Balanced es s := by
  have hw : {t | c.held t ≠ none} = {t | s.frame t ≠ .idle} := by
    ext t
    change c.held t ≠ none ↔ s.frame t ≠ .idle
    rw [hc.held_eq, ne_eq, Frame.localThreadObject_eq_none]
  have hb := h.balance
  rw [hw, hc.slot] at hb
  refine ⟨hw ▸ h.finite, ?_, h.acquired_once, h.taken_once, h.released_once, ?_, h.released_held⟩
  · rw [hb]
    split_ifs <;> push_cast <;> omega
  · intro t k ht
    exact h.holds t k ((hc.held_eq t).trans ht)

variable [DecidableEq C]

/-- **The thread references are balanced** after every run. -/
theorem balanced_of_exec {as : List (Action C R A)} {s : State C R A}
    (h : (system C R A).exec {} as = some s) : Balanced ((system C R A).events event {} as) s := by
  have h0 : ∃ c, (Custody.system (Tid C)).exec {} [] = some c ∧
      Custodian c ({} : State C R A) := ⟨{}, rfl, le_rfl, rfl, rfl⟩
  obtain ⟨c, he, hc⟩ := records_custodian.exec h0 h
  exact hc.balanced (settled he)

/-- A wait call times out while the object is started again and a second thread waits for it. -/
theorem balanced_of_exec_restart : ∃ s,
    (system Bool ℕ Unit).exec {}
        [.start (.caller true) 7 none {}, .wait (.caller true) (.waitForTermination (-1)),
          .start (.caller false) 8 none {}, .waitReturns (.caller true) statusTimeout,
          .wait (.caller false) .waitForTerminationIndefinitely, .dereference (.caller true)] =
      some s ∧
    Balanced
      ((system Bool ℕ Unit).events event {}
        [.start (.caller true) 7 none {}, .wait (.caller true) (.waitForTermination (-1)),
          .start (.caller false) 8 none {}, .waitReturns (.caller true) statusTimeout,
          .wait (.caller false) .waitForTerminationIndefinitely, .dereference (.caller true)])
      s :=
  ⟨_, rfl, balanced_of_exec rfl⟩

end Dpp.Thread
