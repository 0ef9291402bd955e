import Dpp.Thread.Start
import Dpp.WorkQueue.Life

/-!
# A failed `Start` of a `WorkQueue`

`Start` stores the routine before it knows whether the worker can start, and calls `Stop` when the
kernel fails, which nothing takes back.

* `Unchanged`: nothing a caller or a worker can see has changed, and every later `Start` does what
  it would have done.
* `FailsUnchanged`: the steps of a `Start` that fails change nothing.
* `FailsHarmlessly`: such a `Start` was given the stored routine and has created no thread, and
  finds `m_stopWorker` set if it calls `Stop`.
* **`failsUnchanged_iff_failsHarmlessly`**.
-/

namespace Dpp.WorkQueue.Life

open Lib Thread

variable {C R ι : Type}

/-- What a later `Start` of `m_worker` does, when the thread it creates is `new`. -/
def State.laterStart (s : State C R ι) (new : ℕ) (k : StartOutcome) :
    Thread.Obj C Unit Unit × NtStatus × Option (KThread Unit) :=
  s.worker.obj.start new () (some ()) k

/-- `s'` is `s` for the callers, the workers and every later `Start`. -/
structure Unchanged (s s' : State C R ι) : Prop where
  workerRoutine : s'.workerRoutine = s.workerRoutine
  stopWorker : s'.obj.stopWorker = s.obj.stopWorker
  queue : s'.obj.queue = s.obj.queue
  created : s'.worker.next = s.worker.next
  later : ∀ new k, s'.laterStart new k = s.laterStart new k

variable [DecidableEq C]

/-- A step of a `Start` that fails: its guard block, or that of the `Stop` it calls. -/
def Failing (s : State C R ι) : Action C R ι → Prop
  | .start _ _ k => ¬ ntSuccess (s.laterStart s.worker.next k).2.1
  | .stop t _ => s.call t = .stop
  | _ => False

/-- The steps of a failing `Start` change nothing. -/
def FailsUnchanged (s : State C R ι) (a : Action C R ι) : Prop :=
  Failing s a → ∀ s', step s a = some s' → Unchanged s s'

/-- A `Start` that will fail is given the stored routine and creates no thread, and the `Stop` it
calls finds `m_stopWorker` set. -/
def FailsHarmlessly (s : State C R ι) : Action C R ι → Prop
  | .start _ routine k => s.worker.obj.threadObject = none ∧ k.succeeds ∨
      s.workerRoutine = some routine ∧ (s.worker.obj.threadObject = none → ¬ ntSuccess k.create)
  | .stop t _ => s.call t = .stop → s.obj.stopWorker = true
  | _ => True

/-- A `Start` that fails. -/
def StartFails (s : State C R ι) : Action C R ι → Prop
  | .start _ _ k => s.worker.obj.threadObject = none → ¬ k.succeeds
  | _ => True

section Steps

variable {s s' : State C R ι} {a : Action C R ι} {t : Tid C} {routine : R} {k : StartOutcome}

omit [DecidableEq C] in
/-- `Start` succeeds when `m_threadObject` is null and the kernel does its part. -/
theorem ntSuccess_laterStart_iff (new : ℕ) :
    ntSuccess (s.laterStart new k).2.1 ↔ s.worker.obj.threadObject = none ∧ k.succeeds := by
  unfold State.laterStart StartOutcome.succeeds
  by_cases ho : s.worker.obj.threadObject = none
  · by_cases hc : ntSuccess k.create
    · by_cases hr : ntSuccess k.reference
      · rw [Thread.Obj.start_referenced ho hc hr]
        simp [ho, hc, hr]
      · rw [Thread.Obj.start_not_referenced ho hc hr]
        simp [hr]
    · rw [Thread.Obj.start_not_created ho hc]
      simp [hc]
  · rw [Thread.Obj.start_refused ho]
    simp [ho, Thread.Obj.not_ntSuccess_statusUnsuccessful]

/-- A refused `Start` has stored the routine. -/
theorem unchanged_refused_iff (ho : s.worker.obj.threadObject ≠ none) :
    Unchanged s (s.start t routine k (s.worker.start () (some ()) k)) ↔
      s.workerRoutine = some routine := by
  have hw : s.worker.start () (some ()) k = s.worker := by
    unfold Thread.State.start
    rw [Thread.Obj.start_refused ho]
  rw [hw]
  constructor
  · intro h
    exact h.workerRoutine.symm
  · intro h
    exact ⟨h.symm, rfl, rfl, rfl, fun _ _ => rfl⟩

/-- So has one that creates no thread. -/
theorem unchanged_not_created_iff (ho : s.worker.obj.threadObject = none)
    (hc : ¬ ntSuccess k.create) :
    Unchanged s (s.start t routine k (s.worker.start () (some ()) k)) ↔
      s.workerRoutine = some routine := by
  have hw : s.worker.start () (some ()) k = { s.worker with
      obj := { s.worker.obj with routine := some (), threadContext := some () } } := by
    unfold Thread.State.start
    rw [Thread.Obj.start_not_created ho hc]
  rw [hw]
  constructor
  · intro h
    exact h.workerRoutine.symm
  · intro h
    refine ⟨h.symm, rfl, rfl, rfl, fun new k' => ?_⟩
    -- a later `Start` writes the two members again
    change Thread.Obj.start { s.worker.obj with routine := some (), threadContext := some () }
      new () (some ()) k' = s.worker.obj.start new () (some ()) k'
    unfold Thread.Obj.start
    rw [if_neg (not_not.mpr ho), if_neg (not_not.mpr ho)]

/-- One that creates a thread and fails all the same leaves the thread behind. -/
theorem not_unchanged_created (ho : s.worker.obj.threadObject = none) (hc : ntSuccess k.create) :
    ¬ Unchanged s (s.start t routine k (s.worker.start () (some ()) k)) := by
  intro h
  have hn : (s.worker.start () (some ()) k).next = s.worker.next + 1 := by
    unfold Thread.State.start
    by_cases hr : ntSuccess k.reference
    · rw [Thread.Obj.start_referenced ho hc hr]
      rfl
    · rw [Thread.Obj.start_not_referenced ho hc hr]
      rfl
  have := h.created
  rw [start_worker, hn] at this
  omega

/-- **The guard block of a `Start`.** -/
theorem failsUnchanged_start_iff :
    (¬ (s.worker.obj.threadObject = none ∧ k.succeeds) →
        Unchanged s (s.start t routine k (s.worker.start () (some ()) k))) ↔
      FailsHarmlessly s (.start t routine k) := by
  unfold FailsHarmlessly
  by_cases ho : s.worker.obj.threadObject = none
  · by_cases hc : ntSuccess k.create
    · have hnot : ¬ Unchanged s (s.start t routine k (s.worker.start () (some ()) k)) :=
        not_unchanged_created ho hc
      tauto
    · have hk : ¬ k.succeeds := by simp [StartOutcome.succeeds, hc]
      have hiff : Unchanged s (s.start t routine k (s.worker.start () (some ()) k)) ↔
          s.workerRoutine = some routine := unchanged_not_created_iff ho hc
      tauto
  · have hiff : Unchanged s (s.start t routine k (s.worker.start () (some ()) k)) ↔
        s.workerRoutine = some routine := unchanged_refused_iff ho
    tauto

/-- **The step of a failing `Start` changes nothing exactly if** it is harmless. -/
theorem failsUnchanged_iff (h : step s a = some s') : FailsUnchanged s a ↔ FailsHarmlessly s a := by
  have hstep : ∀ P : State C R ι → Prop, (∀ t, step s a = some t → P t) ↔ P s' := by
    intro P
    constructor
    · exact fun hp => hp s' h
    · intro hp t ht
      rw [h] at ht
      exact Option.some.inj ht ▸ hp
  unfold FailsUnchanged
  rw [hstep]
  cases moves_of_step h with
  | start t routine k hm =>
    rw [← failsUnchanged_start_iff, ← ntSuccess_laterStart_iff s.worker.next]
    rfl
  | refused t wait hm hs =>
    refine iff_of_true (fun _ => ?_) (fun _ => hs)
    cases t
    all_goals exact ⟨rfl, rfl, rfl, rfl, fun _ _ => rfl⟩
  | stop t wait hm hs =>
    refine imp_congr_right fun _ => ?_
    rw [hs]
    refine iff_of_false (fun hu => ?_) Bool.noConfusion
    exact Bool.noConfusion (hs.symm.trans hu.stopWorker.symm)
  | _ => exact iff_of_true (fun hf => hf.elim) trivial

/-- `m_workerRoutine` is written by `Start` only. -/
theorem workerRoutine_step (h : step s a = some s') (hf : StartFails s a)
    (hc : FailsHarmlessly s a) : s'.workerRoutine = s.workerRoutine := by
  cases moves_of_step h with
  | start t routine k hm =>
    rcases hc with ⟨ho, hk⟩ | ⟨hr, -⟩
    · exact absurd hk (hf ho)
    · exact hr.symm
  | refused t | join t | dereference t => cases t <;> rfl
  | _ => rfl

end Steps

/-- **A failed `Start` changes nothing along a run exactly if** each of them is harmless; and while
the `Start`s made fail and are harmless, the workers call the routine they were started with. -/
theorem failsUnchanged_iff_failsHarmlessly (as : List (Action C R ι)) :
    ((system C R ι).Meets FailsUnchanged {} as ↔ (system C R ι).Meets FailsHarmlessly {} as) ∧
      ∀ s bs, (system C R ι).exec {} as = some s →
        (system C R ι).Meets (fun s a => StartFails s a ∧ FailsHarmlessly s a) s bs →
        (system C R ι).Always (fun s' => s'.workerRoutine = s.workerRoutine) s bs := by
  refine ⟨System.Meets.congr fun _ _ _ h => failsUnchanged_iff h, fun s bs _ hm => ?_⟩
  have hk : (system C R ι).Keeps (fun s a => StartFails s a ∧ FailsHarmlessly s a)
      fun s' => s'.workerRoutine = s.workerRoutine :=
    fun _ _ _ hi hc h => (workerRoutine_step h hc.1 hc.2).trans hi
  exact hk.always rfl hm

/-- A second `Start` with the same routine. -/
theorem failsUnchanged_iff_failsHarmlessly_same : ∃ s : State Unit ℕ ℕ,
    (system Unit ℕ ℕ).exec {} [.start (.caller ()) 7 {}] = some s ∧
      (system Unit ℕ ℕ).Always (fun s' => s'.workerRoutine = s.workerRoutine) s
        [.start (.caller ()) 7 {}] := by
  refine ⟨_, rfl, (failsUnchanged_iff_failsHarmlessly [.start (.caller ()) 7 {}]).2 _ _ rfl ?_⟩
  refine .cons rfl ⟨?_, .inr ⟨rfl, ?_⟩⟩ .nil
  · intro h
    cases h
  · intro h
    cases h

/-- **A second `Start` while the worker runs** is refused and has replaced the routine. -/
theorem not_failsUnchanged_second : ¬ ∀ as, (system Unit ℕ ℕ).Meets FailsUnchanged {} as := by
  intro h
  have h2 := ((h [.start (.caller ()) 7 {}, .start (.caller ()) 8 {}]) _ rfl).2 _ rfl
  have hu := h2.1 (by unfold Failing; decide) _ rfl
  exact absurd hu.workerRoutine (by decide)

end Dpp.WorkQueue.Life
