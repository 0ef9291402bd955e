import Dpp.Lib.System
import Dpp.WorkQueue.Queue
import Mathlib.Logic.Function.Basic

/-!
# One run of the worker

One `WorkQueue` from its constructor on, started once, with any number of threads that call
`Enqueue` and `Stop`, and a worker routine that may call them too.

* `State`: the members, the worker, the calls in progress, and what was appended and handled.
* `Action`, `step`, `system`; `Moves`: the steps by cases.
-/

namespace Dpp.WorkQueue.Run

open Lib

variable {C ι : Type}

/-- Who calls the queue: a thread, or `m_workerRoutine` inside the worker. -/
inductive Caller (C : Type)
  | thread (c : C)
  | worker
deriving DecidableEq

/-- A call that has left its guard block: at `m_wakeEvent.Notify()`, before `Stop` waits for the
worker if `wait`, or in that wait. -/
inductive Call
  | idle
  | notify (wait : Bool)
  | join
deriving DecidableEq

/-- `worker` is `none` before `Start`. The history: the items of every `Enqueue` so far, the items
appended while `m_stopWorker` was false, and the items `m_workerRoutine` was called for. -/
structure State (C ι : Type) where
  obj : Obj ι := {}
  worker : Option (WorkerPoint ι) := none
  call : Caller C → Call := fun _ => .idle
  appended : List (List ι) := []
  early : List ι := []
  handled : List ι := []

inductive Action (C ι : Type)
  | start
  | worker
  | handled (status : NtStatus)
  | enqueue (t : Caller C) (items : Items ι)
  | stop (t : Caller C) (wait : Bool)
  | notify (t : Caller C)
  | join (t : Caller C)

/-- A new call, as opposed to the next step of what is in progress. -/
def Action.isCall : Action C ι → Bool
  | start | enqueue .. | stop .. => true
  | _ => false

namespace State

variable (s : State C ι)

/-- In `m_workerRoutine`. -/
def handling : Bool :=
  match s.worker with
  | some p => p.handling
  | none => false

/-- The worker has not been started or has left its loop. -/
def gone : Bool :=
  match s.worker with
  | none | some .left => true
  | _ => false

/-- The items the worker has taken and not yet called `m_workerRoutine` for. -/
def pending : List ι :=
  match s.worker with
  | some p => p.pending
  | none => []

variable [DecidableEq C]

/-- `m_workerRoutine` calls only while it runs. -/
def mayCall (t : Caller C) : Bool :=
  s.call t = .idle &&
    match t with
    | .thread _ => true
    | .worker => s.handling

def setCall (t : Caller C) (c : Call) : State C ι :=
  { s with call := Function.update s.call t c }

/-- The guard block of `Enqueue`. -/
def enqueue (t : Caller C) (items : Items ι) : State C ι :=
  { s.setCall t (.notify false) with
    obj := s.obj.enqueue items
    appended := s.appended ++ [items.toList]
    early := if s.obj.stopWorker then s.early else s.early ++ items.toList }

/-- The guard block of `Stop`. -/
def stop (t : Caller C) (wait : Bool) : State C ι :=
  match s.obj.stop with
  | (_, false) => s
  | (o, true) => { s.setCall t (.notify wait) with obj := o }

/-- `Notify`, the last step of a call that does not wait. -/
def notify (t : Caller C) (wait : Bool) : State C ι :=
  { s.setCall t (if wait then .join else .idle) with obj := s.obj.notify }

end State

/-- The steps of the callers and of the worker. `Stop` in the worker itself does not wait. -/
def step [DecidableEq C] (s : State C ι) : Action C ι → Option (State C ι)
  | .start =>
    match s.worker with
    | none => some { s with worker := some .size }
    | some _ => none
  | .worker =>
    match s.worker with
    | none => none
    | some p =>
      match p.step s.obj with
      | none => none
      | some (o, p) => some { s with obj := o, worker := some p, handled := s.handled ++ p.called }
  | .handled status =>
    match s.worker with
    | none => none
    | some p =>
      match p.handled status with
      | none => none
      | some p => if s.call .worker = .idle then some { s with worker := some p } else none
  | .enqueue t items => if s.mayCall t then some (s.enqueue t items) else none
  | .stop t wait => if s.mayCall t then some (s.stop t wait) else none
  | .notify t =>
    match s.call t with
    | .notify wait => some (s.notify t wait)
    | _ => none
  | .join t =>
    if s.call t = .join ∧ (s.gone ∨ t = .worker) then some (s.setCall t .idle) else none

variable (C ι) in
def system [DecidableEq C] : System (State C ι) (Action C ι) where
  init s := s = {}
  step := step

section Steps

variable [DecidableEq C] {s s' : State C ι} {a : Action C ι}

/-- The steps of a run, with what they find. -/
inductive Moves (s : State C ι) : Action C ι → State C ι → Prop
  | start (hw : s.worker = none) : Moves s .start { s with worker := some .size }
  | worker {p p' : WorkerPoint ι} {o : Obj ι} (hw : s.worker = some p)
      (hp : WorkerPoint.Access s.obj p o p') :
      Moves s .worker
        { s with obj := o, worker := some p', handled := s.handled ++ p'.called }
  | handled {item : ι} {rest : List ι} (status : NtStatus)
      (hw : s.worker = some (.handle item rest)) :
      Moves s (.handled status)
        { s with worker := some (if status ≠ statusSuccess then .fail rest else .drain rest) }
  | enqueue (t : Caller C) (items : Items ι) : Moves s (.enqueue t items) (s.enqueue t items)
  | refused (t : Caller C) (wait : Bool) (hs : s.obj.stopWorker = true) : Moves s (.stop t wait) s
  | stop (t : Caller C) (wait : Bool) (hs : s.obj.stopWorker = false) :
      Moves s (.stop t wait)
        { s.setCall t (.notify wait) with obj := { s.obj with stopWorker := true } }
  | notify (t : Caller C) (wait : Bool) (hc : s.call t = .notify wait) :
      Moves s (.notify t) (s.notify t wait)
  | join (t : Caller C) (hc : s.call t = .join) : Moves s (.join t) (s.setCall t .idle)

theorem moves_of_step (h : step s a = some s') : Moves s a s' := by
  cases a with
  | start =>
    simp only [step] at h
    split at h
    · cases h; exact .start ‹_›
    · cases h
  | worker =>
    simp only [step] at h
    split at h
    · cases h
    · split at h
      · cases h
      · cases h; exact .worker ‹_› (WorkerPoint.access_of_step ‹_›)
  | handled status =>
    simp only [step] at h
    split at h
    · cases h
    · rename_i p hw
      split at h
      · cases h
      · split_ifs at h
        cases h
        obtain ⟨item, rest, rfl, rfl⟩ := WorkerPoint.handled_cases ‹_›
        exact .handled status hw
  | enqueue t items =>
    simp only [step, Option.ite_none_right_eq_some, Option.some.injEq] at h
    obtain ⟨-, rfl⟩ := h
    exact .enqueue t items
  | stop t wait =>
    simp only [step, Option.ite_none_right_eq_some, Option.some.injEq] at h
    obtain ⟨-, rfl⟩ := h
    rcases s.obj.stop_cases with ⟨hs, h⟩ | ⟨hs, h⟩
    · rw [State.stop, h]; exact .refused t wait hs
    · rw [State.stop, h]; exact .stop t wait hs
  | notify t =>
    simp only [step] at h
    split at h
    · cases h; exact .notify t _ ‹_›
    · cases h
  | join t =>
    simp only [step, Option.ite_none_right_eq_some, Option.some.injEq] at h
    obtain ⟨⟨hc, -⟩, rfl⟩ := h
    exact .join t hc

/-- `m_stopWorker` is never reset. -/
theorem preserves_stopWorker :
    (system C ι).Preserves fun s => s.obj.stopWorker = true := by
  intro s a s' hs h
  cases moves_of_step h with
  | worker hw hp => exact hp.stopWorker hs
  | enqueue t items =>
    rw [State.enqueue, Obj.enqueue_eq]
    exact hs
  | stop t wait _ => rfl
  | _ => exact hs

theorem stopWorker_of_stop {t : Caller C} {wait : Bool} (h : step s (.stop t wait) = some s') :
    s'.obj.stopWorker = true := by
  simp only [step, Option.ite_none_right_eq_some, Option.some.injEq] at h
  obtain ⟨-, rfl⟩ := h
  rcases s.obj.stop_cases with ⟨hs, h⟩ | ⟨-, h⟩
  · rw [State.stop, h]
    exact hs
  · rw [State.stop, h]

end Steps

end Dpp.WorkQueue.Run
