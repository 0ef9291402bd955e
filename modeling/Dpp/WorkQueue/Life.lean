import Dpp.Thread.Steps
import Dpp.WorkQueue.Queue

/-!
# The life of a `WorkQueue`

Any number of threads call `Start`, `Stop` and `Enqueue` of one `WorkQueue`, whose `m_worker` is a
`Thread`: its created threads run `WorkerInterceptorRoutine`, and the worker routine may call the
queue too. `~WorkQueue` is a `Stop(true)`.

* `State`, `Action`, `step`, `system`: the queue, its `m_worker` and the calls in progress.
* `Moves`: the steps by cases; **`thread_step`**: on `m_worker` each of them is a step of a
  `Thread`.
* `Sound`: at most one call of `Stop` is ever past its guard block; `sound_inductive`.
-/

namespace Dpp.WorkQueue.Life

open Lib Thread

variable {C R ι : Type}

/-- A call that has left its guard block: `Start` about to call `Stop()` after a failure; at
`m_wakeEvent.Notify()`, before `Stop` waits for the worker if `wait`; before the guard block of
`m_worker.WaitForTerminationIndefinitely()`, or behind it. -/
inductive Call
  | idle
  | stop
  | notify (wait : Bool)
  | join
  | joining
deriving DecidableEq

/-- A `Stop(true)` past its guard block. -/
def Call.stopping : Call → Bool
  | notify true | join | joining => true
  | _ => false

/-- What is remembered of a created worker: whether its `Start` returned success, how many calls
of `Stop` there had been before, and whether `m_workerRoutine` has failed in it. -/
structure Worker where
  started : Bool := false
  stops : ℕ := 0
  failed : Bool := false

/-- `point k` is the place of the `k`-th created thread in `WorkerInterceptorRoutine` while it is
there. The history: the number of calls of `Stop` so far, the number of threads created when the
last `Stop(true)` of a thread that is no worker returned, and the workers. -/
structure State (C R ι : Type) where
  obj : Obj ι := {}
  workerRoutine : Option R := none
  worker : Thread.State C Unit Unit := {}
  point : ℕ → WorkerPoint ι := fun _ => .size
  call : Tid C → Call := fun _ => .idle
  stops : ℕ := 0
  stopped : ℕ := 0
  workers : ℕ → Worker := fun _ => {}

inductive Action (C R ι : Type)
  | start (t : Tid C) (routine : R) (k : StartOutcome)
  | stop (t : Tid C) (wait : Bool)
  | enqueue (t : Tid C) (items : Items ι)
  | notify (t : Tid C)
  | join (t : Tid C)
  | waitReturns (t : Tid C) (status : NtStatus)
  | dereference (t : Tid C)
  | thread (k : ℕ)
  | worker (k : ℕ)
  | handled (k : ℕ) (status : NtStatus)

namespace State

variable [DecidableEq C] (s : State C R ι)

/-- Thread `t` may call the queue; a worker does so in `m_workerRoutine`. -/
def mayCall (t : Tid C) : Bool :=
  s.call t = .idle && s.worker.mayCall t &&
    match t with
    | .caller _ => true
    | .created k => (s.point k).handling

/-- A failed `Start` calls `Stop()`. -/
def mayStop (t : Tid C) (wait : Bool) : Bool := s.mayCall t || (s.call t = .stop && wait)

def setCall (t : Tid C) (c : Call) : State C R ι :=
  { s with call := Function.update s.call t c }

def setPoint (k : ℕ) (p : WorkerPoint ι) : State C R ι :=
  { s with point := Function.update s.point k p }

/-- `Stop(wait)` returns in `t`. -/
def returns (t : Tid C) (wait : Bool) : State C R ι :=
  { s.setCall t .idle with
    stopped :=
      match t with
      | .caller _ => if wait then s.worker.next else s.stopped
      | .created _ => s.stopped }

/-- The guard block of `Start`, after which `m_worker` is `worker`. -/
def start (t : Tid C) (routine : R) (k : StartOutcome) (worker : Thread.State C Unit Unit) :
    State C R ι :=
  let (_, status, _) := s.worker.obj.start s.worker.next () (some ()) k
  { s.setCall t (if !ntSuccess status && status ≠ statusUnsuccessful then .stop else .idle) with
    workerRoutine := some routine
    worker
    workers := Function.update s.workers s.worker.next
      { started := ntSuccess status, stops := s.stops } }

/-- The guard block of `Stop`. -/
def stop (t : Tid C) (wait : Bool) : State C R ι :=
  let s := { s with stops := s.stops + 1 }
  match s.obj.stop with
  | (_, false) => s.returns t wait
  | (o, true) => { s.setCall t (.notify wait) with obj := o }

end State

/-- The steps of the callers and of the workers. -/
def step [DecidableEq C] (s : State C R ι) : Action C R ι → Option (State C R ι)
  | .start t routine k =>
    if s.mayCall t then
      (Thread.step s.worker (.start t () (some ()) k)).map fun w => s.start t routine k w
    else none
  | .stop t wait => if s.mayStop t wait then some (s.stop t wait) else none
  | .enqueue t items =>
    if s.mayCall t then some { s.setCall t (.notify false) with obj := s.obj.enqueue items }
    else none
  | .notify t =>
    match s.call t with
    | .notify wait =>
      some { s.setCall t (if wait then .join else .idle) with obj := s.obj.notify }
    | _ => none
  | .join t =>
    if s.call t = .join then
      (Thread.step s.worker (.wait t .waitForTerminationIndefinitely)).map fun w =>
        if w.frame t = .idle then { s with worker := w }.returns t true
        else { s.setCall t .joining with worker := w }
    else none
  | .waitReturns t status =>
    if s.call t = .joining then
      (Thread.step s.worker (.waitReturns t status)).map fun w => { s with worker := w }
    else none
  | .dereference t =>
    if s.call t = .joining then
      (Thread.step s.worker (.dereference t)).map fun w => { s with worker := w }.returns t true
    else none
  | .thread k =>
    -- the routine of the thread is `WorkerInterceptorRoutine`
    if (s.worker.thread k).point = .routine && !(s.point k).finished then none
    else (Thread.step s.worker (.thread k false)).map fun w => { s with worker := w }
  | .worker k =>
    if (s.worker.thread k).point = .routine then
      ((s.point k).step s.obj).map fun (o, p) => { s.setPoint k p with obj := o }
    else none
  | .handled k status =>
    if (s.worker.thread k).point = .routine ∧ s.call (.created k) = .idle then
      ((s.point k).handled status).map fun p =>
        { s.setPoint k p with
          workers := Function.update s.workers k { s.workers k with
            failed := (s.workers k).failed || status ≠ statusSuccess } }
    else none

variable (C R ι) in
def system [DecidableEq C] : System (State C R ι) (Action C R ι) where
  init s := s = {}
  step := step

section Steps

variable [DecidableEq C] {s s' : State C R ι} {a : Action C R ι}

/-- The steps of the queue, with what they find. -/
inductive Moves (s : State C R ι) : Action C R ι → State C R ι → Prop
  | start (t : Tid C) (routine : R) (k : StartOutcome) (hm : s.mayCall t) :
      Moves s (.start t routine k)
        (s.start t routine k (s.worker.start () (some ()) k))
  | refused (t : Tid C) (wait : Bool) (hm : s.mayStop t wait) (hs : s.obj.stopWorker = true) :
      Moves s (.stop t wait) ({ s with stops := s.stops + 1 }.returns t wait)
  | stop (t : Tid C) (wait : Bool) (hm : s.mayStop t wait) (hs : s.obj.stopWorker = false) :
      Moves s (.stop t wait) { s.setCall t (.notify wait) with
        stops := s.stops + 1
        obj := { s.obj with stopWorker := true } }
  | enqueue (t : Tid C) (items : Items ι) (hm : s.mayCall t) :
      Moves s (.enqueue t items)
        { s.setCall t (.notify false) with obj := s.obj.enqueue items }
  | notify (t : Tid C) (wait : Bool) (hc : s.call t = .notify wait) :
      Moves s (.notify t)
        { s.setCall t (if wait then .join else .idle) with obj := s.obj.notify }
  | join (t : Tid C) (w : Thread.State C Unit Unit) (hc : s.call t = .join)
      (hr : s.worker.obj.threadId = some t ∨ s.worker.obj.threadObject = none)
      (hw : Returns s.worker w t .waitForTerminationIndefinitely) :
      Moves s (.join t) ({ s with worker := w }.returns t true)
  | joining (t : Tid C) (w : Thread.State C Unit Unit) (k : ℕ) (hc : s.call t = .join)
      (hw : Takes s.worker w t .waitForTerminationIndefinitely k) :
      Moves s (.join t) { s.setCall t .joining with worker := w }
  | waitReturns (t : Tid C) (status : NtStatus) (call : WaitCall) (k : ℕ)
      (hc : s.call t = .joining) (hf : s.worker.frame t = .wait call k)
      (hw : waitEnds call (s.worker.thread k).point status) :
      Moves s (.waitReturns t status) { s with worker := { s.worker with
        frame := Function.update s.worker.frame t (.dereference call k) } }
  | dereference (t : Tid C) (w : Thread.State C Unit Unit) (call : WaitCall) (k : ℕ)
      (hc : s.call t = .joining) (hf : s.worker.frame t = .dereference call k)
      (hw : Returns s.worker w t call) :
      Moves s (.dereference t) ({ s with worker := w }.returns t true)
  | thread (k : ℕ) (w : Thread.State C Unit Unit)
      (hl : (s.worker.thread k).point = .routine → (s.point k).finished)
      (hw : s.worker.interceptorThreadRoutine k false = some w) :
      Moves s (.thread k) { s with worker := w }
  | worker {p : WorkerPoint ι} {o : Obj ι} (k : ℕ) (hr : (s.worker.thread k).point = .routine)
      (hp : WorkerPoint.Access s.obj (s.point k) o p) :
      Moves s (.worker k) { s.setPoint k p with obj := o }
  | handled {item : ι} {rest : List ι} (k : ℕ) (status : NtStatus)
      (hr : (s.worker.thread k).point = .routine) (hc : s.call (.created k) = .idle)
      (hp : s.point k = .handle item rest) :
      Moves s (.handled k status)
        { s.setPoint k (if status ≠ statusSuccess then .fail rest else .drain rest) with
          workers := Function.update s.workers k { s.workers k with
            failed := (s.workers k).failed || status ≠ statusSuccess } }

theorem moves_of_step (h : step s a = some s') : Moves s a s' := by
  cases a with
  | start t routine k =>
    simp only [step, Thread.step, Option.ite_none_right_eq_some, Option.map_eq_some_iff] at h
    obtain ⟨hm, w, ⟨-, hw⟩, rfl⟩ := h
    cases hw
    exact .start t routine k hm
  | stop t wait =>
    simp only [step, Option.ite_none_right_eq_some, Option.some.injEq] at h
    obtain ⟨hm, rfl⟩ := h
    rcases s.obj.stop_cases with ⟨hs, h⟩ | ⟨hs, h⟩
    · rw [State.stop, h]; exact .refused t wait hm hs
    · rw [State.stop, h]; exact .stop t wait hm hs
  | enqueue t items =>
    simp only [step, Option.ite_none_right_eq_some, Option.some.injEq] at h
    obtain ⟨hm, rfl⟩ := h
    exact .enqueue t items hm
  | notify t =>
    simp only [step] at h
    split at h
    · cases h; exact .notify t _ ‹_›
    · cases h
  | join t =>
    simp only [step, Thread.step, Option.ite_none_right_eq_some, Option.map_eq_some_iff] at h
    obtain ⟨hc, w, ⟨-, hw⟩, rfl⟩ := h
    cases hw
    rcases wait_cases s.worker t .waitForTerminationIndefinitely with ⟨hr, hw⟩ | ⟨k, hw⟩
    · have hf : (s.worker.wait t .waitForTerminationIndefinitely).frame t = .idle := by
        rw [hw.frame, Function.update_self]
      rw [if_pos hf]
      exact .join t _ hc hr hw
    · have hf : (s.worker.wait t .waitForTerminationIndefinitely).frame t ≠ .idle := by
        simp [hw.frame]
      rw [if_neg hf]
      exact .joining t _ k hc hw
  | waitReturns t status =>
    simp only [step, Thread.step, Option.ite_none_right_eq_some, Option.map_eq_some_iff] at h
    obtain ⟨hc, w, hw, rfl⟩ := h
    split at hw
    · simp only [Option.ite_none_right_eq_some, Option.some.injEq] at hw
      obtain ⟨hw, rfl⟩ := hw
      exact .waitReturns t status _ _ hc ‹_› hw
    · cases hw
  | dereference t =>
    simp only [step, Thread.step, Option.ite_none_right_eq_some, Option.map_eq_some_iff] at h
    obtain ⟨hc, w, hw, rfl⟩ := h
    split at hw
    · cases hw
      exact .dereference t _ _ _ hc ‹_› (returns_dereference ..)
    · cases hw
  | thread k =>
    simp only [step] at h
    split_ifs at h with hl
    simp only [Thread.step, Option.map_eq_some_iff] at h
    obtain ⟨w, hw, rfl⟩ := h
    exact .thread k w (fun hr => by simpa [hr] using hl) hw
  | worker k =>
    simp only [step, Option.ite_none_right_eq_some, Option.map_eq_some_iff] at h
    obtain ⟨hr, ⟨o, p⟩, hp, rfl⟩ := h
    exact .worker k hr (WorkerPoint.access_of_step hp)
  | handled k status =>
    simp only [step, Option.ite_none_right_eq_some, Option.map_eq_some_iff] at h
    obtain ⟨⟨hr, hc⟩, p, hp, rfl⟩ := h
    obtain ⟨item, rest, hi, rfl⟩ := WorkerPoint.handled_cases hp
    exact .handled k status hr hc hi

@[simp] theorem start_worker (s : State C R ι) (t : Tid C) (routine : R) (k : StartOutcome)
    (w : Thread.State C Unit Unit) : (s.start t routine k w).worker = w := rfl

@[simp] theorem returns_worker (s : State C R ι) (t : Tid C) (wait : Bool) :
    (s.returns t wait).worker = s.worker := by
  cases t <;> rfl

@[simp] theorem returns_obj (s : State C R ι) (t : Tid C) (wait : Bool) :
    (s.returns t wait).obj = s.obj := by
  cases t <;> rfl

@[simp] theorem returns_point (s : State C R ι) (t : Tid C) (wait : Bool) :
    (s.returns t wait).point = s.point := by
  cases t <;> rfl

theorem returns_call (s : State C R ι) (t : Tid C) (wait : Bool) :
    (s.returns t wait).call = Function.update s.call t .idle := by
  cases t <;> rfl

theorem call_of_mayCall {t : Tid C} (h : s.mayCall t) : s.call t = .idle := by
  simp only [State.mayCall, Bool.and_eq_true, decide_eq_true_eq] at h
  exact h.1.1

theorem call_of_mayStop {t : Tid C} {wait : Bool} (h : s.mayStop t wait) :
    s.call t = .idle ∨ s.call t = .stop := by
  simp only [State.mayStop, Bool.or_eq_true, Bool.and_eq_true, decide_eq_true_eq] at h
  exact h.imp call_of_mayCall And.left

theorem ne_joining_of_mayStop {t : Tid C} {wait : Bool} (h : s.mayStop t wait) :
    s.call t ≠ .joining := by
  rcases call_of_mayStop h with h | h
  · rw [h]; nofun
  · rw [h]; nofun

/-- **On `m_worker` a step of the queue is a step of a `Thread`, or none.** -/
theorem thread_step (h : step s a = some s') :
    s'.worker = s.worker ∨ ∃ b, Thread.step s.worker b = some s'.worker := by
  cases a with
  | start t routine k =>
    simp only [step, Option.ite_none_right_eq_some, Option.map_eq_some_iff] at h
    obtain ⟨-, w, hw, rfl⟩ := h
    exact .inr ⟨_, hw⟩
  | join t =>
    simp only [step, Option.ite_none_right_eq_some, Option.map_eq_some_iff] at h
    obtain ⟨-, w, hw, rfl⟩ := h
    right
    split_ifs
    · exact ⟨_, by rw [returns_worker]; exact hw⟩
    · exact ⟨_, hw⟩
  | waitReturns t status =>
    simp only [step, Option.ite_none_right_eq_some, Option.map_eq_some_iff] at h
    obtain ⟨-, w, hw, rfl⟩ := h
    exact .inr ⟨_, hw⟩
  | dereference t =>
    simp only [step, Option.ite_none_right_eq_some, Option.map_eq_some_iff] at h
    obtain ⟨-, w, hw, rfl⟩ := h
    exact .inr ⟨_, by rw [returns_worker]; exact hw⟩
  | thread k =>
    simp only [step] at h
    split_ifs at h
    obtain ⟨w, hw, rfl⟩ := Option.map_eq_some_iff.mp h
    exact .inr ⟨_, hw⟩
  | stop t wait =>
    left
    cases moves_of_step h with
    | refused t wait hm hs => rw [returns_worker]
    | stop t wait hm hs => rfl
  | _ =>
    left
    cases moves_of_step h
    rfl

/-- `m_stopWorker` is never reset. -/
theorem Moves.stopWorker (h : Moves s a s') (hs : s.obj.stopWorker = true) :
    s'.obj.stopWorker = true := by
  cases h with
  | stop t wait hm hs => rfl
  | enqueue t items hm =>
    rw [Obj.enqueue_eq]
    exact hs
  | worker k hr hp => exact hp.stopWorker hs
  | refused | join | dereference => rw [returns_obj]; exact hs
  | _ => exact hs

/-- What a step does to a call. -/
theorem Moves.call (h : Moves s a s') (u : Tid C) :
    s'.call u = s.call u ∨
      (s.call u ≠ .joining ∧ (s'.call u).stopping = false) ∨
      (s.call u = .joining ∧ s'.call u = .idle) ∨
      (s.call u ≠ .joining ∧ s.obj.stopWorker = false ∧ ∃ wait, a = .stop u wait ∧
        s'.call u = .notify wait) ∨
      (s.call u = .notify true ∧ s'.call u = .join) ∨
      (s.call u = .join ∧ s'.call u = .joining) := by
  have hu : ∀ {t c}, s'.call = Function.update s.call t c →
      s'.call u = s.call u ∨ u = t ∧ s'.call u = c := by
    intro t c h
    rcases update_cases h (t := u) rfl with ⟨hut, hc⟩ | ⟨-, hc⟩
    · exact .inr ⟨hut, hc⟩
    · exact .inl hc.symm
  cases h with
  | start t routine k hm =>
    refine (hu rfl).imp_right fun ⟨hut, hc⟩ => .inl ⟨?_, ?_⟩
    · rw [hut, call_of_mayCall hm]
      nofun
    · rw [hc]
      split_ifs <;> rfl
  | refused t wait hm hs =>
    refine (hu (returns_call ..)).imp_right fun ⟨hut, hc⟩ => .inl ⟨?_, by rw [hc]; rfl⟩
    rw [hut]
    exact ne_joining_of_mayStop hm
  | stop t wait hm hs =>
    refine (hu rfl).imp_right fun ⟨hut, hc⟩ => ?_
    subst hut
    exact .inr (.inr (.inl ⟨ne_joining_of_mayStop hm, hs, wait, rfl, hc⟩))
  | enqueue t items hm =>
    refine (hu rfl).imp_right fun ⟨hut, hc⟩ => .inl ⟨?_, by rw [hc]; rfl⟩
    rw [hut, call_of_mayCall hm]
    nofun
  | notify t wait hc' =>
    refine (hu rfl).imp_right fun ⟨hut, hc⟩ => ?_
    subst hut
    cases wait with
    | false => exact .inl ⟨by rw [hc']; nofun, by rw [hc]; rfl⟩
    | true => exact .inr (.inr (.inr (.inl ⟨hc', hc⟩)))
  | join t w hc' hr hw =>
    refine (hu (returns_call ..)).imp_right fun ⟨hut, hc⟩ => .inl ⟨?_, by rw [hc]; rfl⟩
    rw [hut, hc']
    nofun
  | joining t w k hc' hw =>
    refine (hu rfl).imp_right fun ⟨hut, hc⟩ => ?_
    subst hut
    exact .inr (.inr (.inr (.inr ⟨hc', hc⟩)))
  | dereference t w call k hc' hf hw =>
    refine (hu (returns_call ..)).imp_right fun ⟨hut, hc⟩ => ?_
    subst hut
    exact .inr (.inl ⟨hc', hc⟩)
  | _ => exact .inl rfl

/-- What a step does to a call that waits for a worker. -/
theorem Moves.frame (h : Moves s a s') (u : Tid C) :
    (s'.worker.frame u = s.worker.frame u ∧ (s.call u = .joining → s'.call u = .joining)) ∨
      s'.worker.frame u = .idle ∨
      (a = .join u ∧ s.call u = .join ∧ s'.call u = .joining ∧
        ∃ k, s.worker.obj.threadObject = some k ∧
          s'.worker.frame u = .wait .waitForTerminationIndefinitely k) ∨
      ∃ call k status, a = .waitReturns u status ∧ s'.call u = .joining ∧
        s.worker.frame u = .wait call k ∧ waitEnds call (s.worker.thread k).point status ∧
        s'.worker.frame u = .dereference call k := by
  have hkeep : ∀ {t c}, s'.call = Function.update s.call t c → s.call t ≠ .joining ∨ u ≠ t →
      s.call u = .joining → s'.call u = .joining := by
    intro t c h hne hu
    rcases update_cases h (t := u) rfl with ⟨hut, -⟩ | ⟨-, hc⟩
    · rcases hne with hne | hne
      · exact absurd (hut ▸ hu) hne
      · exact absurd hut hne
    · exact hc.symm.trans hu
  cases h with
  | start t routine k hm =>
    exact .inl ⟨congrFun (start_frame ..) u, hkeep rfl (.inl (by rw [call_of_mayCall hm]; nofun))⟩
  | refused t wait hm hs =>
    exact .inl ⟨by rw [returns_worker], hkeep (returns_call ..) (.inl (ne_joining_of_mayStop hm))⟩
  | stop t wait hm hs =>
    exact .inl ⟨rfl, hkeep rfl (.inl (ne_joining_of_mayStop hm))⟩
  | enqueue t items hm => exact .inl ⟨rfl, hkeep rfl (.inl (by rw [call_of_mayCall hm]; nofun))⟩
  | notify t wait hc => exact .inl ⟨rfl, hkeep rfl (.inl (by rw [hc]; nofun))⟩
  | join t w hc hr hw =>
    rw [returns_worker]
    rcases update_cases hw.frame (t := u) rfl with ⟨-, hf⟩ | ⟨-, hf⟩
    · exact .inr (.inl hf)
    · exact .inl ⟨hf.symm, hkeep (returns_call ..) (.inl (by rw [hc]; nofun))⟩
  | joining t w k hc hw =>
    rcases update_cases hw.frame (t := u) rfl with ⟨rfl, hf⟩ | ⟨-, hf⟩
    · exact .inr (.inr (.inl ⟨rfl, hc, Function.update_self .., k, hw.taken, hf⟩))
    · exact .inl ⟨hf.symm, hkeep rfl (.inl (by rw [hc]; nofun))⟩
  | waitReturns t status call k hc hf hw =>
    by_cases hut : u = t
    · subst hut
      exact .inr (.inr (.inr ⟨call, k, status, rfl, hc, hf, hw, Function.update_self ..⟩))
    · exact .inl ⟨Function.update_of_ne hut .., id⟩
  | dereference t w call k hc hf hw =>
    rw [returns_worker]
    rcases update_cases hw.frame (t := u) rfl with ⟨-, hf'⟩ | ⟨hut, hf'⟩
    · exact .inr (.inl hf')
    · exact .inl ⟨hf'.symm, hkeep (returns_call ..) (.inr hut)⟩
  | thread k w hl hw => exact .inl ⟨by rw [(interceptorThreadRoutine_frame hw).1], id⟩
  | worker | handled => exact .inl ⟨rfl, id⟩

/-- Only a `Start` gets a worker into `WorkerInterceptorRoutine`. -/
theorem Moves.working (h : Moves s a s') {j : ℕ} (hj : (s'.worker.thread j).point.working) :
    (s.worker.thread j).point.working ∨
      j = s.worker.next ∧ ∃ t routine k, a = .start t routine k ∧
        s.worker.obj.threadObject = none ∧ ntSuccess k.create := by
  cases h with
  | start t routine k hm =>
    change ((s.worker.start () (some ()) k).thread j).point.working at hj
    by_cases hc : s.worker.obj.threadObject = none ∧ ntSuccess k.create
    · rcases start_cases s.worker () (some ()) k with ⟨-, h⟩ | ⟨-, o, h, -⟩ | ⟨-, o, th, h, -⟩
      · rw [h] at hj; exact .inl hj
      · rw [h] at hj; exact .inl hj
      · rw [h, create_thread] at hj
        split_ifs at hj with hn
        · exact .inr ⟨hn, t, routine, k, rfl, hc⟩
        · exact .inl hj
    · rw [(start_creates _ _ hc).2] at hj
      exact .inl hj
  | refused => rw [returns_worker] at hj; exact .inl hj
  | join t w hc hr hw => rw [returns_worker] at hj; exact .inl ((hw.thread j).working hj)
  | joining t w k hc hw => exact .inl ((hw.thread j).working hj)
  | dereference t w call k hc hf hw =>
    rw [returns_worker] at hj
    exact .inl ((hw.thread j).working hj)
  | thread k w hl hw =>
    exact .inl (((fades_interceptorThreadRoutine hw).thread j).working hj)
  | _ => exact .inl hj

theorem Moves.next (h : Moves s a s') : s.worker.next ≤ s'.worker.next := by
  cases h with
  | start t routine k hm => exact next_le_start ..
  | refused => rw [returns_worker]
  | join t w hc hr hw => rw [returns_worker]; exact hw.next.ge
  | joining t w k hc hw => exact hw.next.ge
  | dereference t w call k hc hf hw => rw [returns_worker]; exact hw.next.ge
  | thread k w hl hw => exact (fades_interceptorThreadRoutine hw).next.ge
  | _ => exact le_rfl

/-- No thread goes back in `InterceptorThreadRoutine`. -/
theorem Moves.rank (h : Moves s a s') (k : ℕ) (ha : s.worker.next ≤ k →
    (s.worker.thread k).point = .absent) :
    (s.worker.thread k).point.rank ≤ (s'.worker.thread k).point.rank := by
  cases h with
  | start t routine o hm =>
    by_cases hk : k = s.worker.next
    · rw [ha hk.ge]
      exact Nat.zero_le _
    · rw [start_worker, start_thread_of_ne _ _ _ _ hk]
  | refused => rw [returns_worker]
  | join t w hc hr hw => rw [returns_worker]; exact (hw.thread k).rank
  | joining t w j hc hw => exact (hw.thread k).rank
  | dereference t w call j hc hf hw => rw [returns_worker]; exact (hw.thread k).rank
  | thread j w hl hw => exact ((fades_interceptorThreadRoutine hw).thread k).rank
  | _ => exact le_rfl

/-- A worker moves in `WorkerInterceptorRoutine` only while its thread runs that routine. -/
theorem Moves.point (h : Moves s a s') {k : ℕ} (hk : (s.worker.thread k).point ≠ .routine) :
    s'.point k = s.point k := by
  have hne : ∀ j p, (s.worker.thread j).point = .routine →
      Function.update s.point j p k = s.point k := by
    intro j p hr
    refine Function.update_of_ne (fun hkj => hk ?_) ..
    rw [hkj, hr]
  cases h with
  | worker j hr hp => exact hne j _ hr
  | handled j status hr hc hp => exact hne j _ hr
  | refused t | join t | dereference t => cases t <;> rfl
  | _ => rfl

/-- A worker's thread object is taken by the call that goes on to wait for it. -/
theorem Moves.handedOver (h : Moves s a s') {j : ℕ}
    (hj : (s'.worker.thread j).handedOver) :
    (s.worker.thread j).handedOver ∨
      ∃ t, s.call t = .join ∧ s'.call t = .joining := by
  cases h with
  | start t routine k hm =>
    left
    change ((s.worker.start () (some ()) k).thread j).handedOver at hj
    rcases start_cases s.worker () (some ()) k with ⟨-, h⟩ | ⟨-, o, h, -⟩ |
      ⟨-, o, th, h, -, -, hh, -⟩
    · rwa [h] at hj
    · rwa [h] at hj
    · rw [h, create_thread] at hj
      split_ifs at hj
      · rw [hh] at hj
        cases hj
      · exact hj
  | refused => rw [returns_worker] at hj; exact .inl hj
  | join t w hc hr hw =>
    rw [returns_worker] at hj
    exact .inl (hw.handedOver j ▸ hj)
  | dereference t w call k hc hf hw =>
    rw [returns_worker] at hj
    exact .inl (hw.handedOver j ▸ hj)
  | joining t w k hc hw =>
    exact .inr ⟨t, hc, Function.update_self ..⟩
  | thread k w hl hw => exact .inl (interceptorThreadRoutine_handedOver hw j ▸ hj)
  | _ => exact .inl hj

end Steps

/-! ## What every run keeps -/

/-- A call of `Stop` that goes on sets `m_stopWorker`, which stays set: so there is at most one
behind its guard block, and only that one ever takes `m_worker`'s thread object. A worker begins
with the read of the size. -/
structure Sound (s : State C R ι) : Prop where
  tracked : Tracked s.worker
  flag : ∀ t, (s.call t).stopping → s.obj.stopWorker = true
  once : ∀ t u, (s.call t).stopping → (s.call u).stopping → t = u
  taken : ∀ k, (s.worker.thread k).handedOver → s.obj.stopWorker = true ∧
    ∀ t, (s.call t).stopping → s.call t = .joining
  idle : ∀ t, s.call t ≠ .joining → s.worker.frame t = .idle
  entered : ∀ k, (s.worker.thread k).point.rank < Point.routine.rank → s.point k = .size
  untimed : ∀ t call k, s.worker.frame t = .wait call k → call = .waitForTerminationIndefinitely

section Runs

variable [DecidableEq C] {s s' : State C R ι} {a : Action C R ι}

/-- A call comes behind its guard block only by setting the flag. -/
theorem Moves.stopping (h : Moves s a s') {t : Tid C} (ht : (s'.call t).stopping) :
    (s.call t).stopping ∨ s.obj.stopWorker = false ∧ ∃ wait, a = .stop t wait := by
  rcases h.call t with h | ⟨-, h⟩ | ⟨-, h⟩ | ⟨-, hs, wait, ha, -⟩ | ⟨h, -⟩ | ⟨h, -⟩
  · exact .inl (h ▸ ht)
  · rw [h] at ht; cases ht
  · rw [h] at ht; cases ht
  · exact .inr ⟨hs, wait, ha⟩
  · rw [h]; exact .inl rfl
  · rw [h]; exact .inl rfl

theorem Moves.stopping_of_set (h : Moves s a s') (hs : s.obj.stopWorker = true) {t : Tid C}
    (ht : (s'.call t).stopping) : (s.call t).stopping :=
  (h.stopping ht).resolve_right fun h' => by rw [hs] at h'; cases h'.1

theorem Sound.tracked_step (hi : Sound s) (h : step s a = some s') : Tracked s'.worker := by
  rcases thread_step h with hw | ⟨b, hw⟩
  · rw [hw]; exact hi.tracked
  · exact hi.tracked.step hw

theorem Sound.flag_move (hi : Sound s) (hm : Moves s a s') {t : Tid C}
    (ht : (s'.call t).stopping) : s'.obj.stopWorker = true := by
  rcases hm.stopping ht with h | ⟨hs, wait, rfl⟩
  · exact hm.stopWorker (hi.flag t h)
  · cases hm with
    | refused t wait hm hs' => exact Bool.noConfusion (hs.symm.trans hs')
    | stop t wait hm hs => rfl

theorem Sound.once_move (hi : Sound s) (hm : Moves s a s') {t u : Tid C}
    (ht : (s'.call t).stopping) (hu : (s'.call u).stopping) : t = u := by
  rcases hm.stopping ht with h | ⟨hs, wait, rfl⟩
  · exact hi.once t u h (hm.stopping_of_set (hi.flag t h) hu)
  · rcases hm.stopping hu with h | ⟨-, wait', ha⟩
    · exact Bool.noConfusion (hs.symm.trans (hi.flag u h))
    · cases ha
      rfl

/-- A call that is in its wait for a worker stays the only one that goes on. -/
theorem Sound.taken_move (hi : Sound s) (hm : Moves s a s') {j : ℕ}
    (hj : (s'.worker.thread j).handedOver) :
    s'.obj.stopWorker = true ∧ ∀ t, (s'.call t).stopping → s'.call t = .joining := by
  rcases hm.handedOver hj with h | ⟨t, hc, hc'⟩
  · obtain ⟨hs, hj⟩ := hi.taken j h
    refine ⟨hm.stopWorker hs, fun t ht => ?_⟩
    have htj := hj t (hm.stopping_of_set hs ht)
    rcases hm.call t with h | ⟨h, -⟩ | ⟨-, h⟩ | ⟨h, -⟩ | ⟨h, -⟩ | ⟨-, h⟩
    · exact h.trans htj
    · exact absurd htj h
    · rw [h] at ht; cases ht
    · exact absurd htj h
    · rw [h] at htj; cases htj
    · exact h
  · have hts : (s.call t).stopping := by rw [hc]; rfl
    refine ⟨hm.stopWorker (hi.flag t hts), fun u hu => ?_⟩
    have hut := hi.once u t (hm.stopping_of_set (hi.flag t hts) hu) hts
    rw [hut, hc']

theorem Sound.step (hi : Sound s) (h : step s a = some s') : Sound s' := by
  have hm := moves_of_step h
  refine ⟨hi.tracked_step h, fun t => hi.flag_move hm, fun t u => hi.once_move hm,
    fun j => hi.taken_move hm, fun t ht => ?_, fun k hk => ?_, fun t call k ht => ?_⟩
  · rcases hm.frame t with ⟨hf, hk⟩ | hf | ⟨-, -, hc, -⟩ | ⟨-, -, -, -, hc, -⟩
    · rw [hf]
      exact hi.idle t fun h => ht (hk h)
    · exact hf
    · exact absurd hc ht
    · exact absurd hc ht
  · have hlt : (s.worker.thread k).point.rank < Point.routine.rank :=
      (hm.rank k fun hle => (hi.tracked.fresh k hle).1).trans_lt hk
    rw [hm.point fun hr => by rw [hr] at hlt; exact lt_irrefl _ hlt]
    exact hi.entered k hlt
  · rcases hm.frame t with ⟨hf, -⟩ | hf | ⟨-, -, -, j, -, hf⟩ | ⟨_, _, _, -, -, -, -, hf⟩
    · exact hi.untimed t call k (hf ▸ ht)
    · rw [hf] at ht; cases ht
    · rw [hf] at ht; cases ht; rfl
    · rw [hf] at ht; cases ht

theorem sound_inductive : (system C R ι).Inductive Sound := by
  refine ⟨fun s h0 => ?_, fun s a s' hi h => hi.step h⟩
  obtain rfl := h0
  exact ⟨tracked_inductive.init _ rfl, nofun, nofun, nofun, fun _ _ => rfl, fun _ _ => rfl, nofun⟩

end Runs

end Dpp.WorkQueue.Life
