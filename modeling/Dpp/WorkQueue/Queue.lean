import Dpp.Nt
import Mathlib.Tactic.SplitIfs

/-!
# The queue and the worker's loop

What the callers of a `WorkQueue` and its worker do to the members they share, one function for
each access the other side can see.

* `Obj`: the members; `Obj.enqueue`, `Obj.stop`, `Obj.notify`: the accesses of the callers.
* `WorkerPoint`: a worker's place in `WorkerInterceptorRoutine`, with its local `doQueue`.
* `WorkerPoint.step`, `WorkerPoint.handled`: the worker's steps; `Access`: the same by cases.
-/

namespace Dpp.WorkQueue

variable {ι : Type}

/-! ## The members -/

/-- The members of `WorkQueue` that its callers and its worker share. -/
structure Obj (ι : Type) where
  queue : List ι := []
  wakeEvent : KEvent := {}
  stopWorker : Bool := false

/-- What one `Enqueue` is given: a `WorkItem` or a deque of them. -/
inductive Items (ι : Type)
  | item (x : ι)
  | deque (xs : List ι)

def Items.toList : Items ι → List ι
  | item x => [x]
  | deque xs => xs

namespace Obj

/-- The guard blocks of the two `Enqueue`s: `emplace_back` and `insert` at the end. -/
def enqueue (o : Obj ι) : Items ι → Obj ι
  | .item x => { o with queue := o.queue ++ [x] }
  | .deque xs => { o with queue := o.queue ++ xs }

/-- The guard block of `Stop`, and whether `Stop` goes on after it. -/
def stop (o : Obj ι) : Obj ι × Bool :=
  if o.stopWorker then (o, false) else ({ o with stopWorker := true }, true)

/-- `m_wakeEvent.Notify()`. -/
def notify (o : Obj ι) : Obj ι := { o with wakeEvent := o.wakeEvent.set.1 }

theorem enqueue_eq (o : Obj ι) (items : Items ι) :
    o.enqueue items = { o with queue := o.queue ++ items.toList } := by
  cases items <;> rfl

theorem stop_cases (o : Obj ι) : (o.stopWorker = true ∧ o.stop = (o, false)) ∨
    (o.stopWorker = false ∧ o.stop = ({ o with stopWorker := true }, true)) := by
  cases h : o.stopWorker <;> simp [stop, h]

end Obj

/-! ## The worker -/

/-- Where a worker is in `WorkerInterceptorRoutine`, by its next access: the guard block that
reads `m_queue.size()`, the read of `m_stopWorker`, `Reset()`, `WaitIndefinitely()`, the guard
block that takes the queue, the test of `doQueue.size()`, the return of `m_workerRoutine(item)`
for the front of `doQueue`, the write of `m_stopWorker` after a failure with the item still in
front; or it has left the loop. -/
inductive WorkerPoint (ι : Type)
  | size
  | stop
  | reset
  | wait
  | take
  | drain (doQueue : List ι)
  | handle (item : ι) (rest : List ι)
  | fail (rest : List ι)
  | left

namespace WorkerPoint

/-- The next access of the worker; inside `m_workerRoutine` it has none of its own. -/
def step (o : Obj ι) : WorkerPoint ι → Option (Obj ι × WorkerPoint ι)
  | size => some (o, if o.queue.length = 0 then stop else take)
  | stop => some (o, if o.stopWorker then left else reset)
  | reset =>
    let (e, previous) := o.wakeEvent.reset
    some ({ o with wakeEvent := e }, if previous = 0 then wait else take)
  | wait => if o.wakeEvent.signaled then some (o, size) else none
  | take => some ({ o with queue := [] }, drain o.queue)
  | drain [] => some (o, size)
  | drain (item :: rest) => some (o, handle item rest)
  | handle .. => none
  | fail rest => some ({ o with stopWorker := true }, drain rest)
  | left => none

/-- `m_workerRoutine(item)` returns `status`. -/
def handled (status : NtStatus) : WorkerPoint ι → Option (WorkerPoint ι)
  | handle _ rest => some (if status ≠ statusSuccess then fail rest else drain rest)
  | _ => none

/-- In `m_workerRoutine`. -/
def handling : WorkerPoint ι → Bool
  | handle .. => true
  | _ => false

/-- Out of the loop. -/
def finished : WorkerPoint ι → Bool
  | left => true
  | _ => false

/-- The items the worker has taken and not yet called `m_workerRoutine` for. -/
def pending : WorkerPoint ι → List ι
  | drain doQueue => doQueue
  | handle _ rest | fail rest => rest
  | _ => []

/-- The item `m_workerRoutine` has just been called for. -/
def called : WorkerPoint ι → List ι
  | handle item _ => [item]
  | _ => []

variable {o o' : Obj ι} {p p' : WorkerPoint ι}

/-- The accesses of the worker, with what they find. -/
inductive Access (o : Obj ι) : WorkerPoint ι → Obj ι → WorkerPoint ι → Prop
  | empty (hq : o.queue = []) : Access o size o stop
  | filled (hq : o.queue ≠ []) : Access o size o take
  | leave (hs : o.stopWorker = true) : Access o stop o left
  | stay (hs : o.stopWorker = false) : Access o stop o reset
  | sleep (he : o.wakeEvent.signaled = false) :
      Access o reset { o with wakeEvent := o.wakeEvent.reset.1 } wait
  | retry (he : o.wakeEvent.signaled = true) :
      Access o reset { o with wakeEvent := o.wakeEvent.reset.1 } take
  | wake (he : o.wakeEvent.signaled = true) : Access o wait o size
  | take : Access o take { o with queue := [] } (drain o.queue)
  | again : Access o (drain []) o size
  | call (item : ι) (rest : List ι) : Access o (drain (item :: rest)) o (handle item rest)
  | fail (rest : List ι) : Access o (fail rest) { o with stopWorker := true } (drain rest)

theorem access_of_step (h : p.step o = some (o', p')) : Access o p o' p' := by
  cases p with
  | size =>
    cases h
    split_ifs with hq
    · exact .empty (List.eq_nil_of_length_eq_zero hq)
    · exact .filled fun h => hq (by rw [h]; rfl)
  | stop =>
    cases h
    cases hs : o.stopWorker with
    | false => exact .stay hs
    | true => exact .leave hs
  | reset =>
    cases h
    cases hs : o.wakeEvent.signaled with
    | false => exact .sleep hs
    | true => exact .retry hs
  | wait =>
    simp only [step, Option.ite_none_right_eq_some] at h
    obtain ⟨hs, h⟩ := h
    cases h
    exact .wake hs
  | take => cases h; exact .take
  | drain doQueue =>
    cases doQueue with
    | nil => cases h; exact .again
    | cons item rest => cases h; exact .call item rest
  | fail rest => cases h; exact .fail rest
  | handle | left => cases h

theorem Access.step (h : Access o p o' p') : p.step o = some (o', p') := by
  cases h with
  | empty hq => simp [WorkerPoint.step, hq]
  | filled hq => simp [WorkerPoint.step, hq]
  | leave hs => simp [WorkerPoint.step, hs]
  | stay hs => simp [WorkerPoint.step, hs]
  | sleep he => simp [WorkerPoint.step, KEvent.reset, he]
  | retry he => simp [WorkerPoint.step, KEvent.reset, he]
  | wake he => simp [WorkerPoint.step, he]
  | _ => rfl

/-- The worker never resets `m_stopWorker`. -/
theorem Access.stopWorker (h : Access o p o' p') (hs : o.stopWorker = true) :
    o'.stopWorker = true := by
  cases h with
  | fail rest => rfl
  | _ => exact hs

theorem Access.ne_fail (h : Access o p o' p') (rest : List ι) : p' ≠ .fail rest := by
  cases h <;> nofun

/-- While `m_stopWorker` is clear and the routine has not failed, the worker stays in its loop. -/
theorem Access.finished (h : Access o p o' p') (hs : o.stopWorker = false)
    (hne : ∀ rest, p ≠ .fail rest) :
    o'.stopWorker = false ∧ p'.finished = p.finished := by
  cases h with
  | leave hl => rw [hs] at hl; cases hl
  | fail rest => exact absurd rfl (hne rest)
  | _ => exact ⟨hs, rfl⟩

/-- The worker has no access to make only while it sleeps, in `m_workerRoutine`, and after the
loop. -/
theorem step_eq_none (h : p.step o = none) :
    (p = wait ∧ o.wakeEvent.signaled = false) ∨ p.handling = true ∨ p = left := by
  cases p with
  | wait =>
    simp only [step, ite_eq_right_iff] at h
    cases hs : o.wakeEvent.signaled with
    | false => exact .inl ⟨rfl, rfl⟩
    | true => cases h hs
  | handle item rest => exact .inr (.inl rfl)
  | left => exact .inr (.inr rfl)
  | drain doQueue => cases doQueue <;> cases h
  | _ => cases h

/-- `m_workerRoutine` returns and the loop goes on, at the write of `m_stopWorker` after a
failure. -/
theorem handled_cases {status : NtStatus} (h : p.handled status = some p') :
    ∃ item rest, p = handle item rest ∧
      p' = if status ≠ statusSuccess then fail rest else drain rest := by
  cases p with
  | handle item rest => exact ⟨item, rest, rfl, (Option.some.inj h).symm⟩
  | _ => cases h

end WorkerPoint

end Dpp.WorkQueue
