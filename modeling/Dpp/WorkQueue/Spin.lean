import Dpp.Lib.Potential
import Dpp.WorkQueue.WakeUp

/-!
# The worker does not spin

An iteration of the worker's loop that handles no item is the worker's answer to a signaled event:
a wait that returns at once, or a `Reset` that finds the event signaled. A `Notify` causes at most
one of each.

* `begun`, `notified`, `added`, `called`: what a step counts for.
* `iterationsLeft`: the iterations that the items in the queue and the event can still cause.
* `stepsLeft`: the steps that are left without another call.
* **`no_spin`**: the bound on the iterations, and on the whole run by the calls made in it.
-/

namespace Dpp.WorkQueue.Run

open Lib

variable {C ι : Type}

/-- The iterations of the loop that a step begins. -/
def begun (s : State C ι) : Action C ι → ℕ
  | .start => if s.worker.isNone then 1 else 0
  | .worker =>
    match s.worker.bind (WorkerPoint.step s.obj) with
    | some (_, .size) => 1
    | _ => 0
  | _ => 0

/-- The calls of `m_wakeEvent.Notify`. -/
def notified (_ : State C ι) : Action C ι → ℕ
  | .notify _ => 1
  | _ => 0

/-- The items appended. -/
def added (_ : State C ι) : Action C ι → ℕ
  | .enqueue _ items => items.toList.length
  | _ => 0

/-- The calls of `Enqueue` and `Stop`. -/
def called (_ : State C ι) : Action C ι → ℕ
  | .enqueue .. | .stop .. => 1
  | _ => 0

/-! ## What is left to do -/

/-- A signaled event costs an iteration at the next `Reset`, and one more in the wait. -/
def eventIterations : WorkerPoint ι → KEvent → ℕ
  | .wait, e => if e.signaled then 2 else 0
  | _, e => if e.signaled then 1 else 0

/-- The iterations that `n` items in the queue can cause, with the next one of a worker that is past
its read of the queue. -/
def pointIterations : WorkerPoint ι → ℕ → ℕ
  | .take, n => max 1 n
  | .drain _, n | .handle .., n | .fail _, n => n + 1
  | _, n => n

/-- The iterations that are left without another `Notify` and another item. -/
def State.iterationsLeft (s : State C ι) : ℕ :=
  match s.worker with
  | some p => pointIterations p s.obj.queue.length + eventIterations p s.obj.wakeEvent
  | none => s.obj.queue.length + eventIterations (.size : WorkerPoint ι) s.obj.wakeEvent + 1

/-- The steps of the worker to the end of its iteration, with the returns of `m_workerRoutine`. -/
def pointSteps : WorkerPoint ι → ℕ
  | .size => 5
  | .stop => 4
  | .reset => 3
  | .take => 2
  | .wait => 1
  | .drain doQueue => 3 * doQueue.length + 1
  | .handle _ rest => 3 * rest.length + 3
  | .fail rest => 3 * rest.length + 2
  | .left => 0

/-- The steps of a call after its guard block, and ten of the worker for its `Notify`. -/
def Call.stepsLeft : Call → ℕ
  | idle => 0
  | notify _ => 12
  | join => 1

/-- The steps that are left without another call. -/
noncomputable def State.stepsLeft (s : State C ι) : ℕ :=
  5 * s.iterationsLeft + 3 * s.obj.queue.length + s.worker.elim 1 pointSteps +
    finsum fun t => (s.call t).stepsLeft

section Steps

variable {s s' : State C ι} {a : Action C ι}

theorem iterationsLeft_some {p : WorkerPoint ι} (hw : s.worker = some p) :
    s.iterationsLeft =
      pointIterations p s.obj.queue.length + eventIterations p s.obj.wakeEvent := by
  rw [State.iterationsLeft, hw]

theorem begun_worker {p p' : WorkerPoint ι} {o : Obj ι} (hw : s.worker = some p)
    (hp : WorkerPoint.Access s.obj p o p') :
    begun s (.worker : Action C ι) = match p' with | .size => 1 | _ => 0 := by
  simp only [begun, hw, Option.bind_some, hp.step]
  cases p' <;> rfl

/-- **A step of the worker** begins an iteration that was left. -/
theorem iterationsLeft_worker {p p' : WorkerPoint ι} {o : Obj ι} (hw : s.worker = some p)
    (hp : WorkerPoint.Access s.obj p o p') (handled : List ι) :
    begun s (.worker : Action C ι) +
        State.iterationsLeft { s with obj := o, worker := some p', handled := handled } ≤
      s.iterationsLeft := by
  rw [begun_worker hw hp, iterationsLeft_some hw, iterationsLeft_some rfl]
  cases hp with
  | filled hq =>
    have := List.length_pos_iff.mpr hq
    simp only [pointIterations, eventIterations]
    omega
  | sleep he =>
    simp [pointIterations, eventIterations, KEvent.reset]
  | retry he =>
    simp [pointIterations, eventIterations, KEvent.reset, he]
  | wake he =>
    simp [pointIterations, eventIterations, he]
    omega
  | take =>
    simp only [pointIterations, eventIterations, List.length_nil]
    omega
  | empty | leave | stay | again | call | fail =>
    simp only [pointIterations, eventIterations]
    omega

/-- A step that adds `n` items and `m` iterations for the event. -/
theorem iterationsLeft_le {n m : ℕ} (hw : s'.worker = s.worker)
    (hq : s'.obj.queue.length = s.obj.queue.length + n)
    (he : ∀ p : WorkerPoint ι, eventIterations p s'.obj.wakeEvent ≤
      eventIterations p s.obj.wakeEvent + m) :
    s'.iterationsLeft ≤ s.iterationsLeft + n + m := by
  unfold State.iterationsLeft
  rw [hw, hq]
  cases s.worker with
  | none =>
    have := he .size
    dsimp only
    omega
  | some p =>
    have h := he p
    have hp : pointIterations p (s.obj.queue.length + n) ≤
        pointIterations p s.obj.queue.length + n := by
      cases p with
      | take => simp only [pointIterations]; omega
      | _ => simp only [pointIterations]; omega
    dsimp only
    omega

theorem eventIterations_set (p : WorkerPoint ι) (e : KEvent) : eventIterations p e.set.1 ≤ 2 := by
  cases p with
  | wait => exact le_rfl
  | _ => exact Nat.le_succ 1

variable [DecidableEq C]

/-- **A step that begins an iteration** is paid by an item, a `Notify`, or what was left. -/
theorem iterationsLeft_step (h : step s a = some s') :
    begun s a + s'.iterationsLeft ≤ added s a + 2 * notified s a + s.iterationsLeft := by
  cases moves_of_step h with
  | start hw =>
    simp only [begun, hw, State.iterationsLeft, pointIterations, added, notified]
    simp
    omega
  | worker hw hp =>
    refine (iterationsLeft_worker hw hp _).trans ?_
    simp only [added, notified]
    omega
  | handled status hw =>
    rw [iterationsLeft_some hw]
    split_ifs
    · simp [begun, added, notified, State.iterationsLeft, pointIterations, eventIterations]
    · simp [begun, added, notified, State.iterationsLeft, pointIterations, eventIterations]
  | enqueue t items =>
    have hq : (s.enqueue t items).obj = { s.obj with queue := s.obj.queue ++ items.toList } :=
      Obj.enqueue_eq s.obj items
    have : (s.enqueue t items).iterationsLeft ≤ s.iterationsLeft + items.toList.length + 0 :=
      iterationsLeft_le rfl (by rw [hq, List.length_append]) (fun p => by rw [hq]; exact le_rfl)
    simp only [begun, added, notified]
    omega
  | notify t wait hc =>
    have : (s.notify t wait).iterationsLeft ≤ s.iterationsLeft + 0 + 2 :=
      iterationsLeft_le rfl rfl fun p =>
        (eventIterations_set p s.obj.wakeEvent).trans (Nat.le_add_left ..)
    simp only [begun, added, notified]
    omega
  | refused | stop | join =>
    simp only [begun, added, notified, Nat.zero_add, Nat.mul_zero]
    exact le_rfl

/-! ## The length of a run -/

omit [DecidableEq C] in
/-- **A step of the worker** is one of its iteration or begins one. -/
theorem pointSteps_worker {p p' : WorkerPoint ι} {o : Obj ι} (hw : s.worker = some p)
    (hp : WorkerPoint.Access s.obj p o p') :
    1 + 3 * o.queue.length + pointSteps p' ≤
      3 * s.obj.queue.length + pointSteps p + 5 * begun s (.worker : Action C ι) := by
  rw [begun_worker hw hp]
  cases hp
  all_goals
    simp only [pointSteps, List.length_cons, List.length_nil]
    omega

omit [DecidableEq C] in
/-- Finitely many calls are in progress. -/
def FewCalls (s : State C ι) : Prop := (fun t => (s.call t).stepsLeft).support.Finite

/-- The steps left for the calls, when the call of `t` is at `c`. -/
theorem finsum_setCall (hs : FewCalls s) (t : Caller C) (c : Call) :
    FewCalls (s.setCall t c) ∧
      (finsum fun u => ((s.setCall t c).call u).stepsLeft) + (s.call t).stepsLeft =
        (finsum fun u => (s.call u).stepsLeft) + c.stepsLeft := by
  have he : (fun u => ((s.setCall t c).call u).stepsLeft) =
      Function.update (fun u => (s.call u).stepsLeft) t c.stepsLeft := by
    funext u
    exact Function.apply_update (fun _ => Call.stepsLeft) s.call t c u
  unfold FewCalls
  rw [he]
  exact finsum_update hs t c.stepsLeft

theorem preserves_fewCalls : (system C ι).Preserves FewCalls := by
  intro s a s' hs h
  cases moves_of_step h with
  | enqueue t items => exact (finsum_setCall hs t _).1
  | stop t wait _ => exact (finsum_setCall hs t _).1
  | notify t wait _ => exact (finsum_setCall hs t _).1
  | join t _ => exact (finsum_setCall hs t _).1
  | _ => exact hs

/-- **Every step** is one that was left, or has been paid by a call. -/
theorem stepsLeft_step (hs : FewCalls s) (h : step s a = some s') :
    1 + s'.stepsLeft ≤ 8 * added s a + 13 * called s a + s.stepsLeft := by
  have hit := iterationsLeft_step h
  unfold State.stepsLeft
  cases moves_of_step h with
  | start hw =>
    simp only [begun, hw, added, called, notified, pointSteps, Option.elim] at hit ⊢
    simp at hit
    omega
  | worker hw hp =>
    have := pointSteps_worker hw hp
    simp only [hw, added, called, notified, Option.elim] at hit ⊢
    omega
  | handled status hw =>
    rw [hw]
    split_ifs at hit ⊢
    · simp only [begun, added, called, notified, pointSteps, Option.elim] at hit ⊢
      omega
    · simp only [begun, added, called, notified, pointSteps, Option.elim] at hit ⊢
      omega
  | enqueue t items =>
    have hq : (s.enqueue t items).obj.queue.length =
        s.obj.queue.length + items.toList.length := by
      rw [State.enqueue, Obj.enqueue_eq, List.length_append]
    have hc : (finsum fun u => ((s.enqueue t items).call u).stepsLeft) + (s.call t).stepsLeft =
        (finsum fun u => (s.call u).stepsLeft) + 12 := (finsum_setCall hs t (.notify false)).2
    have hw : (s.enqueue t items).worker = s.worker := rfl
    rw [hq, hw]
    simp only [begun, added, called, notified] at hit ⊢
    omega
  | refused t wait _ =>
    simp only [added, called]
    omega
  | stop t wait _ =>
    have hc : (finsum fun u => ((s.setCall t (.notify wait)).call u).stepsLeft) +
        (s.call t).stepsLeft = (finsum fun u => (s.call u).stepsLeft) + 12 :=
      (finsum_setCall hs t (.notify wait)).2
    change 1 + (5 * s.iterationsLeft + 3 * s.obj.queue.length + s.worker.elim 1 pointSteps +
      finsum fun u => ((s.setCall t (.notify wait)).call u).stepsLeft) ≤ _
    simp only [added, called]
    omega
  | notify t wait ht =>
    have hc : (finsum fun u => ((s.notify t wait).call u).stepsLeft) + 12 =
        (finsum fun u => (s.call u).stepsLeft) + (if wait then Call.join else .idle).stepsLeft := by
      have := (finsum_setCall hs t (if wait then .join else .idle)).2
      rw [ht] at this
      exact this
    have hle : (if wait then Call.join else .idle).stepsLeft ≤ 1 := by
      cases wait <;> decide
    change 1 + (5 * (s.notify t wait).iterationsLeft + 3 * s.obj.queue.length +
      s.worker.elim 1 pointSteps + finsum fun u => ((s.notify t wait).call u).stepsLeft) ≤ _
    simp only [begun, added, called, notified] at hit ⊢
    omega
  | join t ht =>
    have hc : (finsum fun u => ((s.setCall t .idle).call u).stepsLeft) + 1 =
        finsum fun u => (s.call u).stepsLeft := by
      have := (finsum_setCall hs t .idle).2
      rw [ht] at this
      exact this
    change 1 + (5 * s.iterationsLeft + 3 * s.obj.queue.length + s.worker.elim 1 pointSteps +
      finsum fun u => ((s.setCall t .idle).call u).stepsLeft) ≤ _
    simp only [added, called]
    omega

end Steps

variable [DecidableEq C]

/-- **The worker does not spin**: the iterations begun are bounded by the items and the `Notify`s,
the whole run by the items and the calls; and where nothing in progress has a step, a started worker
has left its loop or is asleep. -/
theorem no_spin (as : List (Action C ι)) {s : State C ι} (he : (system C ι).exec {} as = some s) :
    (system C ι).total begun {} as ≤
        (system C ι).total added {} as + 2 * (system C ι).total notified {} as + 1 ∧
      as.length ≤ 8 * (system C ι).total added {} as + 13 * (system C ι).total called {} as + 6 ∧
      (Quiescent s → s.worker = none ∨ s.worker = some .left ∨
        s.worker = some .wait ∧ s.obj.wakeEvent.signaled = false ∧ ¬ s.Notifying) := by
  have htrue : (system C ι).Preserves fun _ => True := fun _ _ _ _ _ => trivial
  refine ⟨?_, ?_, fun hq => ?_⟩
  · have hstep : ∀ s a s', True → (system C ι).step s a = some s' →
        begun s a + s'.iterationsLeft ≤ added s a + 2 * notified s a + s.iterationsLeft :=
      fun _ _ _ _ h => iterationsLeft_step h
    have h : _ ≤ _ + State.iterationsLeft {} := System.total_le htrue hstep trivial as
    rw [System.total_add, System.total_const_mul] at h
    exact h
  · have h0 : FewCalls ({} : State C ι) := by simp [FewCalls, Call.stepsLeft]
    have hl : ({} : State C ι).stepsLeft = 6 := by
      simp [State.stepsLeft, State.iterationsLeft, eventIterations, Call.stepsLeft]
    have hstep : ∀ s a s', FewCalls s → (system C ι).step s a = some s' →
        1 + s'.stepsLeft ≤ 8 * added s a + 13 * called s a + s.stepsLeft :=
      fun _ _ _ hs h => stepsLeft_step hs h
    have h := System.total_le preserves_fewCalls hstep h0 as
    rw [System.total_one he, System.total_add, System.total_const_mul, System.total_const_mul,
      hl] at h
    exact h
  · cases hw : s.worker with
    | none => exact .inl rfl
    | some p =>
      rcases hq.worker hw with ⟨rfl, h⟩ | rfl
      · exact .inr (.inr ⟨rfl, h⟩)
      · exact .inr (.inl rfl)

/-- An item for a sleeping worker: one iteration for the start, one for the wait, one for the item
and one for the event that is still signaled. -/
theorem no_spin_item : ∃ (as : List (Action Unit ℕ)) (s : State Unit ℕ),
    (system Unit ℕ).exec {} as = some s ∧ (system Unit ℕ).total begun {} as = 4 ∧
      ((system Unit ℕ).total begun {} as ≤
          (system Unit ℕ).total added {} as + 2 * (system Unit ℕ).total notified {} as + 1 ∧
        as.length ≤ 8 * (system Unit ℕ).total added {} as +
          13 * (system Unit ℕ).total called {} as + 6 ∧
        (Quiescent s → s.worker = none ∨ s.worker = some .left ∨
          s.worker = some .wait ∧ s.obj.wakeEvent.signaled = false ∧ ¬ s.Notifying)) :=
  ⟨[.start, .worker, .worker, .worker, .enqueue (.thread ()) (.item 7), .notify (.thread ()),
      .worker, .worker, .worker, .worker, .handled statusSuccess, .worker, .worker, .worker,
      .worker, .worker, .worker, .worker, .worker, .worker], _, rfl, rfl, no_spin _ rfl⟩

end Dpp.WorkQueue.Run
