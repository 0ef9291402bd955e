import Dpp.WorkQueue.Run

/-!
# No lost wake-up

The worker reads the size of the queue, then `m_stopWorker`, then resets the event, then sleeps. A
caller appends or sets the flag first and notifies afterwards, so whatever the worker has missed
still has its `Notify` to come or has left the event signaled, which `Reset` tells the worker.

* `Awake`: the invariant, for the places between the read of the size and the end of the sleep.
* `Quiescent`: nothing in progress has a step.
* **`no_lost_wakeup`**.
-/

namespace Dpp.WorkQueue.Run

open Lib

variable {C ι : Type}

/-- A `Notify` is outstanding. -/
def State.Notifying (s : State C ι) : Prop := ∃ t wait, s.call t = .notify wait

/-- What the worker has not seen will wake it: items from the read of the size on, and
`m_stopWorker` from the read of it on. -/
structure Awake (s : State C ι) : Prop where
  items : s.worker = some .stop → s.obj.queue ≠ [] → s.obj.wakeEvent.signaled ∨ s.Notifying
  sleep : s.worker = some .reset ∨ s.worker = some .wait →
    s.obj.queue ≠ [] ∨ s.obj.stopWorker → s.obj.wakeEvent.signaled ∨ s.Notifying

/-- No call in progress, no return of `m_workerRoutine` and not the worker has a step. -/
def Quiescent [DecidableEq C] (s : State C ι) : Prop :=
  ∀ a : Action C ι, a.isCall = false → step s a = none

section Steps

variable {s s' : State C ι}

theorem Awake.of_signaled (h : s.obj.wakeEvent.signaled ∨ s.Notifying) : Awake s :=
  ⟨fun _ _ => h, fun _ _ => h⟩

/-- Outside these places there is nothing to miss. -/
theorem Awake.of_ne (h1 : s.worker ≠ some .stop) (h2 : s.worker ≠ some .reset)
    (h3 : s.worker ≠ some .wait) : Awake s :=
  ⟨fun h => absurd h h1, fun h => absurd h (not_or.mpr ⟨h2, h3⟩)⟩

theorem Awake.worker (hi : Awake s) {p p' : WorkerPoint ι} {o : Obj ι} (hw : s.worker = some p)
    (h : WorkerPoint.Access s.obj p o p') {handled : List ι} :
    Awake { s with obj := o, worker := some p', handled := handled } := by
  cases h with
  | empty hq => exact ⟨fun _ h => absurd hq h, fun h => by simp at h⟩
  | stay hs =>
    refine ⟨fun h => by simp at h, fun _ h => ?_⟩
    rcases h with h | h
    · exact hi.items hw h
    · rw [hs] at h
      cases h
  | sleep he =>
    -- the event was not signaled, so the `Notify` is still to come
    refine ⟨fun h => by simp at h, fun _ h => .inr ?_⟩
    rcases hi.sleep (.inl hw) h with h | h
    · rw [he] at h
      cases h
    · exact h
  | _ => exact .of_ne nofun nofun nofun

/-- A worker that sleeps with nothing to wake it has missed nothing. -/
theorem Awake.asleep (hi : Awake s) (hw : s.worker = some .wait)
    (hs : s.obj.wakeEvent.signaled = false) (hn : ¬ s.Notifying) :
    s.obj.queue = [] ∧ s.obj.stopWorker = false := by
  have hno : ¬ (s.obj.queue ≠ [] ∨ s.obj.stopWorker = true) := by
    intro h
    rcases hi.sleep (.inr hw) h with h | h
    · rw [hs] at h
      cases h
    · exact hn h
  simpa using hno

variable [DecidableEq C]

theorem Awake.step {a : Action C ι} (hi : Awake s) (h : step s a = some s') : Awake s' := by
  have hcall : ∀ t c, (s.setCall t c).call t = c := fun t c => Function.update_self ..
  cases moves_of_step h with
  | start hw => exact .of_ne nofun nofun nofun
  | worker hw hp => exact hi.worker hw hp
  | handled status hw =>
    split_ifs
    · exact .of_ne nofun nofun nofun
    · exact .of_ne nofun nofun nofun
  | enqueue t items => exact .of_signaled (.inr ⟨t, false, hcall ..⟩)
  | refused t wait hs => exact hi
  | stop t wait hs => exact .of_signaled (.inr ⟨t, wait, hcall ..⟩)
  | notify t wait hc => exact .of_signaled (.inl rfl)
  | join t hj =>
    -- the caller that returns was past its `Notify`
    have hn : s.Notifying → (s.setCall t .idle).Notifying := by
      rintro ⟨u, wait, hu⟩
      have hut : u ≠ t := by
        rintro rfl
        rw [hj] at hu
        cases hu
      exact ⟨u, wait, (Function.update_of_ne hut ..).trans hu⟩
    exact ⟨fun h hq => (hi.items h hq).imp_right hn, fun h hq => (hi.sleep h hq).imp_right hn⟩

theorem awake_inductive : (system C ι).Inductive Awake := by
  refine ⟨fun s h0 => ?_, fun s a s' hi h => hi.step h⟩
  obtain rfl := h0
  exact ⟨fun h => by simp at h, fun h => by simp at h⟩

/-- Where nothing has a step, a worker that was started is asleep unnotified or has left its
loop. -/
theorem Quiescent.worker (hq : Quiescent s) {p : WorkerPoint ι} (hw : s.worker = some p) :
    (p = .wait ∧ s.obj.wakeEvent.signaled = false ∧ ¬ s.Notifying) ∨ p = .left := by
  have hn : ¬ s.Notifying := by
    rintro ⟨t, wait, ht⟩
    have := hq (.notify t) rfl
    simp [Run.step, ht] at this
  have hstep : p.step s.obj = none := by
    cases h : p.step s.obj with
    | none => rfl
    | some q =>
      have := hq .worker rfl
      simp [Run.step, hw, h] at this
  rcases WorkerPoint.step_eq_none hstep with ⟨rfl, he⟩ | hp | rfl
  · exact .inl ⟨rfl, he, hn⟩
  · -- `m_workerRoutine` could return, or go on with the call it makes
    exfalso
    cases hc : s.call .worker with
    | idle =>
      have := hq (.handled statusSuccess) rfl
      cases p <;> simp_all [Run.step, WorkerPoint.handling, WorkerPoint.handled]
    | notify wait => exact hn ⟨_, wait, hc⟩
    | join =>
      have := hq (.join .worker) rfl
      simp [Run.step, hc] at this
  · exact .inr rfl

end Steps

variable [DecidableEq C]

/-- **No reachable state has the worker asleep with the event not signaled and no `Notify`
outstanding while there are items or `m_stopWorker` is set; and a run in which `Stop` was called
and in which nothing in progress has a step has ended with the worker out of its loop.** -/
theorem no_lost_wakeup (as : List (Action C ι)) {s : State C ι}
    (he : (system C ι).exec {} as = some s) :
    (s.worker = some .wait → s.obj.wakeEvent.signaled = false → ¬ s.Notifying →
        s.obj.queue = [] ∧ s.obj.stopWorker = false) ∧
      ((∃ t wait, .stop t wait ∈ as) → s.worker ≠ none → Quiescent s →
        s.worker = some .left) := by
  have ha : Awake s := awake_inductive.reach ⟨{}, as, rfl, he⟩
  refine ⟨ha.asleep, ?_⟩
  rintro ⟨t, wait, hmem⟩ hne hq
  have hstop := (preserves_stopWorker (C := C) (ι := ι)).exec_of_mem
    (a := Action.stop t wait) (fun _ _ h => stopWorker_of_stop h) hmem he
  obtain ⟨p, hw⟩ := Option.ne_none_iff_exists'.mp hne
  rcases hq.worker hw with ⟨rfl, hs, hn⟩ | rfl
  · have := (ha.asleep hw hs hn).2
    rw [hstop] at this
    cases this
  · exact hw

/-- `Stop` while the worker sleeps. -/
theorem no_lost_wakeup_stop : ∃ s : State Unit ℕ,
    (system Unit ℕ).exec {} [.start, .worker, .worker, .worker, .stop (.thread ()) false,
      .notify (.thread ()), .worker, .worker, .worker] = some s ∧ s.worker = some .left :=
  ⟨_, rfl, (no_lost_wakeup [.start, .worker, .worker, .worker, .stop (.thread ()) false,
      .notify (.thread ()), .worker, .worker, .worker] rfl).2 ⟨.thread (), false, by simp⟩ nofun fun
    | .worker, _ => rfl
    | .handled _, _ => rfl
    | .notify (.thread ()), _ => rfl
    | .notify .worker, _ => rfl
    | .join (.thread ()), _ => rfl
    | .join .worker, _ => rfl⟩

end Dpp.WorkQueue.Run
