import Dpp.Lib.Fifo
import Dpp.WorkQueue.Run

/-!
# Delivery

The queue, the worker's `doQueue` and the worker routine together are a FIFO channel from
`Enqueue` to `m_workerRoutine`: each step of a run is a send, a receive, or nothing to the channel.

* `State.channel`; `simulates`: a run is a run of the channel.
* **`delivered`**: what was handled, then the rest of `doQueue`, then `m_queue`, is what was
  appended.
-/

namespace Dpp.WorkQueue.Run

open Lib

variable {C ι : Type} [DecidableEq C]

/-- The channel a `WorkQueue` is. -/
def State.channel (s : State C ι) : Fifo ι where
  buffer := s.pending ++ s.obj.queue
  sent := s.appended
  received := s.handled

section Steps

variable {s s' : State C ι}

omit [DecidableEq C] in
theorem State.pending_eq {p : WorkerPoint ι} (h : s.worker = some p) : s.pending = p.pending := by
  rw [State.pending, h]

omit [DecidableEq C] in
/-- An access of the worker receives the item it calls `m_workerRoutine` for. -/
theorem channel_worker {p p' : WorkerPoint ι} {o : Obj ι} (hw : s.worker = some p)
    (h : WorkerPoint.Access s.obj p o p') :
    ∃ ops, (Fifo.system ι).exec s.channel ops = some
      ({ s with obj := o, worker := some p', handled := s.handled ++ p'.called } :
        State C ι).channel := by
  have hsame : p'.called = [] → p'.pending ++ o.queue = p.pending ++ s.obj.queue →
      ∃ ops, (Fifo.system ι).exec s.channel ops = some
        ({ s with obj := o, worker := some p', handled := s.handled ++ p'.called } :
          State C ι).channel := by
    intro hc hp
    refine ⟨[], congrArg some ?_⟩
    simp [State.channel, State.pending, hw, hc, hp]
  cases h with
  | call item rest =>
    have hb : s.channel.buffer = item :: (rest ++ s.obj.queue) := by
      rw [State.channel, s.pending_eq hw]
      rfl
    exact ⟨[.receive], Fifo.step_receive hb⟩
  | take => exact hsame rfl (List.append_nil _)
  | _ => exact hsame rfl rfl

end Steps

/-- **Every step of a run is a run of the channel.** -/
theorem simulates :
    (system C ι).Simulates (Fifo.system ι) fun s t => t = s.channel := by
  refine ⟨fun s h0 => ?_, fun s a s' t ht h => ?_⟩
  · obtain rfl := h0
    exact ⟨{}, rfl, rfl⟩
  · subst ht
    suffices hc : ∃ ops, (Fifo.system ι).exec s.channel ops = some s'.channel by
      obtain ⟨ops, hops⟩ := hc
      exact ⟨ops, _, hops, rfl⟩
    cases moves_of_step h with
    | start hw => exact ⟨[], by simp [State.channel, State.pending, hw, WorkerPoint.pending]⟩
    | worker hw hp => exact channel_worker hw hp
    | handled status hw =>
      refine ⟨[], congrArg some ?_⟩
      rw [State.channel, State.pending_eq hw, State.channel, State.pending_eq rfl]
      split_ifs <;> rfl
    | enqueue t items =>
      refine ⟨[.send items.toList], (Fifo.step_send ..).trans (congrArg some ?_)⟩
      simp [State.channel, State.enqueue, State.setCall, State.pending, Obj.enqueue_eq]
    | _ => exact ⟨[], rfl⟩

/-- The channel of a reachable state is balanced. -/
theorem channel_balanced {s : State C ι} (hr : (system C ι).Reach s) :
    s.handled ++ (s.pending ++ s.obj.queue) = s.appended.flatten := by
  obtain ⟨t, ht, rfl⟩ := simulates.reach hr
  exact Fifo.balanced ht

/-- **In every reachable state the items `m_workerRoutine` was called for, then the rest of
`doQueue`, then `m_queue`, are the items of all `Enqueue`s in the order of their guard blocks.** -/
theorem delivered {s : State C ι} (hr : (system C ι).Reach s) :
    s.handled ++ s.pending ++ s.obj.queue = s.appended.flatten := by
  rw [List.append_assoc, channel_balanced hr]

/-- Two `Enqueue`s, one from the worker routine, which fails on the first item. -/
theorem delivered_run : ∃ s : State Unit ℕ,
    (s.handled = [1, 2] ∧ s.obj.queue = [3]) ∧
      s.handled ++ s.pending ++ s.obj.queue = s.appended.flatten :=
  ⟨_, ⟨rfl, rfl⟩, delivered ⟨{}, [.enqueue (.thread ()) (.deque [1, 2]), .notify (.thread ()),
    .start, .worker, .worker, .worker, .enqueue .worker (.item 3), .notify .worker,
    .handled statusUnsuccessful, .worker, .worker], rfl, rfl⟩⟩

end Dpp.WorkQueue.Run
