import Dpp.WorkQueue.Delivery

/-!
# Items enqueued before `Stop`

The worker leaves its loop when it reads `m_stopWorker` as set after it has read the size of the
queue as zero. Items appended between the two reads stay behind if the flag is set there as well.

* `Served`: a worker that has left its loop has handled what was appended before the flag was set.
* `StopsDrained`: no `Stop` sets the flag between the two reads with items in the queue.
* **`served_iff_stopsDrained`**: a run that has left the loop is `Served` exactly if its steps are
  `StopsDrained`.
-/

namespace Dpp.WorkQueue.Run

open Lib

variable {C ι : Type}

/-- A worker that has left its loop has handled every item appended before `m_stopWorker` was
set. -/
def Served (s : State C ι) : Prop := s.worker = some .left → s.early <+: s.handled

/-- A `Stop` that sets `m_stopWorker` while the worker is about to read it finds the queue
empty. -/
def StopsDrained (s : State C ι) : Action C ι → Prop
  | .stop _ _ => s.worker = some .stop → s.obj.stopWorker = false → s.obj.queue = []
  | _ => True

/-- What was appended before the flag was set comes first of all that was appended. -/
structure Counted (s : State C ι) : Prop where
  early : s.early <+: s.appended.flatten
  all : s.obj.stopWorker = false → s.early = s.appended.flatten

/-- What a run keeps whose steps are `StopsDrained`. -/
structure Drained [DecidableEq C] (s : State C ι) : Prop where
  reach : (system C ι).Reach s
  flag : s.worker = some .left → s.obj.stopWorker = true
  seen : s.worker = some .stop → s.obj.stopWorker = true → s.early <+: s.handled
  left : s.worker = some .left → s.early <+: s.handled

/-- The worker leaves its loop, or has, and some of the early items were not handled. -/
structure Stranded (s : State C ι) : Prop where
  worker : s.worker = some .stop ∨ s.worker = some .left
  flag : s.obj.stopWorker = true
  behind : s.handled.length < s.early.length

section Steps

variable {s s' : State C ι} {a : Action C ι}

variable [DecidableEq C]

theorem counted_inductive : (system C ι).Inductive Counted := by
  refine ⟨fun s h0 => ?_, fun s a s' hi h => ?_⟩
  · obtain rfl := h0
    exact ⟨List.prefix_rfl, fun _ => rfl⟩
  · cases moves_of_step h with
    | worker hw hp =>
      refine ⟨hi.early, fun ho => hi.all ?_⟩
      by_contra hs
      exact Bool.noConfusion ((hp.stopWorker (by simpa using hs)).symm.trans ho)
    | enqueue t items =>
      cases hs : s.obj.stopWorker with
      | false =>
        have he : (s.enqueue t items).early = (s.enqueue t items).appended.flatten := by
          simp [State.enqueue, hs, hi.all hs]
        exact ⟨he ▸ List.prefix_rfl, fun _ => he⟩
      | true =>
        refine ⟨?_, fun ho => ?_⟩
        · simp only [State.enqueue, hs, if_true, List.flatten_append]
          exact hi.early.trans (List.prefix_append ..)
        · rw [State.enqueue, Obj.enqueue_eq] at ho
          exact Bool.noConfusion (hs.symm.trans ho)
    | stop t wait hs => exact ⟨hi.early, by simp⟩
    | _ => exact ⟨hi.early, hi.all⟩

/-- Where the worker has taken nothing and the queue is empty, all that was appended is
handled. -/
theorem handled_eq (hr : (system C ι).Reach s) (hp : s.pending = []) (hq : s.obj.queue = []) :
    s.handled = s.appended.flatten := by
  rw [← channel_balanced hr, hp, hq, List.append_nil, List.append_nil]

/-- Elsewhere than between the read of the size and the end there is nothing to show. -/
theorem Drained.of_ne (hr : (system C ι).Reach s) (h1 : s.worker ≠ some .stop)
    (h2 : s.worker ≠ some .left) : Drained s :=
  ⟨hr, fun h => absurd h h2, fun h => absurd h h1, fun h => absurd h h2⟩

theorem Drained.step (hi : Drained s) (hc : StopsDrained s a) (h : step s a = some s') :
    Drained s' := by
  have hr : (system C ι).Reach s' := hi.reach.step h
  have hcount := counted_inductive.reach hi.reach
  cases moves_of_step h with
  | start hw => exact .of_ne hr (by simp) (by simp)
  | worker hw hp =>
    cases hp with
    | empty hq =>
      have hh : s.handled = s.appended.flatten := handled_eq hi.reach (s.pending_eq hw) hq
      refine ⟨hr, by simp, fun _ _ => ?_, by simp⟩
      change s.early <+: s.handled ++ []
      rw [List.append_nil, hh]
      exact hcount.early
    | leave hs =>
      refine ⟨hr, fun _ => hs, by simp, fun _ => ?_⟩
      change s.early <+: s.handled ++ []
      rw [List.append_nil]
      exact hi.seen hw hs
    | _ => exact .of_ne hr (by simp) (by simp)
  | handled status hw =>
    split_ifs at hr ⊢
    · exact .of_ne hr (by simp) (by simp)
    · exact .of_ne hr (by simp) (by simp)
  | enqueue t items =>
    have hf : (s.enqueue t items).obj.stopWorker = s.obj.stopWorker := by
      rw [State.enqueue, Obj.enqueue_eq]
    have he : s.obj.stopWorker = true → (s.enqueue t items).early = s.early := by
      intro hs
      simp [State.enqueue, hs]
    refine ⟨hr, fun hl => hf.trans (hi.flag hl), fun hw hs => ?_, fun hl => ?_⟩
    · rw [he (hf ▸ hs)]
      exact hi.seen hw (hf ▸ hs)
    · rw [he (hi.flag hl)]
      exact hi.left hl
  | stop t wait hs =>
    refine ⟨hr, fun _ => rfl, fun hw _ => ?_, fun hl => ?_⟩
    · change s.early <+: s.handled
      rw [hcount.all hs, handled_eq hi.reach (s.pending_eq hw) (hc hw hs)]
    · exact Bool.noConfusion (hs.symm.trans (hi.flag hl))
  | _ => exact ⟨hr, hi.flag, hi.seen, hi.left⟩

/-- No step of a run gets a worker back that leaves items behind. -/
theorem preserves_stranded : (system C ι).Preserves Stranded := by
  intro s a s' hi h
  have hne : ∀ p, s.worker = some p → p = .stop ∨ p = .left := by
    intro p hp
    rcases hi.worker with hw | hw
    · exact .inl (Option.some.inj (hp.symm.trans hw))
    · exact .inr (Option.some.inj (hp.symm.trans hw))
  cases moves_of_step h with
  | start hw => rcases hi.worker with h | h <;> exact absurd (hw.symm.trans h) nofun
  | worker hw hp =>
    cases hp with
    | leave hs =>
      refine ⟨.inr rfl, hs, ?_⟩
      change (s.handled ++ []).length < _
      rw [List.append_nil]
      exact hi.behind
    | stay hs => exact Bool.noConfusion (hs.symm.trans hi.flag)
    | _ => rcases hne _ hw with h | h <;> cases h
  | handled status hw => rcases hne _ hw with h | h <;> cases h
  | enqueue t items =>
    refine ⟨hi.worker, ?_, ?_⟩
    · rw [State.enqueue, Obj.enqueue_eq]
      exact hi.flag
    · simp only [State.enqueue, hi.flag, if_true]
      exact hi.behind
  | stop t wait hs => exact Bool.noConfusion (hs.symm.trans hi.flag)
  | _ => exact ⟨hi.worker, hi.flag, hi.behind⟩

/-- A `Stop` between the two reads that finds items leaves them behind. -/
theorem stopsDrained_or_stranded (hr : (system C ι).Reach s) (h : step s a = some s') :
    StopsDrained s a ∨ Stranded s' := by
  by_cases hc : StopsDrained s a
  · exact .inl hc
  · right
    cases moves_of_step h with
    | refused t wait hs =>
      refine absurd (show StopsDrained s (.stop t wait) from fun _ h => ?_) hc
      rw [hs] at h
      cases h
    | stop t wait hs =>
      simp only [StopsDrained, Classical.not_imp] at hc
      obtain ⟨hw, -, hq⟩ := hc
      refine ⟨.inl hw, rfl, ?_⟩
      change s.handled.length < s.early.length
      rw [(counted_inductive.reach hr).all hs, ← channel_balanced hr, s.pending_eq hw]
      simpa [WorkerPoint.pending, List.length_pos_iff] using hq
    | _ => exact absurd trivial hc

end Steps

variable [DecidableEq C]

/-- **A run whose `Stop`s find the queue empty between the two reads hands over every item appended
before `m_stopWorker` was set before the worker leaves its loop, and a run that has left the loop
has done so only if its `Stop`s were like that.** -/
theorem served_iff_stopsDrained (as : List (Action C ι)) :
    ((system C ι).Meets StopsDrained {} as → (system C ι).Always Served {} as) ∧
      ∀ s, (system C ι).exec {} as = some s → s.worker = some .left →
        (s.early <+: s.handled ↔ (system C ι).Meets StopsDrained {} as) := by
  have h0 : (system C ι).Reach {} := .init rfl
  have hi : Drained ({} : State C ι) := .of_ne h0 nofun nofun
  have hk : (system C ι).Keeps StopsDrained Drained := fun _ _ _ hi hc h => hi.step hc h
  have hserved : (system C ι).Meets StopsDrained {} as → (system C ι).Always Served {} as :=
    fun hm => (hk.always hi hm).mono fun _ hd => hd.left
  refine ⟨hserved, fun s he hl => ⟨fun hp => ?_, fun hm => (hserved hm).last he hl⟩⟩
  have hreach : (system C ι).Preserves (system C ι).Reach := fun _ _ _ hr h => hr.step h
  rcases hreach.meets_or preserves_stranded
    (fun _ _ _ hr h => stopsDrained_or_stranded hr h) h0 he with hm | hs
  · exact hm
  · exact absurd hp.length_le (Nat.not_le.mpr hs.behind)

/-- A `Stop` while the worker is in `m_workerRoutine`. -/
theorem served_iff_stopsDrained_stop : ∃ s : State Unit ℕ,
    (system Unit ℕ).exec {} [.enqueue (.thread ()) (.item 7), .notify (.thread ()), .start,
      .worker, .worker, .worker, .stop (.thread ()) false, .notify (.thread ()),
      .handled statusSuccess, .worker, .worker, .worker] = some s ∧
      s.worker = some .left ∧ s.early = [7] ∧ s.early <+: s.handled :=
  ⟨_, rfl, rfl, rfl, ((served_iff_stopsDrained [.enqueue (.thread ()) (.item 7),
      .notify (.thread ()), .start, .worker, .worker, .worker, .stop (.thread ()) false,
      .notify (.thread ()), .handled statusSuccess, .worker, .worker, .worker]).2 _ rfl rfl).mpr <|
    .cons rfl trivial <| .cons rfl trivial <| .cons rfl trivial <| .cons rfl trivial <|
    .cons rfl trivial <| .cons rfl trivial <| .cons rfl (fun h => by cases h) <|
    .cons rfl trivial <| .cons rfl trivial <| .cons rfl trivial <| .cons rfl trivial <|
    .cons rfl trivial .nil⟩

/-- **An `Enqueue` and a `Stop` between the two reads leave the item behind.** -/
theorem not_served_stop : ¬ ∀ as s, (system Unit ℕ).exec {} as = some s →
    s.worker = some .left → s.early <+: s.handled := by
  intro h
  have := h [.start, .worker, .enqueue (.thread ()) (.item 7), .notify (.thread ()),
    .stop (.thread ()) true, .worker] _ rfl rfl
  exact absurd this.length_le (by decide)

end Dpp.WorkQueue.Run
