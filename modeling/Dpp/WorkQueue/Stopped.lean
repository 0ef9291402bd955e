import Dpp.WorkQueue.Life

/-!
# Stop(true) means stopped

`Stop` returns at once when it finds `m_stopWorker` set, whoever has set it and whether or not the
worker has seen it; and it waits for `m_worker`'s thread object, which is not there for a worker
`ObReferenceObjectByHandle` failed for.

* `Stopped`: when a `Stop(true)` of a thread that is no worker has returned, the workers created
  so far are out of `WorkerInterceptorRoutine`.
* `StopsClean`: such a `Stop` finds the flag set only where no worker is in that routine, waits
  only for referenced workers, and no `Start` creates a worker meanwhile.
* **`stopped_of_stopsClean`**.
-/

namespace Dpp.WorkQueue.Life

open Lib Thread

variable {C R ι : Type}

/-- The workers created when the last `Stop(true)` of a thread that is no worker returned are out
of `WorkerInterceptorRoutine`. -/
def Stopped (s : State C R ι) : Prop :=
  ∀ k < s.stopped, ¬ (s.worker.thread k).point.working

/-- A `Stop(true)` finds the flag set only if no worker is before the end of
`WorkerInterceptorRoutine`; all that are when it takes the thread object were referenced; and no
worker is created while it waits. -/
def StopsClean (s : State C R ι) : Action C R ι → Prop
  | .stop (.caller _) true =>
    s.obj.stopWorker = true → ∀ k, ¬ (s.worker.thread k).point.working
  | .join (.caller _) =>
    ∀ k, (s.worker.thread k).point.working → (s.worker.thread k).referenced
  | .start _ _ k =>
    s.worker.obj.threadObject = none → ntSuccess k.create → ∀ c, s.call (.caller c) ≠ .joining
  | _ => True

/-- What a run keeps whose steps are `StopsClean`: a thread that waits for a worker waits for the
only one there is. -/
structure Stopping (s : State C R ι) : Prop where
  sound : Sound s
  bound : s.stopped ≤ s.worker.next
  stopped : Stopped s
  waiting : ∀ c call k, s.worker.frame (.caller c) = .wait call k →
    ∀ j, (s.worker.thread j).point.working → j = k
  waited : ∀ c call k, s.worker.frame (.caller c) = .dereference call k →
    ∀ j, ¬ (s.worker.thread j).point.working

section Steps

variable {s s' : State C R ι} {a : Action C R ι}

/-- Where the call of `Stop` takes the thread object, only that one may be working. -/
theorem Stopping.tracked (hi : Stopping s) {c : C} (hc : StopsClean s (.join (.caller c)))
    (hj : s.call (.caller c) = .join) {k : ℕ} (hk : (s.worker.thread k).point.working) :
    s.worker.obj.threadObject = some k := by
  rw [hi.sound.tracked.object]
  refine ⟨hc k hk, ?_⟩
  cases hh : (s.worker.thread k).handedOver with
  | false => rfl
  | true =>
    have := (hi.sound.taken k hh).2 (.caller c) (by rw [hj]; rfl)
    rw [hj] at this
    cases this

variable [DecidableEq C]

/-- A `Stop(true)` of a thread that is no worker returns: the flag was set, there was no thread
object to wait for, or the wait is over. -/
theorem Moves.stopped (h : Moves s a s') : s'.stopped = s.stopped ∨
    s'.stopped = s.worker.next ∧ ∃ c,
      (a = .stop (.caller c) true ∧ s.obj.stopWorker = true) ∨
      (a = .join (.caller c) ∧ s.call (.caller c) = .join ∧
        (s.worker.obj.threadId = some (.caller c) ∨ s.worker.obj.threadObject = none)) ∨
      ∃ call k, s.worker.frame (.caller c) = .dereference call k := by
  cases h with
  | refused t wait hm hs =>
    cases t with
    | created k => exact .inl rfl
    | caller c =>
      cases wait with
      | false => exact .inl rfl
      | true => exact .inr ⟨rfl, c, .inl ⟨rfl, hs⟩⟩
  | join t w hc hr hw =>
    cases t with
    | created k => exact .inl rfl
    | caller c => exact .inr ⟨hw.next, c, .inr (.inl ⟨rfl, hc, hr⟩)⟩
  | dereference t w call k hc hf hw =>
    cases t with
    | created k => exact .inl rfl
    | caller c => exact .inr ⟨hw.next, c, .inr (.inr ⟨call, k, hf⟩)⟩
  | _ => exact .inl rfl

omit [DecidableEq C] in
/-- No worker is working when such a `Stop(true)` returns. -/
theorem Stopping.none_working (hi : Stopping s) (hc : StopsClean s a) {c : C}
    (h : (a = .stop (.caller c) true ∧ s.obj.stopWorker = true) ∨
      (a = .join (.caller c) ∧ s.call (.caller c) = .join ∧
        (s.worker.obj.threadId = some (.caller c) ∨ s.worker.obj.threadObject = none)) ∨
      ∃ call k, s.worker.frame (.caller c) = .dereference call k) (k : ℕ) :
    ¬ (s.worker.thread k).point.working := by
  rcases h with ⟨rfl, hs⟩ | ⟨rfl, hj, hr | hr⟩ | ⟨call, j, hf⟩
  · exact hc hs k
  · exact absurd hr (hi.sound.tracked.caller c)
  · intro hk
    have := hi.tracked hc hj hk
    rw [hr] at this
    cases this
  · exact hi.waited c call j hf k

theorem Stopping.step (hi : Stopping s) (hc : StopsClean s a) (h : step s a = some s') :
    Stopping s' := by
  have hm := moves_of_step h
  -- no worker is created while a thread waits for one
  have hold : ∀ c, s.worker.frame (.caller c) ≠ .idle → ∀ j, (s'.worker.thread j).point.working →
      (s.worker.thread j).point.working := fun c hf j hj =>
    (hm.working hj).resolve_right fun ⟨_, t, routine, k, ha, hn, hk⟩ => by
      subst ha
      exact hf (hi.sound.idle _ (hc hn hk c))
  refine ⟨hi.sound.step h, ?_, fun k hk hw => ?_, fun c call k hf j hj => ?_,
    fun c call k hf j hj => ?_⟩
  · rcases hm.stopped with h | ⟨h, -⟩
    · rw [h]
      exact hi.bound.trans hm.next
    · rw [h]
      exact hm.next
  · rcases hm.stopped with h | ⟨h, c, hret⟩
    · rcases hm.working hw with hw | ⟨rfl, -⟩
      · exact hi.stopped k (h ▸ hk) hw
      · have := hi.bound
        omega
    · rcases hm.working hw with hw | ⟨rfl, -⟩
      · exact hi.none_working hc hret k hw
      · omega
  · rcases hm.frame (.caller c) with ⟨hs, -⟩ | hs | ⟨rfl, hjoin, -, i, hi', hs⟩ |
      ⟨_, _, _, -, -, -, -, hs⟩
    · rw [hs] at hf
      exact hi.waiting c call k hf j (hold c (by rw [hf]; nofun) j hj)
    · rw [hs] at hf; cases hf
    · rw [hs] at hf
      cases hf
      have hw : (s.worker.thread j).point.working := (hm.working hj).resolve_right fun h => by
        obtain ⟨-, _, _, _, ha, -⟩ := h
        cases ha
      exact Option.some.inj ((hi.tracked hc hjoin hw).symm.trans hi')
    · rw [hs] at hf; cases hf
  · rcases hm.frame (.caller c) with ⟨hs, -⟩ | hs | ⟨-, -, -, i, -, hs⟩ |
      ⟨call', i, status, -, -, hwait, hends, hs⟩
    · rw [hs] at hf
      exact hi.waited c call k hf j (hold c (by rw [hf]; nofun) j hj)
    · rw [hs] at hf; cases hf
    · rw [hs] at hf; cases hf
    · -- the wait has no timeout, so the thread has ended
      have hw := hold c (by rw [hwait]; nofun) j hj
      obtain rfl := hi.waiting c call' i hwait j hw
      obtain rfl := hi.sound.untimed _ _ _ hwait
      rw [ended_of_waitEnds hends rfl] at hw
      cases hw

end Steps

section Runs

variable [DecidableEq C]

/-- **In every run whose steps are `StopsClean` no worker is in `WorkerInterceptorRoutine` any more
when a `Stop(true)` of another thread has returned, until `Start` creates a new one.** -/
theorem stopped_of_stopsClean (as : List (Action C R ι))
    (hc : (system C R ι).Meets StopsClean {} as) : (system C R ι).Always Stopped {} as := by
  have hk : (system C R ι).Keeps StopsClean Stopping := fun _ _ _ hi hc h => hi.step hc h
  have h0 : Stopping ({} : State C R ι) :=
    ⟨sound_inductive.init _ rfl, le_rfl, fun k hk => absurd hk (Nat.not_lt_zero k), nofun, nofun⟩
  exact (hk.always h0 hc).mono fun _ => Stopping.stopped

end Runs

/-- A `Stop(true)` that sets the flag waits for the worker. -/
theorem stopped_of_stopsClean_wait : (system Unit Unit ℕ).Always Stopped {}
    [.start (.caller ()) () {}, .stop (.caller ()) true, .notify (.caller ()), .join (.caller ()),
      .thread 0, .thread 0, .worker 0, .worker 0, .thread 0, .thread 0, .thread 0,
      .waitReturns (.caller ()) statusSuccess, .dereference (.caller ())] :=
  stopped_of_stopsClean _ <|
    .cons rfl (fun _ _ _ => nofun) <| .cons rfl (fun h => Bool.noConfusion h) <|
    .cons rfl trivial <|
    .cons rfl (fun
      | 0, _ => rfl
      | _ + 1, h => Bool.noConfusion h) <|
    .cons rfl trivial <| .cons rfl trivial <| .cons rfl trivial <| .cons rfl trivial <|
    .cons rfl trivial <| .cons rfl trivial <| .cons rfl trivial <| .cons rfl trivial <|
    .cons rfl trivial .nil

/-- **A `Stop(true)` after a `Stop(false)` returns while the worker is in `m_workerRoutine`.** -/
theorem not_stopped_stop : ¬ ∀ as, (system Unit Unit ℕ).Always Stopped {} as := by
  intro h
  have := (h [.enqueue (.caller ()) (.item 7), .notify (.caller ()), .start (.caller ()) () {},
    .thread 0, .thread 0, .worker 0, .worker 0, .worker 0, .stop (.caller ()) false,
    .notify (.caller ()), .stop (.caller ()) true]).last rfl
  exact this 0 Nat.zero_lt_one rfl

end Dpp.WorkQueue.Life
