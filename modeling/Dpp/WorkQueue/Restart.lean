import Dpp.WorkQueue.Life

/-!
# A `WorkQueue` can be restarted

A worker leaves its loop when it reads `m_stopWorker` as set. The flag is set by `Stop` and by a
worker whose routine fails, and nothing resets it, `Start` included: a worker of a queue that was
stopped once leaves as soon as it finds the queue empty.

* `Restarts`: a worker of a successful `Start` has left its loop only after a `Stop` since then or
  a failure of its own.
* `StartsFresh`: a `Start` that succeeds finds the flag clear and no worker in the loop.
* **`restarts_of_startsFresh`**.
-/

namespace Dpp.WorkQueue.Life

open Lib Thread

variable {C R ι : Type}

/-- Created and not out of the loop of `WorkerInterceptorRoutine`. -/
def inLoop (p : Point) (q : WorkerPoint ι) : Bool :=
  match p with
  | .entry | .call => true
  | .routine => !q.finished
  | _ => false

def State.looping (s : State C R ι) (k : ℕ) : Bool :=
  inLoop (s.worker.thread k).point (s.point k)

/-- Since the `Start` of worker `k` there was a `Stop`, or its routine has failed. -/
def Excused (s : State C R ι) (k : ℕ) : Prop :=
  (s.workers k).stops < s.stops ∨ (s.workers k).failed

/-- A worker of a successful `Start` has left its loop only if excused. -/
def Restarts (s : State C R ι) : Prop :=
  ∀ k, (s.workers k).started → ¬ s.looping k → Excused s k

/-- A `Start` that succeeds finds `m_stopWorker` clear and no worker in the loop. -/
def StartsFresh (s : State C R ι) : Action C R ι → Prop
  | .start _ _ k => s.worker.obj.threadObject = none → k.succeeds →
    s.obj.stopWorker = false ∧ ∀ j, ¬ s.looping j
  | _ => True

/-- What a run keeps whose steps are `StartsFresh`: a started worker without excuse is the only one
in the loop, and `m_stopWorker` is clear. -/
structure Fresh (s : State C R ι) : Prop where
  sound : Sound s
  created : ∀ k, (s.workers k).started → k < s.worker.next ∧ (s.worker.thread k).referenced
  stops : ∀ k, (s.workers k).stops ≤ s.stops
  failed : ∀ k rest, s.point k = .fail rest → (s.workers k).failed
  live : ∀ k, (s.workers k).started → ¬ Excused s k →
    s.obj.stopWorker = false ∧ s.looping k ∧ ∀ j, s.looping j → j = k

section Steps

variable {s s' : State C R ι} {a : Action C R ι}

theorem Fresh.restarts (hi : Fresh s) : Restarts s := by
  intro k hk hl
  by_contra hx
  exact hl (hi.live k hk hx).2.1

theorem looping_eq {k : ℕ} {p : Point} (h : (s.worker.thread k).point = p) :
    s.looping k = inLoop p (s.point k) := by rw [State.looping, h]

theorem looping_routine {k : ℕ} (h : (s.worker.thread k).point = .routine) :
    s.looping k = !(s.point k).finished := looping_eq h

/-- A step that gets no worker into the loop or out of it. -/
theorem Fresh.same (hi : Fresh s) (hs : Sound s') (hw : Fades s.worker s'.worker)
    (hl : ∀ k, s'.looping k = s.looping k) (hp : s'.point = s.point) (hk : s'.workers = s.workers)
    (hf : s'.stops = s.stops ∧ s'.obj.stopWorker = s.obj.stopWorker ∨ s'.stops = s.stops + 1) :
    Fresh s' := by
  refine ⟨hs, fun k h => ?_, fun k => ?_, fun k rest h => ?_, fun k h hx => ?_⟩
  · rw [hk] at h
    rw [hw.next, (hw.thread k).referenced]
    exact hi.created k h
  · have := hi.stops k
    rw [hk]
    omega
  · rw [hp] at h
    rw [hk]
    exact hi.failed k rest h
  · rw [hk] at h
    rcases hf with ⟨hst, ho⟩ | hst
    · have hx' : ¬ Excused s k := by rwa [Excused, hk, hst] at hx
      obtain ⟨hc, hlk, hone⟩ := hi.live k h hx'
      exact ⟨ho.trans hc, (hl k).trans hlk, fun j hj => hone j ((hl j).symm.trans hj)⟩
    · -- there was a `Stop`
      refine absurd (.inl ?_) hx
      rw [hk, hst]
      exact Nat.lt_succ_of_le (hi.stops k)

/-- The steps of the calls. -/
theorem Fresh.call (hi : Fresh s) (hs : Sound s') (hw : Waits s.worker s'.worker)
    (hp : s'.point = s.point) (hk : s'.workers = s.workers)
    (hf : s'.stops = s.stops ∧ s'.obj.stopWorker = s.obj.stopWorker ∨ s'.stops = s.stops + 1) :
    Fresh s' := by
  refine hi.same hs hw.toFades (fun k => ?_) hp hk hf
  rcases hw.point k with h | ⟨h, h'⟩
  · rw [looping_eq h, State.looping, hp]
  · rw [looping_eq h, looping_eq h']
    rfl

/-- The steps of `InterceptorThreadRoutine`. -/
theorem Fresh.thread (hi : Fresh s) {k : ℕ} {w : Thread.State C Unit Unit}
    (hs : Sound { s with worker := w })
    (hl : (s.worker.thread k).point = .routine → (s.point k).finished)
    (hw : s.worker.interceptorThreadRoutine k false = some w) : Fresh { s with worker := w } := by
  refine hi.same hs (fades_interceptorThreadRoutine hw) (fun j => ?_) rfl rfl (.inl ⟨rfl, rfl⟩)
  by_cases hj : j = k
  · subst hj
    cases intercepts_of_step hw with
    | identify hp =>
      rw [looping_eq hp, looping_eq (setPoint_point ..)]
      rfl
    | call hp =>
      rw [looping_eq hp, looping_eq (setPoint_point ..), hi.sound.entered j (by rw [hp]; decide)]
      rfl
    | returned hp =>
      rw [looping_routine hp, hl hp, looping_eq (setPoint_point ..)]
      rfl
    | clear hp =>
      rw [looping_eq hp, looping_eq (setPoint_point ..)]
      rfl
    | terminate hp =>
      rw [looping_eq hp, looping_eq (setPoint_point ..)]
      rfl
  · exact looping_eq (congrArg KThread.point ((intercepts_of_step hw).thread_of_ne hj))

/-- Worker `k` goes on in `WorkerInterceptorRoutine`, to `q`. -/
theorem Fresh.move (hi : Fresh s) (hs : Sound s') {k : ℕ} {q : WorkerPoint ι}
    (hr : (s.worker.thread k).point = .routine) (hw : s'.worker = s.worker)
    (hp : s'.point = Function.update s.point k q) (hst : s'.stops = s.stops)
    (hk : ∀ j, (s'.workers j).started = (s.workers j).started ∧
      (s'.workers j).stops = (s.workers j).stops ∧
      ((s.workers j).failed → (s'.workers j).failed))
    (hq : ∀ rest, q = .fail rest → (s'.workers k).failed)
    (hf : s.obj.stopWorker = false → (∀ rest, s.point k ≠ .fail rest) →
      s'.obj.stopWorker = false ∧ q.finished = (s.point k).finished) : Fresh s' := by
  have hself : s'.point k = q := by rw [hp, Function.update_self]
  have hother : ∀ j, j ≠ k → s'.point j = s.point j := by
    intro j hj
    rw [hp, Function.update_of_ne hj]
  refine ⟨hs, fun j h => ?_, fun j => ?_, fun j rest h => ?_, fun j h hx => ?_⟩
  · rw [(hk j).1] at h
    rw [hw]
    exact hi.created j h
  · rw [(hk j).2.1, hst]
    exact hi.stops j
  · by_cases hj : j = k
    · subst hj
      exact hq rest (hself.symm.trans h)
    · rw [hother j hj] at h
      exact (hk j).2.2 (hi.failed j rest h)
  · have hx' : ¬ Excused s j := fun hx' => hx <| by
      rw [Excused, (hk j).2.1, hst]
      exact hx'.imp_right (hk j).2.2
    obtain ⟨hclear, hl, hone⟩ := hi.live j ((hk j).1 ▸ h) hx'
    obtain ⟨hclear', hfin⟩ := hf hclear fun rest hfail => by
      -- a worker that has failed would be `j`, which has no excuse
      have hkl : s.looping k := by rw [looping_routine hr, hfail]; rfl
      exact hx' (.inr (hone k hkl ▸ hi.failed k rest hfail))
    have hsame : ∀ i, s'.looping i = s.looping i := by
      intro i
      by_cases hik : i = k
      · rw [hik, looping_routine hr, looping_routine (by rw [hw, hr]), hself, hfin]
      · rw [State.looping, State.looping, hw, hother i hik]
    exact ⟨hclear', (hsame j).trans hl, fun i hil => hone i ((hsame i).symm.trans hil)⟩

/-- No worker is created while a started one has no excuse: its thread object is not taken. -/
theorem Fresh.tracked (hi : Fresh s) {k : ℕ} (hk : (s.workers k).started) (hx : ¬ Excused s k) :
    s.worker.obj.threadObject = some k := by
  rw [hi.sound.tracked.object]
  refine ⟨(hi.created k hk).2, ?_⟩
  cases hh : (s.worker.thread k).handedOver with
  | false => rfl
  | true =>
    have h := (hi.sound.taken k hh).1
    rw [(hi.live k hk hx).1] at h
    cases h

variable [DecidableEq C]

/-! ### `Start` -/

section Start

variable (s) (t : Tid C) (routine : R) (k : StartOutcome)

theorem looping_start_of_ne {j : ℕ} (hj : j ≠ s.worker.next) :
    (s.start t routine k (s.worker.start () (some ()) k)).looping j = s.looping j :=
  looping_eq (congrArg KThread.point (start_thread_of_ne s.worker () (some ()) k hj))

theorem start_workers_of_ne (w : Thread.State C Unit Unit) {j : ℕ} (hj : j ≠ s.worker.next) :
    (s.start t routine k w).workers j = s.workers j :=
  Function.update_of_ne hj ..

theorem start_workers_next (w : Thread.State C Unit Unit) :
    (s.start t routine k w).workers s.worker.next =
      { started := ntSuccess (s.worker.obj.start s.worker.next () (some ()) k).2.1
        stops := s.stops } :=
  Function.update_self ..

end Start

section FreshStart

variable {t : Tid C} {routine : R} {k : StartOutcome}

/-- The worker of a successful `Start` is there, referenced and in the loop. -/
theorem started_next
    (h : ((s.start t routine k (s.worker.start () (some ()) k)).workers s.worker.next).started) :
    s.worker.obj.threadObject = none ∧ k.succeeds ∧
      s.worker.next < (s.worker.start () (some ()) k).next ∧
      ((s.worker.start () (some ()) k).thread s.worker.next).referenced ∧
      (s.start t routine k (s.worker.start () (some ()) k)).looping s.worker.next := by
  rw [start_workers_next] at h
  obtain ⟨hn, hk, o, th, hst, hp, hr⟩ := start_succeeds h
  have hth : (s.worker.start () (some ()) k).thread s.worker.next = th := by
    rw [hst, create_thread, if_pos rfl]
  refine ⟨hn, hk, ?_, by rw [hth]; exact hr, ?_⟩
  · rw [hst]
    exact Nat.lt_succ_self _
  · exact looping_eq (p := .entry) (by rw [start_worker, hth, hp])

/-- While `m_worker` has a thread, `Start` puts no other into the loop. -/
theorem not_looping_start (ht : Tracked s.worker) (ho : s.worker.obj.threadObject ≠ none) :
    ¬ (s.start t routine k (s.worker.start () (some ()) k)).looping s.worker.next := by
  have hw := (start_creates () (some ()) fun h : _ ∧ ntSuccess k.create => ho h.1).2
  have ha := (ht.fresh s.worker.next le_rfl).1
  rw [looping_eq (p := .absent) (by rw [start_worker, hw, ha])]
  exact Bool.noConfusion

theorem Fresh.start (hi : Fresh s) (hc : StartsFresh s (.start t routine k))
    (hs : Sound (s.start t routine k (s.worker.start () (some ()) k))) :
    Fresh (s.start t routine k (s.worker.start () (some ()) k)) := by
  refine ⟨hs, fun j h => ?_, fun j => ?_, fun j rest h => ?_, fun j h hx => ?_⟩
  · by_cases hj : j = s.worker.next
    · subst hj
      obtain ⟨-, -, hlt, hr, -⟩ := started_next h
      exact ⟨hlt, hr⟩
    · rw [start_workers_of_ne s t routine k _ hj] at h
      obtain ⟨hlt, hr⟩ := hi.created j h
      refine ⟨hlt.trans_le (next_le_start ..), ?_⟩
      rw [start_worker, start_thread_of_ne _ _ _ _ hj]
      exact hr
  · by_cases hj : j = s.worker.next
    · rw [hj, start_workers_next]
      exact le_rfl
    · rw [start_workers_of_ne s t routine k _ hj]
      exact hi.stops j
  · by_cases hj : j = s.worker.next
    · -- a worker that is not created yet has not failed
      have hsize : s.point s.worker.next = .size := hi.sound.entered _ (by
        rw [(hi.sound.tracked.fresh s.worker.next le_rfl).1]
        decide)
      rw [hj] at h
      cases hsize.symm.trans h
    · rw [start_workers_of_ne s t routine k _ hj]
      exact hi.failed j rest h
  · by_cases hj : j = s.worker.next
    · subst hj
      obtain ⟨hn, hk, -, -, hl⟩ := started_next h
      obtain ⟨hclear, hnone⟩ := hc hn hk
      refine ⟨hclear, hl, fun i hil => ?_⟩
      by_contra hne
      rw [looping_start_of_ne s t routine k hne] at hil
      exact hnone i hil
    · have hx' : ¬ Excused s j := by
        rw [Excused, start_workers_of_ne s t routine k _ hj] at hx
        exact hx
      rw [start_workers_of_ne s t routine k _ hj] at h
      obtain ⟨hclear, hl, hone⟩ := hi.live j h hx'
      refine ⟨hclear, (looping_start_of_ne s t routine k hj).trans hl, fun i hil => ?_⟩
      by_cases hin : i = s.worker.next
      · -- `m_worker` refuses to start another thread
        subst hin
        refine absurd hil (not_looping_start hi.sound.tracked ?_)
        rw [hi.tracked h hx']
        exact Option.some_ne_none j
      · rw [looping_start_of_ne s t routine k hin] at hil
        exact hone i hil

end FreshStart

theorem Fresh.step (hi : Fresh s) (hc : StartsFresh s a) (h : step s a = some s') : Fresh s' := by
  have hs := hi.sound.step h
  cases moves_of_step h with
  | start t routine k hm => exact hi.start hc hs
  | refused t wait hm hs' =>
    cases t <;> exact hi.call hs (.of_frame _ _) rfl rfl (.inr rfl)
  | stop t wait hm hs' => exact hi.call hs (.of_frame _ _) rfl rfl (.inr rfl)
  | enqueue t items hm =>
    exact hi.call hs (.of_frame _ _) rfl rfl (.inl ⟨rfl, by rw [Obj.enqueue_eq]⟩)
  | notify t wait hc => exact hi.call hs (.of_frame _ _) rfl rfl (.inl ⟨rfl, rfl⟩)
  | join t w hc hr hw =>
    cases t <;> exact hi.call hs hw.toWaits rfl rfl (.inl ⟨rfl, rfl⟩)
  | joining t w k hc hw => exact hi.call hs hw.toWaits rfl rfl (.inl ⟨rfl, rfl⟩)
  | waitReturns t status call k hc hf hw =>
    exact hi.call hs (.of_frame _ _) rfl rfl (.inl ⟨rfl, rfl⟩)
  | dereference t w call k hc hf hw =>
    cases t <;> exact hi.call hs hw.toWaits rfl rfl (.inl ⟨rfl, rfl⟩)
  | thread k w hl hw => exact hi.thread hs hl hw
  | worker k hr hp =>
    exact hi.move hs hr rfl rfl rfl (fun j => ⟨rfl, rfl, id⟩)
      (fun rest hq => absurd hq (hp.ne_fail rest)) hp.finished
  | @handled item rest k status hr _ hp =>
    refine hi.move hs hr rfl rfl rfl (fun j => ?_) (fun rest hq => ?_) fun hclear _ => ⟨hclear, ?_⟩
    · by_cases hj : j = k
      · subst hj
        exact ⟨by simp, by simp, fun h => by simp [h]⟩
      · simp [Function.update_of_ne hj]
    · have hst : status ≠ statusSuccess := by
        intro hst
        rw [if_neg (by simp [hst])] at hq
        cases hq
      simp [hst]
    · rw [hp]
      split_ifs <;> rfl

end Steps

section Runs

variable [DecidableEq C]

/-- **In every run whose successful `Start`s find `m_stopWorker` clear and no worker in the loop, a
worker leaves its loop only after a `Stop` since its `Start` or a failure of its routine.** -/
theorem restarts_of_startsFresh (as : List (Action C R ι))
    (hc : (system C R ι).Meets StartsFresh {} as) : (system C R ι).Always Restarts {} as := by
  have hk : (system C R ι).Keeps StartsFresh Fresh := fun _ _ _ hi hc h => hi.step hc h
  have h0 : Fresh ({} : State C R ι) :=
    ⟨sound_inductive.init _ rfl, nofun, fun _ => le_rfl, nofun, nofun⟩
  exact (hk.always h0 hc).mono fun _ => Fresh.restarts

end Runs

/-- A failed `Start`, a worker that leaves after a `Stop`, and one that fails. -/
theorem restarts_of_startsFresh_stop : (system Unit Unit ℕ).Always Restarts {}
    [.start (.caller ()) () {}, .start (.caller ()) () {}, .thread 0, .thread 0, .worker 0,
      .stop (.caller ()) true, .worker 0, .thread 0] :=
  restarts_of_startsFresh _ <|
    .cons rfl (fun _ _ => ⟨rfl, fun _ => Bool.noConfusion⟩) <|
    .cons rfl (fun h => by cases h) <|
    .cons rfl trivial <| .cons rfl trivial <| .cons rfl trivial <| .cons rfl trivial <|
    .cons rfl trivial <| .cons rfl trivial .nil

/-- **After a `Stop` a new worker leaves its loop although nothing has happened since.** -/
theorem not_restarts_stop : ¬ ∀ as, (system Unit Unit ℕ).Always Restarts {} as := by
  intro h
  have := (h [.stop (.caller ()) false, .notify (.caller ()), .start (.caller ()) () {},
    .thread 0, .thread 0, .worker 0, .worker 0]).last rfl
  have hx : Excused _ 0 := this 0 rfl Bool.noConfusion
  exact hx.elim (Nat.lt_irrefl 1) Bool.noConfusion

end Dpp.WorkQueue.Life
