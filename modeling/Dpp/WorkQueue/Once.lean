import Dpp.WorkQueue.Life
import Dpp.WorkQueue.WakeUp

/-!
# A life with one worker

As long as a `WorkQueue` has created at most one worker, and that one was referenced, its life is
a run of the worker: a `Stop(true)` that returns from `m_worker` without having waited finds no
worker, and one that has waited finds the worker out of its loop.

* `OneWorker`; `Refines`: a state of the life as a state of a run.
* **`simulates`**: every step of a life with one worker is a run of at most one step.
* **`asleep`**: what a run says about a sleeping worker, for the life.
-/

namespace Dpp.WorkQueue.Life

open Lib Thread

variable {C R ι : Type}

/-- At most one worker was created, and `ObReferenceObjectByHandle` did not fail for it. -/
structure OneWorker (s : State C R ι) : Prop where
  next : s.worker.next ≤ 1
  referenced : ∀ k < s.worker.next, (s.worker.thread k).referenced

/-! ## The run of the worker -/

/-- A caller of the run as a thread of the life. -/
def tid : Run.Caller C → Tid C
  | .thread c => .caller c
  | .worker => .created 0

theorem tid_injective : Function.Injective (tid : Run.Caller C → Tid C) := by
  intro t u h
  cases t <;> cases u <;> cases h <;> rfl

/-- A call of the life in the run, which knows neither `Start` nor the two ends of the wait. -/
def Call.run : Call → Run.Call
  | idle | stop => .idle
  | notify wait => .notify wait
  | join | joining => .join

/-- The place in the loop of a worker whose thread is at `p`. -/
def placeAt (p : Point) (q : WorkerPoint ι) : Option (WorkerPoint ι) :=
  match p with
  | .absent => none
  | .entry | .call => some .size
  | .routine => some q
  | .epilogue | .release | .terminate | .ended => some .left

/-- The place of the first worker, from its creation on. -/
def State.place (s : State C R ι) : Option (WorkerPoint ι) :=
  placeAt (s.worker.thread 0).point (s.point 0)

/-- `r` is the state of the run in `s`, with some history. -/
structure Refines (s : State C R ι) (r : Run.State C ι) : Prop where
  obj : r.obj = s.obj
  worker : r.worker = s.place
  call : ∀ t, r.call t = (s.call (tid t)).run

/-- What every run keeps about the calls in progress: a worker calls from `m_workerRoutine`, and a
wait that has returned has waited. -/
structure Orderly (s : State C R ι) : Prop where
  sound : Sound s
  calling : ∀ k, s.call (.created k) ≠ .idle →
    (s.worker.thread k).point = .routine ∧ (s.point k).handling
  waited : ∀ t call k, s.worker.frame t = .dereference call k →
    (s.worker.thread k).point = .ended

section Steps

variable {s s' : State C R ι} {a : Action C R ι} {r : Run.State C ι}

theorem place_eq {p : Point} (h : (s.worker.thread 0).point = p) :
    s.place = placeAt p (s.point 0) := by
  rw [State.place, h]

/-- The steps of the calls do not move the worker. -/
theorem place_of_waits (hw : Waits s.worker s'.worker) (hp : s'.point = s.point) :
    s'.place = s.place := by
  rcases hw.point 0 with h | ⟨h, h'⟩
  · rw [place_eq h, State.place, hp]
  · rw [place_eq h, place_eq h']
    rfl

theorem place_of_update {q : WorkerPoint ι} (hr : (s.worker.thread 0).point = .routine)
    (hw : s'.worker = s.worker) (hp : s'.point = Function.update s.point 0 q) :
    s'.place = some q := by
  rw [place_eq (p := .routine) (by rw [hw, hr]), hp, Function.update_self]
  rfl

/-- A thread that has been created is the worker. -/
theorem OneWorker.eq_zero (h1 : OneWorker s) (ht : Tracked s.worker) {k : ℕ}
    (hk : (s.worker.thread k).point ≠ .absent) : k = 0 := by
  have hlt : k < s.worker.next := by
    by_contra hle
    exact hk (ht.fresh k (by omega)).1
  have := h1.next
  omega

variable [DecidableEq C]

theorem handling_of_mayCall {k : ℕ} (h : s.mayCall (.created k)) :
    (s.worker.thread k).point = .routine ∧ (s.point k).handling := by
  simp only [State.mayCall, Thread.State.mayCall, Bool.and_eq_true, decide_eq_true_eq] at h
  exact ⟨h.1.2.2, h.2⟩

theorem calling_of_mayStop {t : Tid C} {wait : Bool} (h : s.mayStop t wait) :
    s.call t ≠ .idle ∨ s.mayCall t := by
  simp only [State.mayStop, Bool.or_eq_true, Bool.and_eq_true, decide_eq_true_eq] at h
  rcases h with h | ⟨h, -⟩
  · exact .inr h
  · exact .inl (by rw [h]; decide)

/-- A call in progress was in progress or could be made. -/
theorem Moves.calling (h : Moves s a s') {u : Tid C} (hu : s'.call u ≠ .idle) :
    s.call u ≠ .idle ∨ s.mayCall u := by
  have hupd : ∀ {t c}, s'.call = Function.update s.call t c → s.call t ≠ .idle ∨ s.mayCall t →
      s.call u ≠ .idle ∨ s.mayCall u := by
    intro t c hc ht
    rcases update_cases hc (t := u) rfl with ⟨rfl, -⟩ | ⟨-, hs⟩
    · exact ht
    · exact .inl (hs ▸ hu)
  cases h with
  | start t routine k hm => exact hupd rfl (.inr hm)
  | refused t wait hm hs => exact hupd (returns_call ..) (calling_of_mayStop hm)
  | stop t wait hm hs => exact hupd rfl (calling_of_mayStop hm)
  | enqueue t items hm => exact hupd rfl (.inr hm)
  | notify t wait hc => exact hupd rfl (.inl (by rw [hc]; nofun))
  | join t w hc hr hw => exact hupd (returns_call ..) (.inl (by rw [hc]; nofun))
  | joining t w k hc hw => exact hupd rfl (.inl (by rw [hc]; nofun))
  | dereference t w call k hc hf hw => exact hupd (returns_call ..) (.inl (by rw [hc]; nofun))
  | _ => exact .inl hu

/-- A worker stays in `m_workerRoutine` while it makes a call there. -/
theorem Moves.handling (h : Moves s a s') (ht : Tracked s.worker) {k : ℕ}
    (hr : (s.worker.thread k).point = .routine) (hh : (s.point k).handling)
    (hc : s'.call (.created k) ≠ .idle) :
    (s'.worker.thread k).point = .routine ∧ (s'.point k).handling := by
  have hwaits : ∀ {w : Thread.State C Unit Unit}, Waits s.worker w →
      (w.thread k).point = .routine := by
    intro w hw
    rcases hw.point k with h | ⟨h, -⟩
    · rw [h, hr]
    · rw [hr] at h; cases h
  have hpoint : ∀ {j p}, j ≠ k → ((s.setPoint j p).point k).handling := fun hjk =>
    (congrArg WorkerPoint.handling (Function.update_of_ne hjk.symm ..)).trans hh
  cases h with
  | start t routine o hm =>
    have hk : k ≠ s.worker.next := by
      rintro rfl
      rw [(ht.fresh _ le_rfl).1] at hr
      cases hr
    exact ⟨by rw [start_worker, start_thread_of_ne _ _ _ _ hk, hr], hh⟩
  | refused t => cases t <;> exact ⟨hr, hh⟩
  | join t w hc hr hw => cases t <;> exact ⟨hwaits hw.toWaits, hh⟩
  | joining t w j hc hw => exact ⟨hwaits hw.toWaits, hh⟩
  | dereference t w call j hc hf hw => cases t <;> exact ⟨hwaits hw.toWaits, hh⟩
  | thread j w hl hw =>
    have hjk : j ≠ k := by
      rintro rfl
      have := hl hr
      cases hp : s.point j <;> simp_all [WorkerPoint.handling, WorkerPoint.finished]
    refine ⟨?_, hh⟩
    rw [(intercepts_of_step hw).thread_of_ne hjk.symm, hr]
  | worker j hr' hp =>
    have hjk : j ≠ k := by
      rintro rfl
      cases hp' : s.point j <;> simp_all [WorkerPoint.handling]
      cases hp
    exact ⟨hr, hpoint hjk⟩
  | handled j status hr' hc' hp =>
    have hjk : j ≠ k := by
      rintro rfl
      exact hc hc'
    exact ⟨hr, hpoint hjk⟩
  | _ => exact ⟨hr, hh⟩

theorem Orderly.step (hi : Orderly s) (h : step s a = some s') : Orderly s' := by
  have hm := moves_of_step h
  refine ⟨hi.sound.step h, fun k hk => ?_, fun t call k hf => ?_⟩
  · have hs : (s.worker.thread k).point = .routine ∧ (s.point k).handling := by
      rcases hm.calling hk with hc | hc
      · exact hi.calling k hc
      · exact handling_of_mayCall hc
    exact hm.handling hi.sound.tracked hs.1 hs.2 hk
  · have hend : (s.worker.thread k).point = .ended → (s'.worker.thread k).point = .ended := by
      intro he
      have := hm.rank k fun hle => (hi.sound.tracked.fresh k hle).1
      rw [he] at this
      revert this
      cases (s'.worker.thread k).point <;> decide
    rcases hm.frame t with ⟨hs, -⟩ | hs | ⟨-, -, -, j, -, hs⟩ | ⟨c, j, status, -, -, hw, he, hs⟩
    · exact hend (hi.waited t call k (hs ▸ hf))
    · rw [hs] at hf; cases hf
    · rw [hs] at hf; cases hf
    · rw [hs] at hf
      cases hf
      obtain rfl := hi.sound.untimed _ _ _ hw
      exact hend (ended_of_waitEnds he rfl)

/-! ## One step -/

/-- A call in progress, or one that can be made, is a call of the run. -/
theorem exists_tid (hi : Orderly s) (h1 : OneWorker s) {t : Tid C}
    (ht : s.call t ≠ .idle ∨ s.mayCall t) : ∃ u, tid u = t := by
  cases t with
  | caller c => exact ⟨.thread c, rfl⟩
  | created k =>
    have hr : (s.worker.thread k).point = .routine := by
      rcases ht with h | h
      · exact (hi.calling k h).1
      · exact (handling_of_mayCall h).1
    obtain rfl := h1.eq_zero hi.sound.tracked (by rw [hr]; nofun)
    exact ⟨.worker, rfl⟩

theorem Refines.mayCall (hR : Refines s r) (hi : Orderly s) {u : Run.Caller C}
    (hc : (s.call (tid u)).run = .idle) (ht : s.call (tid u) ≠ .idle ∨ s.mayCall (tid u)) :
    r.mayCall u := by
  simp only [Run.State.mayCall, hR.call, hc, decide_true, Bool.true_and]
  cases u with
  | thread c => rfl
  | worker =>
    have hh : (s.worker.thread 0).point = .routine ∧ (s.point 0).handling := by
      rcases ht with h | h
      · exact hi.calling 0 h
      · exact handling_of_mayCall h
    rw [Run.State.handling, hR.worker, place_eq hh.1]
    exact hh.2

omit [DecidableEq C] in
theorem Refines.gone (hR : Refines s r) (h : s.place = none ∨ s.place = some .left) : r.gone := by
  rw [Run.State.gone, hR.worker]
  rcases h with h | h
  · rw [h]
  · rw [h]

/-- A step of the call of `u`. -/
theorem Refines.update (hR : Refines s r) {r' : Run.State C ι} {u : Run.Caller C} {c : Call}
    (hc : s'.call = Function.update s.call (tid u) c) (hp : s'.place = s.place)
    (ho : r'.obj = s'.obj) (hw : r'.worker = r.worker)
    (hr : r'.call = Function.update r.call u c.run) : Refines s' r' := by
  refine ⟨ho, by rw [hw, hR.worker, hp], fun v => ?_⟩
  rw [hc, hr]
  by_cases hv : v = u
  · rw [hv, Function.update_self, Function.update_self]
  · rw [Function.update_of_ne hv, Function.update_of_ne (tid_injective.ne hv), hR.call]

theorem Refines.call_stay (hR : Refines s r) {t : Tid C} {c : Call}
    (hc : s'.call = Function.update s.call t c) (hrun : c.run = (s.call t).run)
    (v : Run.Caller C) : r.call v = (s'.call (tid v)).run := by
  rw [hc, hR.call]
  by_cases hv : tid v = t
  · rw [hv, Function.update_self, hrun]
  · rw [Function.update_of_ne hv]

/-- A step the run does not see. -/
theorem Refines.stay (hR : Refines s r) {t : Tid C} {c : Call}
    (hc : s'.call = Function.update s.call t c) (hrun : c.run = (s.call t).run)
    (hp : s'.place = s.place) (ho : s'.obj = s.obj) : Refines s' r :=
  ⟨hR.obj.trans ho.symm, hR.worker.trans hp.symm, hR.call_stay hc hrun⟩

omit [DecidableEq C] in
/-- Where `Stop(true)` finds no thread object, no worker was created. -/
theorem Orderly.place_of_join (hi : Orderly s) (h1 : OneWorker s) {c : C}
    (hj : s.call (.caller c) = .join) (ho : s.worker.obj.threadObject = none) :
    s.place = none := by
  have ha : (s.worker.thread 0).point = .absent := by
    by_contra hne
    have hlt : 0 < s.worker.next := by
      by_contra hle
      exact hne (hi.sound.tracked.fresh 0 (by omega)).1
    cases hh : (s.worker.thread 0).handedOver with
    | false =>
      have := (hi.sound.tracked.object 0).mpr ⟨h1.referenced 0 hlt, hh⟩
      rw [ho] at this
      cases this
    | true =>
      have := (hi.sound.taken 0 hh).2 (.caller c) (by rw [hj]; rfl)
      rw [hj] at this
      cases this
  exact place_eq ha

omit [DecidableEq C] in
/-- Where a wait has returned, the worker is out of its loop. -/
theorem Orderly.place_of_dereference (hi : Orderly s) (h1 : OneWorker s) {t : Tid C}
    {call : WaitCall} {k : ℕ} (hf : s.worker.frame t = .dereference call k) :
    s.place = some .left := by
  have he := hi.waited t call k hf
  obtain rfl := h1.eq_zero hi.sound.tracked (by rw [he]; nofun)
  exact place_eq he

omit [DecidableEq C] in
/-- The steps of `InterceptorThreadRoutine` do not move the worker in its loop. -/
theorem place_of_intercepts (hi : Sound s) {w : Thread.State C Unit Unit}
    (hl : (s.worker.thread 0).point = .routine → (s.point 0).finished)
    (hw : Intercepts s.worker 0 false w) :
    ({ s with worker := w } : State C R ι).place = s.place := by
  cases hw with
  | identify hp =>
    rw [place_eq hp, place_eq (setPoint_point ..)]
    rfl
  | call hp =>
    rw [place_eq hp, place_eq (setPoint_point ..)]
    exact congrArg some (hi.entered 0 (by rw [hp]; decide))
  | returned hp =>
    have hf := hl hp
    have hleft : s.point 0 = .left := by
      cases h : s.point 0 <;> simp_all [WorkerPoint.finished]
    rw [place_eq hp, place_eq (setPoint_point ..), hleft]
    rfl
  | clear hp =>
    rw [place_eq hp]
    change placeAt ((s.worker.setPoint 0 .terminate).thread 0).point (s.point 0) = _
    rw [setPoint_point]
    rfl
  | terminate hp =>
    rw [place_eq hp, place_eq (setPoint_point ..)]
    rfl

/-- The run gets from `r` to a state that `s'` refines. -/
def Matched (s' : State C R ι) (r : Run.State C ι) : Prop :=
  ∃ as r', (Run.system C ι).exec r as = some r' ∧ Refines s' r'

theorem Matched.stay (hR : Refines s' r) : Matched s' r := ⟨[], r, rfl, hR⟩

theorem Matched.step {b : Run.Action C ι} {r' : Run.State C ι} (hb : Run.step r b = some r')
    (hR : Refines s' r') : Matched s' r := by
  refine ⟨[b], r', ?_, hR⟩
  change (Run.step r b).bind some = some r'
  rw [hb, Option.bind_some]

/-- `Start` creates the one worker, or leaves it alone. -/
theorem Refines.start (hR : Refines s r) (hi : Orderly s) {t : Tid C} {routine : R}
    {k : StartOutcome} (hm : s.mayCall t)
    (h1 : OneWorker (s.start t routine k (s.worker.start () (some ()) k))) :
    Matched (s.start t routine k (s.worker.start () (some ()) k)) r := by
  have hrun : ∀ b : Bool, (if b then Call.stop else .idle).run = (s.call t).run := by
    intro b
    rw [call_of_mayCall hm]
    cases b <;> rfl
  have hcall : ∀ v, r.call v =
      ((s.start t routine k (s.worker.start () (some ()) k)).call (tid v)).run :=
    hR.call_stay rfl (hrun _)
  rcases start_cases s.worker () (some ()) k with ⟨-, hw⟩ | ⟨-, o, hw, -⟩ | ⟨-, o, th, hw, hp, -⟩
  · rw [hw] at hcall ⊢
    exact .stay ⟨hR.obj, hR.worker, hcall⟩
  · rw [hw] at hcall ⊢
    exact .stay ⟨hR.obj, hR.worker, hcall⟩
  · have hnext : s.worker.next = 0 := by
      have := h1.next
      rw [start_worker, hw, create_next] at this
      omega
    have hnone : r.worker = none :=
      hR.worker.trans (place_eq (hi.sound.tracked.fresh 0 hnext.le).1)
    have hr : Run.step r .start = some { r with worker := some .size } := by
      rw [Run.step, hnone]
    refine .step hr ⟨hR.obj, ?_, hcall⟩
    have hentry : ((s.worker.create o th).thread 0).point = .entry := by
      rw [create_thread, if_pos hnext.symm, hp]
    rw [hw]
    exact (place_eq (s := s.start t routine k (s.worker.create o th)) hentry).symm

/-- The guard block of `Stop`. -/
theorem Refines.stop (hR : Refines s r) (hi : Orderly s) (h1 : OneWorker s) {t : Tid C}
    {wait : Bool} (hm : s.mayStop t wait) : Matched (s.stop t wait) r := by
  have hcall := calling_of_mayStop hm
  obtain ⟨u, rfl⟩ := exists_tid hi h1 hcall
  have hc : (s.call (tid u)).run = .idle := by
    rcases call_of_mayStop hm with h | h
    · rw [h]; rfl
    · rw [h]; rfl
  have hr : Run.step r (.stop u wait) = some (r.stop u wait) := by
    rw [Run.step, if_pos (hR.mayCall hi hc hcall)]
  refine .step hr ?_
  rcases s.obj.stop_cases with ⟨-, h⟩ | ⟨-, h⟩
  · rw [State.stop, Run.State.stop, hR.obj, h]
    refine hR.stay (returns_call ..) hc.symm ?_ (returns_obj ..)
    exact place_of_waits (by rw [returns_worker]; exact .of_frame _ _) (returns_point ..)
  · rw [State.stop, Run.State.stop, hR.obj, h]
    exact hR.update (u := u) (c := .notify wait) rfl rfl rfl rfl rfl

/-- The return of a `Stop(true)` that has waited, or had nothing to wait for. -/
theorem Refines.returns (hR : Refines s r) {u : Run.Caller C} {w : Thread.State C Unit Unit}
    (hc : (s.call (tid u)).run = .join) (hg : r.gone ∨ u = .worker) (hw : Waits s.worker w) :
    Matched ({ s with worker := w }.returns (tid u) true) r := by
  have hr : Run.step r (.join u) = some (r.setCall u .idle) := by
    rw [Run.step, if_pos ⟨(hR.call u).trans hc, hg⟩]
  refine .step hr (hR.update (u := u) (c := .idle) (returns_call ..) ?_
    (by rw [returns_obj]; exact hR.obj) rfl rfl)
  exact place_of_waits (by rw [returns_worker]; exact hw) (returns_point ..)

/-- An access of the worker. -/
theorem Refines.access (hR : Refines s r) {o : Obj ι} {p : WorkerPoint ι}
    (hr : (s.worker.thread 0).point = .routine) (hp : WorkerPoint.Access s.obj (s.point 0) o p) :
    Matched { s.setPoint 0 p with obj := o } r := by
  have hplace : r.worker = some (s.point 0) := hR.worker.trans (place_eq hr)
  have hw : Run.step r .worker = some
      { r with obj := o, worker := some p, handled := r.handled ++ p.called } := by
    simp only [Run.step, hplace, hR.obj, hp.step]
  refine .step hw ⟨rfl, Eq.symm ?_, hR.call⟩
  exact place_of_update hr rfl rfl

/-- The return of `m_workerRoutine`. -/
theorem Refines.handled (hR : Refines s r) {item : ι} {rest : List ι} {status : NtStatus}
    (hr : (s.worker.thread 0).point = .routine) (hc : s.call (.created 0) = .idle)
    (hp : s.point 0 = .handle item rest) {workers : ℕ → Worker} :
    Matched { s.setPoint 0 (if status ≠ statusSuccess then .fail rest else .drain rest) with
      workers } r := by
  have hplace : r.worker = some (.handle item rest) := by
    rw [hR.worker, place_eq hr, hp]
    rfl
  have hidle : r.call .worker = .idle := by
    rw [hR.call, tid, hc]
    rfl
  have hw : Run.step r (.handled status) = some
      { r with worker := some (if status ≠ statusSuccess then .fail rest else .drain rest) } := by
    simp only [Run.step, hplace, WorkerPoint.handled, hidle, if_true]
  refine .step hw ⟨hR.obj, Eq.symm ?_, hR.call⟩
  exact place_of_update hr rfl rfl

/-- **A step of a life with one worker is a run of at most one step.** -/
theorem Refines.step (hR : Refines s r) (hi : Orderly s) (h1 : OneWorker s) (h1' : OneWorker s')
    (h : step s a = some s') : Matched s' r := by
  have hzero : ∀ {k}, (s.worker.thread k).point ≠ .absent → k = 0 :=
    h1.eq_zero hi.sound.tracked
  cases moves_of_step h with
  | start t routine k hm => exact hR.start hi hm h1'
  | refused t wait hm hs =>
    have hstop : s.stop t wait = { s with stops := s.stops + 1 }.returns t wait := by
      simp [State.stop, Obj.stop, hs]
    exact hstop ▸ hR.stop hi h1 hm
  | stop t wait hm hs =>
    have hstop : s.stop t wait = { s.setCall t (.notify wait) with
        stops := s.stops + 1
        obj := { s.obj with stopWorker := true } } := by
      simp [State.stop, Obj.stop, hs, State.setCall]
    exact hstop ▸ hR.stop hi h1 hm
  | enqueue t items hm =>
    have hcall : s.call t ≠ .idle ∨ s.mayCall t := .inr hm
    obtain ⟨u, rfl⟩ := exists_tid hi h1 hcall
    have hc : (s.call (tid u)).run = .idle := by rw [call_of_mayCall hm]; rfl
    have hr : Run.step r (.enqueue u items) = some (r.enqueue u items) := by
      rw [Run.step, if_pos (hR.mayCall hi hc hcall)]
    exact .step hr (hR.update (u := u) (c := .notify false) rfl rfl
      (by rw [Run.State.enqueue, hR.obj]) rfl rfl)
  | notify t wait hc =>
    obtain ⟨u, rfl⟩ := exists_tid hi h1 (.inl (by rw [hc]; simp))
    have hr : Run.step r (.notify u) = some (r.notify u wait) := by
      rw [Run.step, hR.call, hc]
      rfl
    refine .step hr (hR.update (u := u) (c := if wait then .join else .idle) rfl rfl
      (by rw [Run.State.notify, hR.obj]) rfl ?_)
    cases wait <;> rfl
  | join t w hc hr hw =>
    obtain ⟨u, rfl⟩ := exists_tid hi h1 (.inl (by rw [hc]; simp))
    refine hR.returns (by rw [hc]; rfl) ?_ hw.toWaits
    cases u with
    | worker => exact .inr rfl
    | thread c =>
      have ho := hr.resolve_left (hi.sound.tracked.caller c)
      exact .inl (hR.gone (.inl (hi.place_of_join h1 hc ho)))
  | joining t w k hc hw =>
    refine .stay (hR.stay (t := t) (c := .joining) rfl (by rw [hc]; rfl) ?_ rfl)
    exact place_of_waits hw.toWaits rfl
  | waitReturns t status call k hc hf hw => exact .stay ⟨hR.obj, hR.worker, hR.call⟩
  | dereference t w call k hc hf hw =>
    obtain ⟨u, rfl⟩ := exists_tid hi h1 (.inl (by rw [hc]; simp))
    have hgone : r.gone := hR.gone (.inr (hi.place_of_dereference h1 hf))
    exact hR.returns (by rw [hc]; rfl) (.inl hgone) hw.toWaits
  | thread k w hl hw =>
    have hmove := intercepts_of_step hw
    obtain rfl : k = 0 := hzero fun ha => by cases hmove <;> simp_all
    have hplace : ({ s with worker := w } : State C R ι).place = s.place :=
      place_of_intercepts hi.sound hl hmove
    exact .stay ⟨hR.obj, hR.worker.trans hplace.symm, hR.call⟩
  | worker k hr hp =>
    obtain rfl : k = 0 := hzero (by rw [hr]; decide)
    exact hR.access hr hp
  | handled k status hr hc hp =>
    obtain rfl : k = 0 := hzero (by rw [hr]; decide)
    exact hR.handled hr hc hp

/-- A life that has created one worker has created at most one before. -/
theorem OneWorker.of_step (h1 : OneWorker s') (h : step s a = some s') : OneWorker s := by
  rcases thread_step h with hw | ⟨b, hw⟩
  · exact ⟨hw ▸ h1.next, hw ▸ h1.referenced⟩
  · rcases Thread.step_cases hw with ⟨_, _, _, _, o, th, -, -, hc, -⟩ | hf
    · have hn : s.worker.next = 0 := by
        have := h1.next
        rw [hc, create_next] at this
        omega
      exact ⟨hn.le.trans zero_le_one, fun k hk => by omega⟩
    · refine ⟨hf.next ▸ h1.next, fun k hk => ?_⟩
      rw [← (hf.thread k).referenced]
      exact h1.referenced k (hf.next ▸ hk)

end Steps

/-! ## Whole lives -/

variable [DecidableEq C]

/-- **A life is a run of the worker as long as it has one worker.** -/
theorem simulates : (system C R ι).Simulates (Run.system C ι)
    fun s r => Orderly s ∧ (OneWorker s → Refines s r) := by
  refine ⟨fun s h0 => ?_, fun s a s' r ⟨hi, hR⟩ h => ?_⟩
  · obtain rfl := h0
    refine ⟨{}, rfl, ?_, fun _ => ⟨rfl, rfl, fun t => rfl⟩⟩
    exact ⟨sound_inductive.init _ rfl, fun k h => absurd rfl h, nofun⟩
  · by_cases h1' : OneWorker s'
    · have h1 : OneWorker s := h1'.of_step h
      obtain ⟨as, r', he, hR'⟩ := (hR h1).step hi h1 h1' h
      exact ⟨as, r', he, hi.step h, fun _ => hR'⟩
    · exact ⟨[], r, rfl, hi.step h, fun h1 => absurd h1 h1'⟩

/-- **In a life with one worker, a worker that sleeps with the event not signaled and no `Notify`
outstanding has missed nothing**: the queue is empty and `m_stopWorker` is clear. -/
theorem asleep {s : State C R ι} (hr : (system C R ι).Reach s) (h1 : OneWorker s)
    (hw : s.place = some .wait) (he : s.obj.wakeEvent.signaled = false)
    (hn : ∀ t wait, s.call t ≠ .notify wait) : s.obj.queue = [] ∧ s.obj.stopWorker = false := by
  obtain ⟨r, hr, -, hR⟩ := simulates.reach hr
  obtain ⟨hobj, hworker, hcall⟩ := hR h1
  have ha : Run.Awake r := Run.awake_inductive.reach hr
  rw [← hobj] at he ⊢
  refine ha.asleep (hworker.trans hw) he ?_
  rintro ⟨t, wait, ht⟩
  rw [hcall] at ht
  cases hc : s.call (tid t) with
  | notify wait => exact hn _ wait hc
  | _ => rw [hc] at ht; cases ht

end Dpp.WorkQueue.Life
