import Dpp.Deque.Run
import Dpp.WorkQueue.Delivery

/-!
# The work queue on deques

`WorkQueue` and its worker with the deques they have, instead of lists: the same accesses, and
`none` where an operation on a deque is undefined.

* `Obj`, `Items`, `Point`, `State`, `Action`, `step`, `system`: the members, the worker with its
  `doQueue`, the callers, and their steps; `Action.onLists`: an action as one on lists.
* `Rel`: the deques hold the lists; `Fits`: no list that is copied is too long for the iterators.
* **`run_rel`**: a run is possible on deques exactly if it is possible on lists.
-/

namespace Dpp.WorkQueue.Deques

open Lib

variable {C ι : Type} {k : ℕ}

/-! ## The members and the worker -/

/-- The members of `WorkQueue` that its callers and its worker share. -/
structure Obj (ι : Type) (k : ℕ) where
  queue : Deque ι k
  wakeEvent : KEvent := {}
  stopWorker : Bool := false

/-- The deque holds the list. -/
abbrev Holds (d : Deque ι k) (l : List ι) : Prop := Deque.Holds (fun _ => True) d l

/-- What one `Enqueue` is given: a `WorkItem` or a deque of them. -/
inductive Items (ι : Type) (k : ℕ)
  | item (x : ι)
  | deque (items : {d : Deque ι k // ∃ l, Holds d l})

/-- The items as those of a list. -/
def Items.onLists : Items ι k → WorkQueue.Items ι
  | item x => .item x
  | deque items => .deque items.val.toList

namespace Obj

/-- The guard blocks of the two `Enqueue`s. -/
def enqueue (o : Obj ι k) : Items ι k → Option (Obj ι k)
  | .item x => do
    let queue ← o.queue.emplaceBack x
    return { o with queue }
  | .deque items => do
    let queue ← o.queue.insertEnd items.val items.val.mItBegin items.val.mItEnd
    return { o with queue }

/-- The guard block of `Stop`, and whether `Stop` goes on after it. -/
def stop (o : Obj ι k) : Obj ι k × Bool :=
  if o.stopWorker then (o, false) else ({ o with stopWorker := true }, true)

/-- `m_wakeEvent.Notify()`. -/
def notify (o : Obj ι k) : Obj ι k := { o with wakeEvent := o.wakeEvent.set.1 }

end Obj

/-- Where a worker is in `WorkerInterceptorRoutine`, as in `WorkerPoint`, with the deque `doQueue`
from its constructor at the head of the loop to its destructor. -/
inductive Point (ι : Type) (k : ℕ)
  | size
  | stop (doQueue : Deque ι k)
  | reset (doQueue : Deque ι k)
  | wait (doQueue : Deque ι k)
  | take (doQueue : Deque ι k)
  | drain (doQueue : Deque ι k)
  | handle (item : ι) (doQueue : Deque ι k)
  | fail (doQueue : Deque ι k)
  | left

namespace Point

/-- The next access of the worker; inside `m_workerRoutine` it has none of its own. -/
def step (o : Obj ι k) : Point ι k → Option (Obj ι k × Point ι k)
  | size => do
    let doQueue ← Deque.doInit
    return (o, if o.queue.size = 0 then stop doQueue else take doQueue)
  | stop doQueue =>
    if o.stopWorker then doQueue.destruct.map fun _ => (o, left) else some (o, reset doQueue)
  | reset doQueue =>
    let (e, previous) := o.wakeEvent.reset
    some ({ o with wakeEvent := e }, if previous = 0 then wait doQueue else take doQueue)
  | wait doQueue =>
    if o.wakeEvent.signaled then doQueue.destruct.map fun _ => (o, size) else none
  | take doQueue => do
    let doQueue ← doQueue.assign o.queue
    let queue ← o.queue.clear
    return ({ o with queue }, drain doQueue)
  | drain doQueue =>
    if 0 < doQueue.size then doQueue.front.map fun item => (o, handle item doQueue)
    else doQueue.destruct.map fun _ => (o, size)
  | handle .. => none
  | fail doQueue => do
    let doQueue ← doQueue.popFront
    return ({ o with stopWorker := true }, drain doQueue)
  | left => none

/-- `m_workerRoutine(item)` returns `status`. -/
def handled (status : NtStatus) : Point ι k → Option (Point ι k)
  | handle _ doQueue =>
    if status ≠ statusSuccess then some (fail doQueue) else doQueue.popFront.map drain
  | _ => none

/-- In `m_workerRoutine`. -/
def handling : Point ι k → Bool
  | handle .. => true
  | _ => false

/-- The item `m_workerRoutine` has just been called for. -/
def called : Point ι k → List ι
  | handle item _ => [item]
  | _ => []

/-- The items of `doQueue` that `m_workerRoutine` has not yet been called for. -/
def pending : Point ι k → List ι
  | drain doQueue => doQueue.toList
  | handle _ doQueue | fail doQueue => doQueue.toList.tail
  | _ => []

end Point

/-! ## The callers -/

/-- The members, the worker, the calls in progress, and what was appended and handled. -/
structure State (C ι : Type) (k : ℕ) where
  obj : Obj ι k
  worker : Option (Point ι k) := none
  call : Run.Caller C → Run.Call := fun _ => .idle
  appended : List (List ι) := []
  handled : List ι := []

/-- The steps of the callers and of the worker. -/
inductive Action (C ι : Type) (k : ℕ)
  | start
  | worker
  | handled (status : NtStatus)
  | enqueue (t : Run.Caller C) (items : Items ι k)
  | stop (t : Run.Caller C) (wait : Bool)
  | notify (t : Run.Caller C)
  | join (t : Run.Caller C)

/-- The same step of callers and a worker that have lists. -/
def Action.onLists : Action C ι k → Run.Action C ι
  | start => .start
  | worker => .worker
  | handled status => .handled status
  | enqueue t items => .enqueue t items.onLists
  | stop t wait => .stop t wait
  | notify t => .notify t
  | join t => .join t

namespace State

variable (s : State C ι k)

/-- In `m_workerRoutine`. -/
def handling : Bool :=
  match s.worker with
  | some p => p.handling
  | none => false

/-- The worker has not been started or has left its loop. -/
def gone : Bool :=
  match s.worker with
  | none | some .left => true
  | _ => false

/-- The items the worker has taken and not yet called `m_workerRoutine` for. -/
def pending : List ι :=
  match s.worker with
  | some p => p.pending
  | none => []

variable [DecidableEq C]

/-- `m_workerRoutine` calls only while it runs. -/
def mayCall (t : Run.Caller C) : Bool :=
  s.call t = .idle &&
    match t with
    | .thread _ => true
    | .worker => s.handling

def setCall (t : Run.Caller C) (c : Run.Call) : State C ι k :=
  { s with call := Function.update s.call t c }

/-- The guard block of `Enqueue`. -/
def enqueue (t : Run.Caller C) (items : Items ι k) : Option (State C ι k) := do
  let obj ← s.obj.enqueue items
  return { s.setCall t (.notify false) with
    obj, appended := s.appended ++ [items.onLists.toList] }

/-- The guard block of `Stop`. -/
def stop (t : Run.Caller C) (wait : Bool) : State C ι k :=
  match s.obj.stop with
  | (_, false) => s
  | (o, true) => { s.setCall t (.notify wait) with obj := o }

/-- `Notify`, the last step of a call that does not wait. -/
def notify (t : Run.Caller C) (wait : Bool) : State C ι k :=
  { s.setCall t (if wait then .join else .idle) with obj := s.obj.notify }

end State

/-- The steps of the callers and of the worker. `Stop` in the worker itself does not wait. -/
def step [DecidableEq C] (s : State C ι k) : Action C ι k → Option (State C ι k)
  | .start =>
    match s.worker with
    | none => some { s with worker := some .size }
    | some _ => none
  | .worker => do
    let p ← s.worker
    let (o, p) ← p.step s.obj
    return { s with obj := o, worker := some p, handled := s.handled ++ p.called }
  | .handled status => do
    let p ← s.worker
    let p ← p.handled status
    if s.call .worker = .idle then some { s with worker := some p } else none
  | .enqueue t items => if s.mayCall t then s.enqueue t items else none
  | .stop t wait => if s.mayCall t then some (s.stop t wait) else none
  | .notify t =>
    match s.call t with
    | .notify wait => some (s.notify t wait)
    | _ => none
  | .join t =>
    if s.call t = .join ∧ (s.gone ∨ t = .worker) then some (s.setCall t .idle) else none

variable (C ι k) in
/-- A queue from its constructor on. -/
def system [DecidableEq C] : System (State C ι k) (Action C ι k) where
  init s := ∃ queue, Deque.doInit = some queue ∧ s = { obj := { queue } }
  step := step

/-! ## What the deques hold -/

/-- The members hold what the members with a list hold. -/
structure Obj.Rel (o : Obj ι k) (o' : WorkQueue.Obj ι) : Prop where
  queue : Holds o.queue o'.queue
  wakeEvent : o.wakeEvent = o'.wakeEvent
  stopWorker : o.stopWorker = o'.stopWorker

/-- The worker is at the same place; where there is a `doQueue`, it holds the list. The item
`m_workerRoutine` is called for stays in front of it until the call has returned. -/
inductive Point.Rel : Point ι k → WorkerPoint ι → Prop
  | size : Point.Rel .size .size
  | stop {d : Deque ι k} (h : Holds d []) : Point.Rel (.stop d) .stop
  | reset {d : Deque ι k} (h : Holds d []) : Point.Rel (.reset d) .reset
  | wait {d : Deque ι k} (h : Holds d []) : Point.Rel (.wait d) .wait
  | take {d : Deque ι k} (h : Holds d []) : Point.Rel (.take d) .take
  | drain {d : Deque ι k} {l : List ι} (h : Holds d l) : Point.Rel (.drain d) (.drain l)
  | handle {d : Deque ι k} {item : ι} {l : List ι} (h : Holds d (item :: l)) :
      Point.Rel (.handle item d) (.handle item l)
  | fail {d : Deque ι k} {item : ι} {l : List ι} (h : Holds d (item :: l)) :
      Point.Rel (.fail d) (.fail l)
  | left : Point.Rel .left .left

/-- The state of a queue with deques against one with lists. -/
structure Rel (s : State C ι k) (t : Run.State C ι) : Prop where
  obj : s.obj.Rel t.obj
  worker : Option.Rel Point.Rel s.worker t.worker
  call : s.call = t.call
  appended : s.appended = t.appended
  handled : s.handled = t.handled

/-- What is copied, to the queue or from it to `doQueue`, has at most 16777216 items. -/
def Fits (t : Run.State C ι) : Run.Action C ι → Prop
  | .worker => t.worker = some .take → t.obj.queue.length ≤ 16777216
  | .enqueue _ items => items.toList.length ≤ 16777216
  | _ => True

section

variable {o : Obj ι k} {o' : WorkQueue.Obj ι} {p : Point ι k} {p' : WorkerPoint ι}

theorem enqueue_rel (hk : k ∣ 16777216) (h : o.Rel o') (items : Items ι k)
    (hn : items.onLists.toList.length ≤ 16777216) :
    ∃ o₁, o.enqueue items = some o₁ ∧ o₁.Rel (o'.enqueue items.onLists) := by
  cases items with
  | item x =>
    obtain ⟨queue, hq, hh⟩ := h.queue.emplaceBack x fun _ _ => trivial
    refine ⟨{ o with queue }, ?_, hh, h.wakeEvent, h.stopWorker⟩
    rw [Obj.enqueue, hq]
    rfl
  | deque items =>
    obtain ⟨d, l, hl⟩ := items
    have hlist : d.toList = l := hl.toList hk
    replace hn : d.toList.length ≤ 16777216 := hn
    obtain ⟨queue, hq, hh⟩ := h.queue.insertEnd hl hk (hlist ▸ hn) fun _ _ => trivial
    refine ⟨{ o with queue }, ?_, ?_, h.wakeEvent, h.stopWorker⟩
    · rw [Obj.enqueue, hq]
      rfl
    · show Holds queue (o'.queue ++ d.toList)
      rwa [hlist]

theorem destruct_rel {d : Deque ι k} {l : List ι} (h : Holds d l) : ∃ d', d.destruct = some d' := by
  obtain ⟨⟨s, hs⟩, -⟩ := h
  obtain ⟨d', hd', -⟩ := hs.destruct
  exact ⟨d', hd'⟩

theorem Point.Rel.called (h : p.Rel p') : p.called = p'.called := by
  cases h <;> rfl

theorem Point.Rel.handling (h : p.Rel p') : p.handling = p'.handling := by
  cases h <;> rfl

/-- An access of the worker. -/
theorem point_step (hk : k ∣ 16777216) (ho : o.Rel o') (hp : p.Rel p')
    (hn : p' = .take → o'.queue.length ≤ 16777216) :
    Option.Rel (fun x y => x.1.Rel y.1 ∧ x.2.Rel y.2) (p.step o) (p'.step o') := by
  have hk0 : 0 < k := Nat.pos_of_dvd_of_pos hk (by omega)
  cases hp with
  | size =>
    obtain ⟨d, hd, hh⟩ := Deque.holds_doInit (T := ι) (B := fun _ => True) hk0 trivial
    have hsize : o.queue.size = o'.queue.length := (ho.queue.reads hk).size
    rw [Point.step, hd, WorkerPoint.step]
    refine .some ⟨ho, ?_⟩
    by_cases hl : o'.queue.length = 0
    · rw [if_pos (by rw [hsize, hl]; rfl), if_pos hl]
      exact .stop hh
    · rw [if_neg (by omega), if_neg hl]
      exact .take hh
  | stop h =>
    obtain ⟨d', hd'⟩ := destruct_rel h
    rw [Point.step, WorkerPoint.step, ho.stopWorker]
    split_ifs
    · rw [hd']
      exact .some ⟨ho, .left⟩
    · exact .some ⟨ho, .reset h⟩
  | reset h =>
    have hobj : Obj.Rel { o with wakeEvent := o.wakeEvent.reset.1 }
        { o' with wakeEvent := o'.wakeEvent.reset.1 } :=
      ⟨ho.queue, by rw [ho.wakeEvent], ho.stopWorker⟩
    simp only [Point.step, WorkerPoint.step]
    refine .some ⟨hobj, ?_⟩
    rw [ho.wakeEvent]
    split_ifs
    · exact .wait h
    · exact .take h
  | wait h =>
    obtain ⟨d', hd'⟩ := destruct_rel h
    rw [Point.step, WorkerPoint.step, ho.wakeEvent]
    split_ifs
    · rw [hd']
      exact .some ⟨ho, .size⟩
    · exact .none
  | take h =>
    obtain ⟨doQueue, hd, hh⟩ := h.assign ho.queue hk (Nat.zero_le _) (hn rfl) fun _ _ => trivial
    obtain ⟨queue, hq, hc⟩ := ho.queue.clear
    rw [Point.step, hd, WorkerPoint.step]
    simp only [Option.bind_eq_bind, Option.bind_some, hq, Option.pure_def]
    exact .some ⟨⟨hc, ho.wakeEvent, ho.stopWorker⟩, .drain hh⟩
  | @drain d l h =>
    have hr := h.reads hk
    rw [Point.step, hr.size]
    cases l with
    | nil =>
      obtain ⟨d', hd'⟩ := destruct_rel h
      rw [if_neg (by simp), hd']
      exact .some ⟨ho, .size⟩
    | cons item l =>
      rw [if_pos (by simp), hr.front item rfl]
      exact .some ⟨ho, .handle h⟩
  | handle h => exact .none
  | fail h =>
    obtain ⟨d', hd', hh⟩ := h.popFront (List.cons_ne_nil _ _)
    rw [Point.step, hd', WorkerPoint.step]
    exact .some ⟨⟨ho.queue, ho.wakeEvent, rfl⟩, .drain hh⟩
  | left => exact .none

/-- The return of `m_workerRoutine`. -/
theorem point_handled (status : NtStatus) (hp : p.Rel p') :
    Option.Rel Point.Rel (p.handled status) (p'.handled status) := by
  cases hp with
  | handle h =>
    obtain ⟨d', hd', hh⟩ := h.popFront (List.cons_ne_nil _ _)
    rw [Point.handled, WorkerPoint.handled]
    split_ifs
    · exact .some (.fail h)
    · rw [hd']
      exact .some (.drain hh)
  | _ => exact .none

end

section

variable {s : State C ι k} {t : Run.State C ι}

theorem Rel.handling (h : Rel s t) : s.handling = t.handling := by
  have hw := h.worker
  rw [State.handling, Run.State.handling]
  generalize s.worker = w at hw
  generalize t.worker = w' at hw
  cases hw with
  | none => rfl
  | some hp => exact hp.handling

theorem Rel.gone (h : Rel s t) : s.gone = t.gone := by
  have hw := h.worker
  rw [State.gone, Run.State.gone]
  generalize s.worker = w at hw
  generalize t.worker = w' at hw
  cases hw with
  | none => rfl
  | some hp => cases hp <;> rfl

theorem Rel.pending (h : Rel s t) (hk : k ∣ 16777216) : s.pending = t.pending := by
  have hw := h.worker
  rw [State.pending, Run.State.pending]
  generalize s.worker = w at hw
  generalize t.worker = w' at hw
  cases hw with
  | none => rfl
  | some hp =>
    cases hp with
    | drain h => exact h.toList hk
    | handle h => exact congrArg List.tail (h.toList hk)
    | fail h => exact congrArg List.tail (h.toList hk)
    | _ => rfl

theorem Rel.mayCall (h : Rel s t) (c : Run.Caller C) : s.mayCall c = t.mayCall c := by
  cases c with
  | thread c => simp only [State.mayCall, Run.State.mayCall, h.call]
  | worker => simp only [State.mayCall, Run.State.mayCall, h.call, h.handling]

variable [DecidableEq C]

theorem Rel.setCall (h : Rel s t) (c : Run.Caller C) (call : Run.Call) :
    Rel (s.setCall c call) (t.setCall c call) :=
  ⟨h.obj, h.worker, by rw [State.setCall, h.call]; rfl, h.appended, h.handled⟩

/-- A step is possible on deques exactly if it is possible on lists, and leads to related states. -/
theorem step_rel (hk : k ∣ 16777216) (h : Rel s t) (a : Action C ι k)
    (hE : ∀ t', Run.step t a.onLists = some t' → Fits t a.onLists) :
    Option.Rel Rel (step s a) (Run.step t a.onLists) := by
  cases a with
  | start =>
    have hw := h.worker
    simp only [step, Run.step, Action.onLists]
    generalize s.worker = w at hw
    generalize t.worker = w' at hw
    cases hw with
    | none => exact .some ⟨h.obj, .some .size, h.call, h.appended, h.handled⟩
    | some hp => exact .none
  | worker =>
    have hw := h.worker
    cases hs : s.worker with
    | none =>
      rw [hs] at hw
      cases ht : t.worker with
      | none => simp only [step, Run.step, Action.onLists, hs, ht]; exact .none
      | some p' => rw [ht] at hw; cases hw
    | some p =>
      rw [hs] at hw
      cases ht : t.worker with
      | none => rw [ht] at hw; cases hw
      | some p' =>
        rw [ht] at hw
        cases hw with
        | some hp =>
          have hn : p' = .take → t.obj.queue.length ≤ 16777216 := fun hp' => by
            subst hp'
            exact hE _ (by simp only [Action.onLists, Run.step, ht, WorkerPoint.step]; rfl) ht
          have hstep := point_step hk h.obj hp hn
          simp only [step, Run.step, Action.onLists, hs, ht, Option.bind_eq_bind, Option.bind_some]
          generalize p.step s.obj = x at hstep
          generalize p'.step t.obj = y at hstep
          cases hstep with
          | none => exact .none
          | some hxy =>
            exact .some ⟨hxy.1, .some hxy.2, h.call, h.appended, by rw [h.handled, hxy.2.called]⟩
  | handled status =>
    have hw := h.worker
    simp only [step, Run.step, Action.onLists, h.call]
    generalize s.worker = w at hw
    generalize t.worker = w' at hw
    cases hw with
    | none => exact .none
    | @some p p' hp =>
      have hstep := point_handled status hp
      simp only [Option.bind_eq_bind, Option.bind_some]
      generalize p.handled status = x at hstep
      generalize p'.handled status = y at hstep
      cases hstep with
      | none => exact .none
      | some hxy =>
        simp only [Option.bind_some]
        split_ifs
        · exact .some ⟨h.obj, .some hxy, rfl, h.appended, h.handled⟩
        · exact .none
  | enqueue c items =>
    have hE' : t.mayCall c → items.onLists.toList.length ≤ 16777216 := fun hc =>
      hE _ (if_pos hc)
    simp only [step, Run.step, Action.onLists, h.mayCall]
    split_ifs with hc
    · obtain ⟨o, ho, hobj⟩ := enqueue_rel hk h.obj items (hE' hc)
      rw [State.enqueue, ho]
      exact .some ⟨hobj, h.worker, (h.setCall c _).call, by rw [h.appended]; rfl, h.handled⟩
    · exact .none
  | stop c wait =>
    simp only [step, Run.step, Action.onLists, h.mayCall]
    split_ifs with hc
    · refine .some ?_
      rw [State.stop, Obj.stop, Run.State.stop, WorkQueue.Obj.stop, h.obj.stopWorker]
      cases t.obj.stopWorker with
      | true => exact h
      | false =>
        exact ⟨⟨h.obj.queue, h.obj.wakeEvent, rfl⟩, h.worker, (h.setCall c _).call, h.appended,
          h.handled⟩
    · exact .none
  | notify c =>
    simp only [step, Run.step, Action.onLists, h.call]
    cases t.call c with
    | notify wait =>
      exact .some ⟨⟨h.obj.queue, by rw [State.notify, Obj.notify, h.obj.wakeEvent]; rfl,
        h.obj.stopWorker⟩, h.worker, (h.setCall c _).call, h.appended, h.handled⟩
    | _ => exact .none
  | join c =>
    simp only [step, Run.step, Action.onLists, h.call, h.gone]
    split_ifs with hc
    · exact .some (h.setCall c _)
    · exact .none

/-! ## Runs -/

/-- Runs from related states. -/
theorem exec_rel (hk : k ∣ 16777216) (h : Rel s t) {as : List (Action C ι k)}
    (hE : (Run.system C ι).Meets Fits t (as.map Action.onLists)) :
    Option.Rel Rel ((system C ι k).exec s as)
      ((Run.system C ι).exec t (as.map Action.onLists)) :=
  System.exec_rel (fun _ _ a hR hE => step_rel hk hR a hE) h hE

theorem init_rel (hk : k ∣ 16777216) (h₀ : (system C ι k).init s) : Rel s {} := by
  obtain ⟨queue, hq, rfl⟩ := h₀
  have hk0 : 0 < k := Nat.pos_of_dvd_of_pos hk (by omega)
  obtain ⟨d, hd, hh⟩ := Deque.holds_doInit (T := ι) (B := fun _ => True) hk0 trivial
  obtain rfl : d = queue := Option.some.inj (hd.symm.trans hq)
  exact ⟨⟨hh, rfl, rfl⟩, .none, rfl, rfl, rfl⟩

/-- **A run of the queue with deques is possible exactly if it is one with lists**, whatever the
threads do in whatever order, and ends with deques that hold the lists, as long as no more than
16777216 items are copied at once. -/
theorem run_rel (hk : k ∣ 16777216) (h₀ : (system C ι k).init s) {as : List (Action C ι k)}
    (hE : (Run.system C ι).Meets Fits {} (as.map Action.onLists)) :
    Option.Rel Rel ((system C ι k).exec s as)
      ((Run.system C ι).exec {} (as.map Action.onLists)) :=
  exec_rel hk (init_rel hk h₀) hE

/-- An item alone and a deque of two, handed to the worker. -/
def twoCalls (items : Items ℕ k) : List (Action Unit ℕ k) :=
  [.start, .enqueue (.thread ()) (.item 5), .notify (.thread ()), .worker, .worker,
    .enqueue (.thread ()) items, .worker, .handled statusSuccess, .worker, .worker, .worker,
    .worker, .handled statusSuccess]

theorem twoCalls_fits (hk : k ∣ 16777216) : ∃ items : Items ℕ k,
    (Run.system Unit ℕ).Meets Fits {} ((twoCalls items).map Action.onLists) ∧
    ∃ t, (Run.system Unit ℕ).exec {} ((twoCalls items).map Action.onLists) = some t ∧
      t.handled = [5, 6] := by
  have hk0 : 0 < k := Nat.pos_of_dvd_of_pos hk (by omega)
  obtain ⟨d, -, hd⟩ := Deque.holds_doInit (T := ℕ) (B := fun _ => True) hk0 trivial
  obtain ⟨x, -, hx⟩ := Deque.emplaceAll_eq [6, 7] hd
  have hlist : x.toList = [6, 7] := hx.toList hk
  have hmap : (twoCalls (.deque ⟨x, _, hx⟩)).map Action.onLists =
      [.start, .enqueue (.thread ()) (.item 5), .notify (.thread ()), .worker, .worker,
        .enqueue (.thread ()) (.deque [6, 7]), .worker, .handled statusSuccess, .worker, .worker,
        .worker, .worker, .handled statusSuccess] := by
    simp only [twoCalls, List.map_cons, List.map_nil, Action.onLists, Items.onLists, hlist]
  have hle : ∀ n, n < 3 → n ≤ 16777216 := fun n hn => by omega
  refine ⟨.deque ⟨x, _, hx⟩, ?_, ?_⟩ <;> rw [hmap]
  · exact .cons rfl trivial (.cons rfl (hle 1 (by decide)) (.cons rfl trivial (.cons rfl nofun
      (.cons rfl (fun _ => hle 1 (by decide)) (.cons rfl (hle 2 (by decide)) (.cons rfl nofun
      (.cons rfl trivial (.cons rfl nofun (.cons rfl nofun
      (.cons rfl (fun _ => hle 2 (by decide)) (.cons rfl nofun (.cons rfl trivial .nil))))))))))))
  · exact ⟨_, rfl, rfl⟩

theorem twoCalls_rel : ∃ (s₀ s : State Unit ℕ (Deque.defaultSubarraySize 24))
    (items : Items ℕ (Deque.defaultSubarraySize 24)), (system Unit ℕ _).init s₀ ∧
      (system Unit ℕ _).exec s₀ (twoCalls items) = some s ∧ s.handled = [5, 6] := by
  have hk := Deque.defaultSubarraySize_dvd 24
  obtain ⟨d, hd, -⟩ := Deque.holds_doInit (T := ℕ) (k := Deque.defaultSubarraySize 24)
    (B := fun _ => True) (by decide) trivial
  obtain ⟨items, hE, t, ht, hhandled⟩ := twoCalls_fits hk
  have hrel := run_rel hk ⟨d, hd, rfl⟩ hE
  rw [ht] at hrel
  generalize hs : (system Unit ℕ _).exec _ _ = o at hrel
  cases hrel with
  | some hR => exact ⟨_, _, items, ⟨d, hd, rfl⟩, hs, hR.handled.trans hhandled⟩

end

end Dpp.WorkQueue.Deques
