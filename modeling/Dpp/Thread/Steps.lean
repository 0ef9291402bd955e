import Dpp.Thread.Model
import Mathlib.Tactic.SplitIfs

/-!
# What the steps of a `Thread` do

One lemma for each function of the model, and the invariant every run keeps.

* `start_cases`, `takeThreadObject_cases`, `finish_thread`, `Intercepts`: the functions.
* `Fades`: a step that creates no thread; **`step_cases`**: every step creates one or fades.
* **`Tracked`**: `m_threadObject` is the one thread whose reference was taken and not handed over;
  `tracked_inductive`.
-/

namespace Dpp.Thread

open Lib

variable {C R A : Type}

theorem update_cases {α β : Type} [DecidableEq α] {f g : α → β} {a t : α} {x y : β}
    (h : g = Function.update f a x) (hy : g t = y) : (t = a ∧ y = x) ∨ (t ≠ a ∧ f t = y) := by
  subst h hy
  by_cases hta : t = a
  · subst hta
    exact .inl ⟨rfl, Function.update_self ..⟩
  · exact .inr ⟨hta, (Function.update_of_ne hta ..).symm⟩

/-! ## The functions -/

section Functions

variable {s s' : State C R A}

theorem modify_thread (s : State C R A) (k j : ℕ) (f : KThread A → KThread A) :
    (s.modify k f).thread j = if j = k then f (s.thread k) else s.thread j :=
  Function.update_apply ..

theorem setPoint_self (s : State C R A) (k : ℕ) (p : Point) :
    (s.setPoint k p).thread k = { s.thread k with point := p } := by
  rw [State.setPoint, modify_thread, if_pos rfl]

theorem setPoint_of_ne (s : State C R A) {k j : ℕ} (hj : j ≠ k) (p : Point) :
    (s.setPoint k p).thread j = s.thread j := by
  rw [State.setPoint, modify_thread, if_neg hj]

theorem setPoint_point (s : State C R A) (k : ℕ) (p : Point) :
    ((s.setPoint k p).thread k).point = p := by
  rw [setPoint_self]

theorem create_thread (s : State C R A) (o : Obj C R A) (th : KThread A) (j : ℕ) :
    (s.create o th).thread j = if j = s.next then th else s.thread j := Function.update_apply ..

@[simp] theorem create_obj (o : Obj C R A) (th : KThread A) : (s.create o th).obj = o := rfl

@[simp] theorem create_next (o : Obj C R A) (th : KThread A) :
    (s.create o th).next = s.next + 1 := rfl

@[simp] theorem create_frame (o : Obj C R A) (th : KThread A) :
    (s.create o th).frame = s.frame := rfl

@[simp] theorem create_dtor (o : Obj C R A) (th : KThread A) :
    (s.create o th).dtor = s.dtor := rfl

/-- **`Start`** refuses, fails before it creates a thread, or creates one, which is
`m_threadObject` afterwards if it was referenced. -/
theorem start_cases (s : State C R A) (routine : R) (args : Option A) (k : StartOutcome) :
    (s.obj.threadObject ≠ none ∧ s.start routine args k = s) ∨
      (s.obj.threadObject = none ∧ ∃ o, s.start routine args k = { s with obj := o } ∧
        o.threadObject = none) ∨
      (s.obj.threadObject = none ∧ ∃ o th, s.start routine args k = s.create o th ∧
        th.point = .entry ∧ th.args = args ∧ th.handedOver = false ∧
        o.threadContext = args ∧ o.threadObject = if th.referenced then some s.next else none) := by
  by_cases ho : s.obj.threadObject = none
  · simp only [State.start, Obj.start, ho, ne_eq, not_true_eq_false, if_false]
    cases hc : ntSuccess k.create with
    | false => exact .inr (.inl ⟨trivial, _, rfl, rfl⟩)
    | true =>
      cases hr : ntSuccess k.reference with
      | false => exact .inr (.inr ⟨trivial, _, _, rfl, rfl, rfl, rfl, rfl, rfl⟩)
      | true => exact .inr (.inr ⟨trivial, _, _, rfl, rfl, rfl, rfl, rfl, rfl⟩)
  · exact .inl ⟨ho, by simp [State.start, Obj.start, ho]⟩

theorem start_threadId (s : State C R A) (routine : R) (args : Option A) (k : StartOutcome) :
    (s.start routine args k).obj.threadId = s.obj.threadId := by
  unfold State.start Obj.start
  split_ifs <;> rfl

/-- What the kernel has to return for a `Start` to succeed. -/
def StartOutcome.succeeds (k : StartOutcome) : Bool :=
  ntSuccess k.create && ntSuccess k.reference && ntSuccess k.close

/-- **A `Start` returns success** when `m_threadObject` is null and the kernel does its part, and
has then created a referenced thread. -/
theorem start_succeeds {routine : R} {args : Option A} {k : StartOutcome}
    (h : ntSuccess (s.obj.start s.next routine args k).2.1) :
    s.obj.threadObject = none ∧ k.succeeds ∧ ∃ o th, s.start routine args k = s.create o th ∧
      th.point = .entry ∧ th.referenced := by
  have hu : ntSuccess statusUnsuccessful = false := rfl
  unfold State.start
  unfold Obj.start at h ⊢
  split_ifs at h ⊢ with ho hc hr
  · rw [hu] at h; cases h
  · simp [h] at hc
  · simp [h] at hr
  · simp only [Bool.not_eq_true', Bool.not_eq_false] at hc hr
    exact ⟨by simpa using ho, by simp [StartOutcome.succeeds, hc, hr, h], _, _, rfl, rfl, rfl⟩

/-- A thread is created when `m_threadObject` is null and `PsCreateSystemThread` succeeds. -/
theorem start_creates (routine : R) (args : Option A) {k : StartOutcome}
    (h : ¬ (s.obj.threadObject = none ∧ ntSuccess k.create)) :
    (s.start routine args k).next = s.next ∧ (s.start routine args k).thread = s.thread := by
  unfold State.start Obj.start
  split_ifs with ho hc
  · exact ⟨rfl, rfl⟩
  · exact ⟨rfl, rfl⟩
  all_goals exact absurd ⟨by simpa using ho, by simpa using hc⟩ h

theorem next_le_start (s : State C R A) (routine : R) (args : Option A) (k : StartOutcome) :
    s.next ≤ (s.start routine args k).next := by
  rcases start_cases s routine args k with ⟨-, h⟩ | ⟨-, o, h, -⟩ | ⟨-, o, th, h, -⟩
  · rw [h]
  · rw [h]
  · rw [h]; exact Nat.le_succ _

/-- `Start` touches no thread but the one it creates. -/
theorem start_thread_of_ne (s : State C R A) (routine : R) (args : Option A) (k : StartOutcome)
    {j : ℕ} (hj : j ≠ s.next) : (s.start routine args k).thread j = s.thread j := by
  rcases start_cases s routine args k with ⟨-, h⟩ | ⟨-, o, h, -⟩ | ⟨-, o, th, h, -⟩
  · rw [h]
  · rw [h]
  · rw [h, create_thread, if_neg hj]

@[simp] theorem start_frame (s : State C R A) (routine : R) (args : Option A) (k : StartOutcome) :
    (s.start routine args k).frame = s.frame := by
  rcases start_cases s routine args k with ⟨-, h⟩ | ⟨-, o, h, -⟩ | ⟨-, o, th, h, -⟩ <;> simp [h]

@[simp] theorem start_dtor (s : State C R A) (routine : R) (args : Option A) (k : StartOutcome) :
    (s.start routine args k).dtor = s.dtor := by
  rcases start_cases s routine args k with ⟨-, h⟩ | ⟨-, o, h, -⟩ | ⟨-, o, th, h, -⟩ <;> simp [h]

theorem start_refused (o : Obj C R A) (h : o.threadObject ≠ none) (new : ℕ) (routine : R)
    (args : Option A) (k : StartOutcome) :
    o.start new routine args k = (o, statusUnsuccessful, none) := by
  simp [Obj.start, h]

/-- The steps of `InterceptorThreadRoutine` in thread `k`: its two guard blocks, the call and the
return of the routine, and `PsTerminateSystemThread`. -/
inductive Intercepts (s : State C R A) (k : ℕ) (last : Bool) : State C R A → Prop
  | identify (hp : (s.thread k).point = .entry) :
      Intercepts s k last { s.setPoint k .call with obj.threadId := some (.created k) }
  | call (hp : (s.thread k).point = .call) : Intercepts s k last (s.setPoint k .routine)
  | returned (hp : (s.thread k).point = .routine) : Intercepts s k last (s.setPoint k .epilogue)
  | clear (hp : (s.thread k).point = .epilogue) :
      Intercepts s k last
        { s.setPoint k (if last && s.obj.threadContext.isSome then .release else .terminate) with
          obj := { s.obj with threadId := none, threadContext := none } }
  | terminate (hp : (s.thread k).point = .terminate) : Intercepts s k last (s.setPoint k .ended)

theorem intercepts_of_step {k : ℕ} {last : Bool}
    (h : s.interceptorThreadRoutine k last = some s') : Intercepts s k last s' := by
  unfold State.interceptorThreadRoutine at h
  split at h
  · cases h; exact .identify ‹_›
  · cases h; exact .call ‹_›
  · split_ifs at h
    cases h
    exact .returned ‹_›
  · cases h; exact .clear ‹_›
  · cases h; exact .terminate ‹_›
  all_goals cases h

/-- A created thread moves no other. -/
theorem Intercepts.thread_of_ne {k j : ℕ} {last : Bool} (h : Intercepts s k last s')
    (hj : j ≠ k) : s'.thread j = s.thread j := by
  cases h
  all_goals exact setPoint_of_ne s hj _

variable [DecidableEq C]

/-- **The guard block of a wait** returns with the members as they were, or takes
`m_threadObject`. -/
theorem takeThreadObject_cases (o : Obj C R A) (t : Tid C) :
    ((o.threadId = some t ∨ o.threadObject = none) ∧
        o.takeThreadObject t = (o, .returns statusUnsuccessful)) ∨
      ∃ k, o.threadId ≠ some t ∧ o.threadObject = some k ∧
        o.takeThreadObject t = ({ o with threadObject := none }, .waits k) := by
  unfold Obj.takeThreadObject
  split_ifs with hi
  · exact .inl ⟨.inl hi, rfl⟩
  · cases ho : o.threadObject with
    | none => exact .inl ⟨.inr rfl, rfl⟩
    | some k => exact .inr ⟨k, hi, rfl, rfl⟩

@[simp] theorem finish_obj (t : Tid C) (call : WaitCall) : (s.finish t call).obj = s.obj := by
  unfold State.finish
  split_ifs
  · cases t with
    | caller c => rfl
    | created k => dsimp only; split_ifs <;> rfl
  · rfl

@[simp] theorem finish_next (t : Tid C) (call : WaitCall) : (s.finish t call).next = s.next := by
  unfold State.finish
  split_ifs
  · cases t with
    | caller c => rfl
    | created k => dsimp only; split_ifs <;> rfl
  · rfl

@[simp] theorem finish_frame (t : Tid C) (call : WaitCall) :
    (s.finish t call).frame = Function.update s.frame t .idle := by
  unfold State.finish
  split_ifs
  · cases t with
    | caller c => rfl
    | created k => dsimp only; split_ifs <;> rfl
  · rfl

@[simp] theorem finish_dtor (t : Tid C) (call : WaitCall) :
    (s.finish t call).dtor = if call = .dtor then .destroyed t else s.dtor := by
  unfold State.finish
  split_ifs
  · cases t with
    | caller c => rfl
    | created k => dsimp only; split_ifs <;> rfl
  · rfl

/-- A call that returns leaves the threads alone, but for the end of a `~Thread` in an epilogue. -/
theorem finish_thread (s : State C R A) (t : Tid C) (call : WaitCall) (j : ℕ) :
    (s.finish t call).thread j = s.thread j ∨
      t = .created j ∧ (s.thread j).point = .release ∧
        (s.finish t call).thread j = { s.thread j with point := .terminate } := by
  unfold State.finish
  split_ifs
  · cases t with
    | caller c => exact .inl rfl
    | created k =>
      dsimp only
      split_ifs with hr
      · by_cases hj : j = k
        · subst hj
          exact .inr ⟨rfl, hr, setPoint_self ..⟩
        · exact .inl (setPoint_of_ne s hj _)
      · exact .inl rfl
  · exact .inl rfl

end Functions

/-! ## All steps -/

/-- The places of `InterceptorThreadRoutine` in their order. -/
def Point.rank : Point → ℕ
  | absent | entry => 0
  | call => 1
  | routine => 2
  | epilogue => 3
  | release => 4
  | terminate => 5
  | ended => 6

/-- Up to the return of the routine. -/
def Point.working : Point → Bool
  | entry | call | routine => true
  | _ => false

/-- `b` is the thread `a` after a step of its own or of a caller: it has not gone back. -/
structure KThread.Fades (a b : KThread A) : Prop where
  args : b.args = a.args
  referenced : b.referenced = a.referenced
  absent : a.point = .absent ↔ b.point = .absent
  rank : a.point.rank ≤ b.point.rank

theorem KThread.Fades.refl (a : KThread A) : a.Fades a := ⟨rfl, rfl, .rfl, le_rfl⟩

theorem KThread.Fades.trans {a b c : KThread A} (h : a.Fades b) (h' : b.Fades c) : a.Fades c :=
  ⟨h'.args.trans h.args, h'.referenced.trans h.referenced, h.absent.trans h'.absent,
    h.rank.trans h'.rank⟩

theorem Point.accessing_of_rank {p q : Point} (ha : p = .absent ↔ q = .absent)
    (hr : p.rank ≤ q.rank) : q.accessing → p.accessing := by
  revert ha hr
  cases p <;> cases q <;> decide

theorem Point.working_of_rank {p q : Point} (ha : p = .absent ↔ q = .absent)
    (hr : p.rank ≤ q.rank) : q.working → p.working := by
  revert ha hr
  cases p <;> cases q <;> decide

theorem KThread.Fades.accessing {a b : KThread A} (h : a.Fades b) :
    b.point.accessing → a.point.accessing := Point.accessing_of_rank h.absent h.rank

theorem KThread.Fades.working {a b : KThread A} (h : a.Fades b) :
    b.point.working → a.point.working := Point.working_of_rank h.absent h.rank

/-- A step that creates no thread and hands over at most `m_threadObject`. -/
structure Fades (s s' : State C R A) : Prop where
  next : s'.next = s.next
  thread : ∀ j, (s.thread j).Fades (s'.thread j)
  object : (s'.obj.threadObject = s.obj.threadObject ∧
      ∀ j, (s'.thread j).handedOver = (s.thread j).handedOver) ∨
    ∃ k, s.obj.threadObject = some k ∧ s'.obj.threadObject = none ∧
      ∀ j, (s'.thread j).handedOver = ((s.thread j).handedOver || decide (j = k))

section Steps

variable [DecidableEq C] {s s' : State C R A} {a : Action C R A}

omit [DecidableEq C] in
theorem fades_modify {k : ℕ} {f : KThread A → KThread A} (h : (s.thread k).Fades (f (s.thread k)))
    (j : ℕ) : (s.thread j).Fades ((s.modify k f).thread j) := by
  rw [modify_thread]
  split_ifs with hj
  · rw [hj]; exact h
  · exact .refl _

omit [DecidableEq C] in
theorem handedOver_modify (s : State C R A) (k : ℕ) (f : KThread A → KThread A)
    (h : (f (s.thread k)).handedOver = (s.thread k).handedOver) (j : ℕ) :
    ((s.modify k f).thread j).handedOver = (s.thread j).handedOver := by
  rw [modify_thread]
  split_ifs with hj
  · rw [hj, h]
  · rfl

omit [DecidableEq C] in
theorem handedOver_setPoint (s : State C R A) (k : ℕ) (p : Point) (j : ℕ) :
    ((s.setPoint k p).thread j).handedOver = (s.thread j).handedOver :=
  handedOver_modify s k _ rfl j

omit [DecidableEq C] in
/-- Moving thread `k` on in `InterceptorThreadRoutine`. -/
theorem fades_setPoint {k : ℕ} {p : Point} (ha : (s.thread k).point ≠ .absent) (hp : p ≠ .absent)
    (hr : (s.thread k).point.rank ≤ p.rank) (j : ℕ) :
    (s.thread j).Fades ((s.setPoint k p).thread j) ∧
      ((s.setPoint k p).thread j).handedOver = (s.thread j).handedOver :=
  ⟨fades_modify ⟨rfl, rfl, iff_of_false ha hp, hr⟩ j, handedOver_setPoint s k p j⟩

theorem fades_finish (s : State C R A) (t : Tid C) (call : WaitCall) (j : ℕ) :
    (s.thread j).Fades ((s.finish t call).thread j) ∧
      ((s.finish t call).thread j).handedOver = (s.thread j).handedOver := by
  rcases finish_thread s t call j with h | ⟨-, hr, h⟩
  · rw [h]; exact ⟨.refl _, rfl⟩
  · rw [h]; exact ⟨⟨rfl, rfl, by simp [hr], by simp [hr, Point.rank]⟩, rfl⟩

omit [DecidableEq C] in
theorem fades_interceptorThreadRoutine {k : ℕ} {last : Bool}
    (h : s.interceptorThreadRoutine k last = some s') : Fades s s' := by
  have hf : ∀ p, s'.next = s.next → s'.thread = (s.setPoint k p).thread →
      s'.obj.threadObject = s.obj.threadObject → (s.thread k).point ≠ .absent → p ≠ .absent →
      (s.thread k).point.rank ≤ p.rank → Fades s s' := by
    intro p hn ht ho ha hp hr
    exact ⟨hn, fun j => by rw [ht]; exact (fades_setPoint ha hp hr j).1,
      .inl ⟨ho, fun j => by rw [ht]; exact (fades_setPoint ha hp hr j).2⟩⟩
  cases intercepts_of_step h with
  | identify hp => exact hf .call rfl rfl rfl (by simp [hp]) nofun (by rw [hp]; decide)
  | call hp => exact hf .routine rfl rfl rfl (by simp [hp]) nofun (by rw [hp]; decide)
  | returned hp => exact hf .epilogue rfl rfl rfl (by simp [hp]) nofun (by rw [hp]; decide)
  | clear hp =>
    refine hf _ rfl rfl rfl (by simp [hp]) ?_ ?_
    · split_ifs <;> nofun
    · rw [hp]
      split_ifs <;> decide
  | terminate hp => exact hf .ended rfl rfl rfl (by simp [hp]) nofun (by rw [hp]; decide)

omit [DecidableEq C] in
theorem interceptorThreadRoutine_handedOver {k : ℕ} {last : Bool}
    (h : s.interceptorThreadRoutine k last = some s') (j : ℕ) :
    (s'.thread j).handedOver = (s.thread j).handedOver := by
  cases intercepts_of_step h
  all_goals exact handedOver_setPoint s k _ j

omit [DecidableEq C] in
theorem interceptorThreadRoutine_frame {k : ℕ} {last : Bool}
    (h : s.interceptorThreadRoutine k last = some s') : s'.frame = s.frame ∧ s'.dtor = s.dtor := by
  cases intercepts_of_step h
  all_goals exact ⟨rfl, rfl⟩

/-- The steps of the wait calls: `m_threadId` and `m_threadContext` stay, and threads move only
out of a `~Thread` in their epilogue. -/
structure Waits (s s' : State C R A) : Prop extends Fades s s' where
  threadId : s'.obj.threadId = s.obj.threadId
  threadContext : s'.obj.threadContext = s.obj.threadContext
  point : ∀ j, (s'.thread j).point = (s.thread j).point ∨
    (s.thread j).point = .release ∧ (s'.thread j).point = .terminate

omit [DecidableEq C] in
theorem Waits.of_frame (s : State C R A) (frame : Tid C → Frame) : Waits s { s with frame } :=
  ⟨⟨rfl, fun _ => .refl _, .inl ⟨rfl, fun _ => rfl⟩⟩, rfl, rfl, fun _ => .inl rfl⟩

/-- A call of `t` returns. -/
structure Returns (s s' : State C R A) (t : Tid C) (call : WaitCall) : Prop
    extends Waits s s' where
  handedOver : ∀ j, (s'.thread j).handedOver = (s.thread j).handedOver
  frame : s'.frame = Function.update s.frame t .idle
  dtor : s'.dtor = if call = .dtor then .destroyed t else s.dtor

/-- A wait call of `t` leaves its guard block with `m_threadObject`, which was `k`. -/
structure Takes (s s' : State C R A) (t : Tid C) (call : WaitCall) (k : ℕ) : Prop
    extends Waits s s' where
  identity : s.obj.threadId ≠ some t
  taken : s.obj.threadObject = some k
  handedOver : ∀ j, (s'.thread j).handedOver = ((s.thread j).handedOver || decide (j = k))
  frame : s'.frame = Function.update s.frame t (.wait call k)
  dtor : s'.dtor = if call = .dtor then .destroying t else s.dtor

theorem returns_finish (s : State C R A) (t : Tid C) (call : WaitCall) :
    Returns s (s.finish t call) t call := by
  have hh : ∀ j, ((s.finish t call).thread j).handedOver = (s.thread j).handedOver := fun j =>
    (fades_finish s t call j).2
  have hf : Fades s (s.finish t call) := ⟨finish_next .., fun j => (fades_finish s t call j).1,
    .inl ⟨by rw [finish_obj], hh⟩⟩
  refine ⟨⟨hf, by rw [finish_obj], by rw [finish_obj], fun j => ?_⟩, hh, finish_frame ..,
    finish_dtor ..⟩
  rcases finish_thread s t call j with h | ⟨-, hr, h⟩
  · exact .inl (by rw [h])
  · exact .inr ⟨hr, by rw [h]⟩

omit [DecidableEq C] in
theorem point_modify (s : State C R A) (k : ℕ) (f : KThread A → KThread A)
    (h : (f (s.thread k)).point = (s.thread k).point) (j : ℕ) :
    ((s.modify k f).thread j).point = (s.thread j).point := by
  rw [modify_thread]
  split_ifs with hj
  · rw [hj, h]
  · rfl

theorem returns_dereference (s : State C R A) (t : Tid C) (call : WaitCall) (k : ℕ) :
    Returns s ((s.modify k fun th => { th with refs := th.refs - 1 }).finish t call) t call := by
  have ht : ∀ j, (s.thread j).Fades
      ((s.modify k fun th => { th with refs := th.refs - 1 }).thread j) :=
    fades_modify ⟨rfl, rfl, .rfl, le_rfl⟩
  have hm := handedOver_modify s k (fun th => { th with refs := th.refs - 1 }) rfl
  have hp := point_modify s k (fun th => { th with refs := th.refs - 1 }) rfl
  have hf := returns_finish (s.modify k fun th => { th with refs := th.refs - 1 }) t call
  have hh := fun j => (hf.handedOver j).trans (hm j)
  refine ⟨⟨⟨hf.next, fun j => (ht j).trans (hf.thread j), .inl ⟨by rw [finish_obj]; rfl, hh⟩⟩,
    hf.threadId, hf.threadContext, fun j => ?_⟩, hh, hf.frame, hf.dtor⟩
  rw [← hp j]
  exact hf.point j

/-- **A wait call** returns at once or takes `m_threadObject`. -/
theorem wait_cases (s : State C R A) (t : Tid C) (call : WaitCall) :
    ((s.obj.threadId = some t ∨ s.obj.threadObject = none) ∧
        Returns s (s.wait t call) t call) ∨
      ∃ k, Takes s (s.wait t call) t call k := by
  unfold State.wait
  rcases takeThreadObject_cases s.obj t with ⟨hr, h⟩ | ⟨k, hid, hk, h⟩
  · rw [h]
    exact .inl ⟨hr, returns_finish s t call⟩
  · rw [h]
    have ht : ∀ j, (s.thread j).Fades
        ((s.modify k fun th => { th with handedOver := true }).thread j) :=
      fades_modify ⟨rfl, rfl, .rfl, le_rfl⟩
    have hh : ∀ j, ((s.modify k fun th => { th with handedOver := true }).thread j).handedOver =
        ((s.thread j).handedOver || decide (j = k)) := by
      intro j
      rw [modify_thread]
      split_ifs with hj
      · simp [hj]
      · simp [hj]
    have hp := point_modify s k (fun th => { th with handedOver := true }) rfl
    exact .inr ⟨k, ⟨⟨rfl, ht, .inr ⟨k, hk, rfl, hh⟩⟩, rfl, rfl, fun j => .inl (hp j)⟩, hid, hk, hh,
      rfl, rfl⟩

theorem waits_wait (s : State C R A) (t : Tid C) (call : WaitCall) : Waits s (s.wait t call) := by
  rcases wait_cases s t call with ⟨-, h⟩ | ⟨k, h⟩
  · exact h.toWaits
  · exact h.toWaits

/-- **Every step is a `Start`, a step of a created thread, or part of a wait call.** -/
theorem action_cases (h : step s a = some s') :
    (∃ t routine args k, a = .start t routine args k ∧ s.mayCall t ∧
        s' = s.start routine args k) ∨
      (∃ k last, a = .thread k last ∧ s.interceptorThreadRoutine k last = some s') ∨
      Waits s s' := by
  cases a with
  | start t routine args k =>
    simp only [step, Option.ite_none_right_eq_some, Option.some.injEq] at h
    exact .inl ⟨t, routine, args, k, rfl, h.1, h.2.symm⟩
  | wait t call =>
    simp only [step, Option.ite_none_right_eq_some, Option.some.injEq] at h
    obtain ⟨-, rfl⟩ := h
    exact .inr (.inr (waits_wait s t call))
  | waitReturns t status =>
    simp only [step] at h
    split at h
    · simp only [Option.ite_none_right_eq_some, Option.some.injEq] at h
      obtain ⟨-, rfl⟩ := h
      exact .inr (.inr (.of_frame s _))
    · cases h
  | dereference t =>
    simp only [step] at h
    split at h
    · cases h
      exact .inr (.inr (returns_dereference s t ..).toWaits)
    · cases h
  | thread k last => exact .inr (.inl ⟨k, last, rfl, h⟩)

/-- **Every step creates a thread in a `Start` that finds `m_threadObject` null, or fades.** -/
theorem step_cases (h : step s a = some s') :
    (∃ t routine args k o th, a = .start t routine args k ∧ s.obj.threadObject = none ∧
        s' = s.create o th ∧
        th.point = .entry ∧ th.args = args ∧ th.handedOver = false ∧
        o.threadContext = args ∧ o.threadObject = if th.referenced then some s.next else none) ∨
      Fades s s' := by
  rcases action_cases h with ⟨t, routine, args, k, rfl, -, rfl⟩ | ⟨k, last, -, hk⟩ | hw
  · rcases start_cases s routine args k with ⟨-, h⟩ | ⟨hn, o, h, ho⟩ | ⟨hn, o, th, h, hth⟩
    · rw [h]; exact .inr ⟨rfl, fun _ => .refl _, .inl ⟨rfl, fun _ => rfl⟩⟩
    · rw [h]
      exact .inr ⟨rfl, fun _ => .refl _, .inl ⟨ho.trans hn.symm, fun _ => rfl⟩⟩
    · exact .inl ⟨t, routine, args, k, o, th, rfl, hn, h, hth⟩
  · exact .inr (fades_interceptorThreadRoutine hk)
  · exact .inr hw.toFades

/-- A wait without a timeout ends only once the thread has. -/
theorem ended_of_waitEnds {call : WaitCall} {p : Point} {status : NtStatus}
    (h : waitEnds call p status) (hc : call.timed = false) : p = .ended := by
  by_contra hne
  simp [waitEnds, hne, hc] at h

theorem mayCall_alive {t : Tid C} (h : s.mayCall t) :
    s.frame t = .idle ∧ s.dtor = .alive := by
  simp only [State.mayCall, Bool.and_eq_true, decide_eq_true_eq] at h
  exact h.1

theorem mayWait_alive {t : Tid C} {call : WaitCall} (h : s.mayWait t call) :
    s.frame t = .idle ∧ s.dtor = .alive := by
  simp only [State.mayWait, Bool.or_eq_true, Bool.and_eq_true, decide_eq_true_eq] at h
  rcases h with h | h
  · exact mayCall_alive h
  · exact h.1.1

theorem calling_of_mayWait {k : ℕ} {call : WaitCall} (h : s.mayWait (.created k) call) :
    (s.thread k).point.calling := by
  simp only [State.mayWait, State.mayCall, Bool.or_eq_true, Bool.and_eq_true,
    decide_eq_true_eq] at h
  rcases h with h | h
  · rw [h.2]; rfl
  · rw [h.2]; rfl

/-- The frame of a thread changes when one of its wait calls leaves the guard block, has waited,
or returns. -/
theorem frame_cases (h : step s a = some s') (t : Tid C) :
    s'.frame t = s.frame t ∨ s'.frame t = .idle ∨
      (∃ call k, s.mayWait t call ∧ s.obj.threadId ≠ some t ∧ s.obj.threadObject = some k ∧
        s'.frame t = .wait call k) ∨
      ∃ call k, s.frame t = .wait call k ∧ s'.frame t = .dereference call k := by
  have hu : ∀ {u x}, s'.frame = Function.update s.frame u x →
      s'.frame t = s.frame t ∨ t = u ∧ s'.frame t = x := by
    intro u x h
    rcases update_cases h (t := t) rfl with ⟨htu, hx⟩ | ⟨-, hx⟩
    · exact .inr ⟨htu, hx⟩
    · exact .inl hx.symm
  cases a with
  | start u routine args k =>
    simp only [step, Option.ite_none_right_eq_some, Option.some.injEq] at h
    obtain ⟨-, rfl⟩ := h
    exact .inl (by rw [start_frame])
  | wait u call =>
    simp only [step, Option.ite_none_right_eq_some, Option.some.injEq] at h
    obtain ⟨hm, rfl⟩ := h
    rcases wait_cases s u call with ⟨-, h⟩ | ⟨k, h⟩
    · exact (hu h.frame).imp_right fun h => .inl h.2
    · rcases hu h.frame with hs | ⟨rfl, hs⟩
      · exact .inl hs
      · exact .inr (.inr (.inl ⟨call, k, hm, h.identity, h.taken, hs⟩))
  | waitReturns u status =>
    simp only [step] at h
    split at h
    · rename_i call k hf
      simp only [Option.ite_none_right_eq_some, Option.some.injEq] at h
      obtain ⟨-, rfl⟩ := h
      rcases hu (u := u) (x := .dereference call k) rfl with hs | ⟨rfl, hs⟩
      · exact .inl hs
      · exact .inr (.inr (.inr ⟨call, k, hf, hs⟩))
    · cases h
  | dereference u =>
    simp only [step] at h
    split at h
    · cases h
      exact (hu (finish_frame ..)).imp_right fun h => .inl h.2
    · cases h
  | thread k last =>
    exact .inl (by rw [(interceptorThreadRoutine_frame h).1])

/-! ## The thread the object tracks -/

/-- `m_threadObject` is the one thread that was referenced and not handed over; threads not yet
created have no place in the code, and `m_threadId` never is a caller. -/
structure Tracked (s : State C R A) : Prop where
  fresh : ∀ k, s.next ≤ k → (s.thread k).point = .absent ∧ (s.thread k).referenced = false
  caller : ∀ c, s.obj.threadId ≠ some (.caller c)
  object : ∀ k, s.obj.threadObject = some k ↔
    (s.thread k).referenced ∧ (s.thread k).handedOver = false

/-- A created thread sets `m_threadId` to itself; nothing else but clearing happens to it. -/
theorem threadId_step (h : step s a = some s') {t : Tid C} (ht : s'.obj.threadId = some t) :
    s.obj.threadId = some t ∨ ∃ k, t = .created k := by
  rcases action_cases h with ⟨u, routine, args, k, -, -, rfl⟩ | ⟨k, last, -, hk⟩ | hw
  · rw [start_threadId] at ht
    exact .inl ht
  · cases intercepts_of_step hk with
    | identify hp => exact .inr ⟨k, (Option.some.inj ht).symm⟩
    | clear hp => cases ht
    | _ => exact .inl ht
  · rw [hw.threadId] at ht
    exact .inl ht

theorem Tracked.step (hi : Tracked s) (h : step s a = some s') : Tracked s' := by
  have hc : ∀ c, s'.obj.threadId ≠ some (.caller c) := by
    intro c hs
    rcases threadId_step h hs with hs | ⟨k, hs⟩
    · exact hi.caller c hs
    · cases hs
  rcases step_cases h with ⟨t, routine, args, k, o, th, -, hn, rfl, hp, -, hh, -, ho⟩ | hf
  · refine ⟨fun j hj => ?_, hc, fun j => ?_⟩
    · rw [create_next] at hj
      rw [create_thread, if_neg (by omega)]
      exact hi.fresh j (by omega)
    · rw [create_thread, create_obj, ho]
      by_cases hj : j = s.next
      · rw [if_pos hj, hh, hj]
        cases th.referenced <;> simp
      · rw [if_neg hj, ← hi.object j, hn]
        cases th.referenced <;> simp [Ne.symm hj]
  · refine ⟨fun j hj => ?_, hc, fun j => ?_⟩
    · obtain ⟨ha, hr⟩ := hi.fresh j (hf.next ▸ hj)
      exact ⟨(hf.thread j).absent.mp ha, (hf.thread j).referenced.trans hr⟩
    · rw [(hf.thread j).referenced]
      rcases hf.object with ⟨ho, hh⟩ | ⟨k, hk, ho, hh⟩
      · rw [ho, hh, hi.object]
      · rw [ho, hh]
        have := hi.object j
        rw [hk] at this
        by_cases hj : j = k
        · simp [hj]
        · simp [hj, ← this, Ne.symm hj]

/-- Thread `k` has still to make its last access, and `m_threadObject` does not stand for it:
`ObReferenceObjectByHandle` failed for it, or a wait call has taken its reference. -/
def Abandoned (s : State C R A) (k : ℕ) : Prop :=
  (s.thread k).point.accessing ∧ ((s.thread k).referenced = false ∨ (s.thread k).handedOver)

omit [DecidableEq C] in
/-- **A thread that still has an access to make is `m_threadObject` or abandoned.** -/
theorem Tracked.abandoned_or (hi : Tracked s) {k : ℕ} (h : (s.thread k).point.accessing) :
    Abandoned s k ∨ s.obj.threadObject = some k := by
  by_cases hr : (s.thread k).referenced
  · cases hh : (s.thread k).handedOver with
    | false => exact .inr ((hi.object k).mpr ⟨hr, hh⟩)
    | true => exact .inl ⟨h, .inr hh⟩
  · exact .inl ⟨h, .inl (by simpa using hr)⟩

end Steps

theorem tracked_inductive [DecidableEq C] : (system C R A).Inductive Tracked := by
  refine ⟨fun s h0 => ?_, fun s a s' hi h => hi.step h⟩
  obtain rfl := h0
  constructor <;> simp

end Dpp.Thread
