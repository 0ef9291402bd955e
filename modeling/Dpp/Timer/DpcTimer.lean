import Dpp.Lib.System
import Mathlib.Data.BitVec
import Mathlib.Data.Fintype.Defs
import Mathlib.Logic.Function.Basic
import Mathlib.Data.Option.Basic
import Mathlib.Tactic.SplitIfs

/-!
# `DpcTimer`

One owner calls `Start` and `StopAndWait` and at last destroys the object; meanwhile the timer
expires and queues the object's DPC, and the processors run it. `Start` assigns `m_Callback` and
initialises `m_TimerDpc` without stopping the timer first.

* `State`, `Action`, `step`, `system`: the owner, the timer, the DPC and the processors.
* `Guarded`: a step does not replace `m_Callback` or `m_TimerDpc` under a DPC; `Faithful`: a DPC
  calls the routine of the `Start` that armed it, and none is left after `StopAndWait`.
* **`guarded_of_startsQuiet`**: so it is in every run whose `Start`s find the timer disarmed and no
  DPC queued or running; any other `Start` can be interleaved so that it is not.
-/

namespace Dpp.DpcTimer

open Lib

/-- The period `Start` passes to `KeSetTimerEx`, a `LONG`. -/
def periodMs (timeout : BitVec 64) (periodic : Bool) : BitVec 32 :=
  if periodic then ((-timeout).sdiv 10000).setWidth 32 else 0

/-- An armed `KTIMER`; `routine` is the one of the `Start` that armed it. -/
structure Arming (R : Type) where
  routine : R
  dueTime : BitVec 64
  period : BitVec 32

/-- The owner: between two calls, or before the next step of one. -/
inductive Owner (R : Type)
  | constructed
  | initializeDpc (routine : R) (timeout : BitVec 64) (period : BitVec 32)
  | setTimer (routine : R) (timeout : BitVec 64) (period : BitVec 32)
  | started (rv : Bool)
  | cancelTimer (dtor : Bool)
  | flushQueuedDpcs (dtor rv : Bool)
  | stopped (rv : Bool)
  | destroyed

namespace Owner

variable {R : Type}

/-- Not inside a call, and the object is still there. -/
def free : Owner R → Bool
  | constructed | started _ | stopped _ => true
  | _ => false

/-- `StopAndWait` or the destructor has returned, and `Start` was not called since. -/
def done : Owner R → Bool
  | stopped _ | destroyed => true
  | _ => false

/-- `Start` has assigned `m_Callback` and not yet set the timer. -/
def starting : Owner R → Option R
  | initializeDpc routine .. | setTimer routine .. => some routine
  | _ => none

/-- The timer is cancelled and was not set since. -/
def cancelled : Owner R → Bool
  | flushQueuedDpcs .. | stopped _ | destroyed => true
  | _ => false

theorem cancelled_of_done {o : Owner R} (h : o.done) : o.cancelled := by
  cases o <;> first | exact Bool.noConfusion h | rfl

end Owner

/-- A processor: `armed` is the routine of the `Start` that armed the expiration that queued the
DPC, `called` what `m_Callback` was at the call. -/
inductive Cpu (R : Type)
  | idle
  /-- In `DpcTimerInterceptor`, before the call of `self->m_Callback`. -/
  | entered (armed : R)
  | calling (armed : R) (called : Option R)

/-- The DPC the processor is running: the routine of the `Start` that armed it. -/
def Cpu.armed {R : Type} : Cpu R → Option R
  | idle => none
  | entered armed | calling armed _ => some armed

/-- `queued`: the DPC is in a queue, from an expiration of the timer as that routine's `Start` armed
it. -/
structure State (R P : Type) where
  callback : Option R := none
  timer : Option (Arming R) := none
  queued : Option R := none
  cpu : P → Cpu R := fun _ => .idle
  owner : Owner R := .constructed

inductive Action (R P : Type)
  | start (routine : R) (timeout : BitVec 64) (periodic : Bool)
  | initializeDpc
  | setTimer
  | stopAndWait (dtor : Bool)
  | cancelTimer
  | flushQueuedDpcs
  | expire
  | deliver (p : P)
  | call (p : P)
  | complete (p : P)

variable {R P : Type}

namespace State

variable (s : State R P)

/-- `DpcTimer::Start` up to `KeInitializeDpc`. -/
def start (routine : R) (timeout : BitVec 64) (periodic : Bool) : State R P :=
  { s with
    callback := some routine
    owner := .initializeDpc routine timeout (periodMs timeout periodic) }

/-- `KeSetTimerEx`, which disarms the timer and arms it again, and returns whether it was armed. -/
def setTimer (routine : R) (timeout : BitVec 64) (period : BitVec 32) : State R P :=
  { s with
    timer := some { routine, dueTime := timeout, period }
    owner := .started s.timer.isSome }

/-- `KeCancelTimer`, which leaves a queued DPC in its queue. -/
def cancelTimer (dtor : Bool) : State R P :=
  { s with timer := none, owner := .flushQueuedDpcs dtor s.timer.isSome }

/-- The timer expires: its DPC is queued if it is not yet, and a one-shot timer is disarmed. -/
def expire (a : Arming R) : State R P :=
  { s with
    timer := if a.period = 0 then none else some a
    queued := s.queued.or (some a.routine) }

variable [DecidableEq P]

def setCpu (p : P) (c : Cpu R) : State R P := { s with cpu := Function.update s.cpu p c }

variable [Fintype P]

/-- A DPC of the object is queued or running. -/
def pending : Bool := s.queued.isSome || decide (∃ p, (s.cpu p).armed.isSome)

end State

variable [DecidableEq P] [Fintype P]

/-- The steps of the owner, of the timer and of the processors. `KeFlushQueuedDpcs` returns when no
DPC is queued or running. -/
def step (s : State R P) : Action R P → Option (State R P)
  | .start routine timeout periodic =>
    if s.owner.free then some (s.start routine timeout periodic) else none
  | .initializeDpc =>
    match s.owner with
    | .initializeDpc routine timeout period =>
      some { s with owner := .setTimer routine timeout period }
    | _ => none
  | .setTimer =>
    match s.owner with
    | .setTimer routine timeout period => some (s.setTimer routine timeout period)
    | _ => none
  | .stopAndWait dtor => if s.owner.free then some { s with owner := .cancelTimer dtor } else none
  | .cancelTimer =>
    match s.owner with
    | .cancelTimer dtor => some (s.cancelTimer dtor)
    | _ => none
  | .flushQueuedDpcs =>
    match s.owner with
    | .flushQueuedDpcs dtor rv =>
      if s.pending then none
      else some { s with owner := if dtor then .destroyed else .stopped rv }
    | _ => none
  | .expire => s.timer.map s.expire
  | .deliver p =>
    match s.queued, s.cpu p with
    | some routine, .idle => some { s.setCpu p (.entered routine) with queued := none }
    | _, _ => none
  | .call p =>
    match s.cpu p with
    | .entered routine => some (s.setCpu p (.calling routine s.callback))
    | _ => none
  | .complete p =>
    match s.cpu p with
    | .calling .. => some (s.setCpu p .idle)
    | _ => none

variable (R P) in
/-- The owner, the timer and the processors, from the constructor on. -/
def system : System (State R P) (Action R P) where
  init s := s = {}
  step := step

/-! ## Callbacks in their own hands -/

/-- `m_Callback` is not assigned and `m_TimerDpc` not initialised while a DPC is queued or
running. -/
def Guarded (s : State R P) : Action R P → Prop
  | .start .. | .initializeDpc => s.pending = false
  | _ => True

/-- Every invocation calls the routine of the `Start` that armed it, and after `StopAndWait` and the
destructor none is pending or to come. -/
structure Faithful (s : State R P) : Prop where
  called : ∀ p armed called, s.cpu p = .calling armed called → called = some armed
  silent : s.owner.done → s.pending = false ∧ s.timer.isNone

/-- The timer is disarmed and no DPC is queued or running. -/
def State.quiet (s : State R P) : Bool := s.timer.isNone && !s.pending

/-- `Start` is called only when all is quiet. -/
def StartsQuiet (s : State R P) : Action R P → Prop
  | .start .. => s.quiet
  | _ => True

/-! ## What a run keeps -/

/-- A callback for the routine `r` is to come or under way. -/
inductive Due (s : State R P) : R → Prop
  | timer (a : Arming R) (h : s.timer = some a) : Due s a.routine
  | queued (r : R) (h : s.queued = some r) : Due s r
  | running (p : P) (r : R) (h : (s.cpu p).armed = some r) : Due s r

/-- What a run keeps whose `Start`s find all quiet: `m_Callback` is the routine of every callback
that is due. -/
structure Tidy (s : State R P) : Prop where
  due : ∀ r, Due s r → s.callback = some r
  called : ∀ p armed called, s.cpu p = .calling armed called → called = some armed
  starting : ∀ r, s.owner.starting = some r → s.callback = some r ∧ s.quiet
  cancelled : s.owner.cancelled → s.timer = none
  done : s.owner.done → s.quiet

section Due

omit [DecidableEq P]

variable {s s' : State R P}

theorem quiet_iff : s.quiet ↔ ∀ r, ¬ Due s r := by
  unfold State.quiet State.pending
  constructor
  · intro h r hd
    simp only [Bool.and_eq_true, Bool.not_eq_true', Bool.or_eq_false_iff, Option.isNone_iff_eq_none,
      decide_eq_false_iff_not, not_exists] at h
    cases hd with
    | timer a ha => rw [h.1] at ha; cases ha
    | queued r hq => rw [hq] at h; cases h.2.1
    | running p r hp => exact h.2.2 p (by rw [hp]; rfl)
  · intro h
    simp only [Bool.and_eq_true, Bool.not_eq_true', Bool.or_eq_false_iff, Option.isNone_iff_eq_none,
      decide_eq_false_iff_not, not_exists]
    refine ⟨?_, ?_, fun p hp => ?_⟩
    · cases ht : s.timer with
      | none => rfl
      | some a => exact absurd (.timer a ht) (h a.routine)
    · cases hq : s.queued with
      | none => rfl
      | some r => exact absurd (.queued r hq) (h r)
    · obtain ⟨r, hr⟩ := Option.isSome_iff_exists.mp hp
      exact h r (.running p r hr)

theorem pending_of_quiet (h : s.quiet) : s.pending = false := by
  unfold State.quiet at h
  simp only [Bool.and_eq_true, Bool.not_eq_true'] at h
  exact h.2

theorem quiet_of_timer (ht : s.timer = none) (hp : s.pending = false) : s.quiet := by
  unfold State.quiet
  rw [ht, hp]
  rfl

theorem timer_of_quiet (h : s.quiet) : s.timer = none := by
  unfold State.quiet at h
  simp only [Bool.and_eq_true, Option.isNone_iff_eq_none] at h
  exact h.1

/-- A step that makes no callback due and leaves `m_Callback` and the owner alone. -/
theorem Tidy.fade (hi : Tidy s) (hc : s'.callback = s.callback) (ho : s'.owner = s.owner)
    (hd : ∀ r, Due s' r → Due s r) (ht : s.timer = none → s'.timer = none)
    (hr : ∀ p armed called, s'.cpu p = .calling armed called → called = some armed) : Tidy s' := by
  have hq : s.quiet → s'.quiet := fun h => quiet_iff.mpr fun r hr => quiet_iff.mp h r (hd r hr)
  refine ⟨fun r h => hc.trans (hi.due r (hd r h)), hr, fun r h => ?_,
    fun h => ht (hi.cancelled (ho ▸ h)), fun h => hq (hi.done (ho ▸ h))⟩
  obtain ⟨h1, h2⟩ := hi.starting r (ho ▸ h)
  exact ⟨hc.trans h1, hq h2⟩

omit [Fintype P] in
/-- The callbacks that are due when only the timer and the owner have changed. -/
theorem Due.of_timer {r : R} (h : Due s' r) (hq : s'.queued = s.queued) (hc : s'.cpu = s.cpu) :
    (∃ a, s'.timer = some a ∧ a.routine = r) ∨ Due s r := by
  cases h with
  | timer a ha => exact .inl ⟨a, ha, rfl⟩
  | queued _ h => exact .inr (.queued r (hq ▸ h))
  | running p _ h => exact .inr (.running p r (hc ▸ h))

omit [Fintype P] in
theorem Due.of_same {r : R} (h : Due s' r) (ht : s'.timer = s.timer) (hq : s'.queued = s.queued)
    (hc : s'.cpu = s.cpu) : Due s r := by
  rcases h.of_timer hq hc with ⟨a, ha, rfl⟩ | h
  · exact .timer a (ht ▸ ha)
  · exact h

/-- `Start` assigns `m_Callback` when all is quiet. -/
theorem Tidy.start (hi : Tidy s) (hq : s.quiet) (routine : R) (timeout : BitVec 64)
    (periodic : Bool) : Tidy (s.start routine timeout periodic) := by
  have hd : ∀ r, ¬ Due (s.start routine timeout periodic) r :=
    fun r h => quiet_iff.mp hq r (h.of_same rfl rfl rfl)
  exact ⟨fun r h => absurd h (hd r), hi.called, fun r h => ⟨h, quiet_iff.mpr hd⟩, nofun, nofun⟩

/-- The owner goes on and changes nothing. -/
theorem Tidy.own (hi : Tidy s) {o : Owner R}
    (hs : ∀ r, o.starting = some r → s.owner.starting = some r) (hc : o.cancelled → s.timer = none)
    (hd : o.done → s.pending = false) : Tidy { s with owner := o } :=
  ⟨fun r h => hi.due r (h.of_same rfl rfl rfl), hi.called, fun r h => hi.starting r (hs r h), hc,
    fun h => quiet_of_timer (hc (Owner.cancelled_of_done h)) (hd h)⟩

theorem Tidy.setTimer (hi : Tidy s) {routine : R} {timeout : BitVec 64} {period : BitVec 32}
    (ho : s.owner = .setTimer routine timeout period) :
    Tidy (s.setTimer routine timeout period) := by
  obtain ⟨hc, -⟩ := hi.starting routine (by rw [ho]; rfl)
  refine ⟨fun r h => ?_, hi.called, nofun, nofun, nofun⟩
  rcases h.of_timer (s := s) rfl rfl with ⟨a, ha, rfl⟩ | h
  · cases ha
    exact hc
  · exact hi.due r h

theorem Tidy.cancelTimer (hi : Tidy s) (dtor : Bool) : Tidy (s.cancelTimer dtor) := by
  refine ⟨fun r h => ?_, hi.called, nofun, fun _ => rfl, nofun⟩
  rcases h.of_timer (s := s) rfl rfl with ⟨a, ha, -⟩ | h
  · cases ha
  · exact hi.due r h

theorem Tidy.expire (hi : Tidy s) {t : Arming R} (ht : s.timer = some t) : Tidy (s.expire t) := by
  refine hi.fade rfl rfl (fun r h => ?_) (fun h => by rw [h] at ht; cases ht) hi.called
  cases h with
  | timer a ha =>
    simp only [State.expire] at ha
    split_ifs at ha
    cases ha
    exact .timer t ht
  | queued _ hq =>
    simp only [State.expire, Option.or_eq_some_iff] at hq
    rcases hq with hq | ⟨-, hq⟩
    · exact .queued r hq
    · cases hq
      exact .timer t ht
  | running p _ hp => exact .running p r hp

theorem Tidy.faithful (hi : Tidy s) : Faithful s :=
  ⟨hi.called, fun hd => ⟨pending_of_quiet (hi.done hd), by rw [timer_of_quiet (hi.done hd)]; rfl⟩⟩

theorem tidy_initial : Tidy ({} : State R P) := by
  refine ⟨fun r h => ?_, nofun, nofun, nofun, nofun⟩
  cases h with
  | timer a ha => cases ha
  | queued _ hq => cases hq
  | running p _ hp => cases hp

end Due

section Steps

variable {s s' : State R P} {a : Action R P}

/-- Processor `p` goes on with a DPC that was due. -/
theorem Tidy.setCpu (hi : Tidy s) {p : P} {c : Cpu R} (hd : ∀ r, c.armed = some r → Due s r)
    (hc : ∀ armed called, c = .calling armed called → called = some armed) :
    Tidy (s.setCpu p c) := by
  have hcpu : ∀ q, (s.setCpu p c).cpu q = if q = p then c else s.cpu q := fun q =>
    Function.update_apply ..
  refine hi.fade rfl rfl (fun r h => ?_) id fun q armed called h => ?_
  · cases h with
    | timer a ha => exact .timer a ha
    | queued _ hq => exact .queued r hq
    | running q _ hq =>
      rw [hcpu] at hq
      split_ifs at hq
      · exact hd r hq
      · exact .running q r hq
  · rw [hcpu] at h
    split_ifs at h
    · exact hc armed called h
    · exact hi.called q armed called h

/-- A processor takes the DPC from its queue. -/
theorem Tidy.deliver (hi : Tidy s) {p : P} {routine : R} (hq : s.queued = some routine) :
    Tidy { s.setCpu p (.entered routine) with queued := none } := by
  have h : Tidy (s.setCpu p (.entered routine)) :=
    hi.setCpu (fun r hr => by cases hr; exact .queued routine hq) nofun
  refine h.fade rfl rfl (fun r hd => ?_) id h.called
  cases hd with
  | timer a ha => exact .timer a ha
  | queued _ hq => cases hq
  | running q _ hq => exact .running q r hq

theorem Tidy.step (hi : Tidy s) (hc : StartsQuiet s a) (h : step s a = some s') : Tidy s' := by
  cases a with
  | start routine timeout periodic =>
    simp only [DpcTimer.step, Option.ite_none_right_eq_some, Option.some.injEq] at h
    obtain ⟨-, rfl⟩ := h
    exact hi.start hc routine timeout periodic
  | initializeDpc =>
    simp only [DpcTimer.step] at h
    split at h <;> cases h
    rename_i ho
    exact hi.own (fun r hr => by rw [ho]; exact hr) nofun nofun
  | setTimer =>
    simp only [DpcTimer.step] at h
    split at h <;> cases h
    exact hi.setTimer ‹_›
  | stopAndWait dtor =>
    simp only [DpcTimer.step, Option.ite_none_right_eq_some, Option.some.injEq] at h
    obtain ⟨-, rfl⟩ := h
    exact hi.own nofun nofun nofun
  | cancelTimer =>
    simp only [DpcTimer.step] at h
    split at h <;> cases h
    exact hi.cancelTimer _
  | flushQueuedDpcs =>
    simp only [DpcTimer.step] at h
    split at h
    · rename_i dtor rv ho
      simp only [Option.ite_none_left_eq_some, Option.some.injEq, Bool.not_eq_true] at h
      obtain ⟨hp, rfl⟩ := h
      refine hi.own (fun r hr => ?_) (fun _ => hi.cancelled (by rw [ho]; rfl)) fun _ => hp
      cases dtor <;> cases hr
    · cases h
  | expire =>
    obtain ⟨t, ht, rfl⟩ := Option.map_eq_some_iff.mp h
    exact hi.expire ht
  | deliver p =>
    simp only [DpcTimer.step] at h
    split at h <;> cases h
    exact hi.deliver ‹_›
  | call p =>
    simp only [DpcTimer.step] at h
    split at h <;> cases h
    rename_i armed hp
    have hd : Due s armed := .running p armed (by rw [hp]; rfl)
    refine hi.setCpu (fun r hr => ?_) fun armed' called hr => ?_
    · cases hr
      exact hd
    · cases hr
      exact hi.due armed hd
  | complete p =>
    simp only [DpcTimer.step] at h
    split at h <;> cases h
    exact hi.setCpu nofun nofun

/-- When all is quiet at the `Start`s, it still is when they initialise the DPC. -/
theorem Tidy.guarded (hi : Tidy s) (hc : StartsQuiet s a) (h : DpcTimer.step s a = some s') :
    Guarded s a := by
  cases a with
  | start routine timeout periodic => exact pending_of_quiet hc
  | initializeDpc =>
    simp only [DpcTimer.step] at h
    split at h
    · rename_i routine timeout period ho
      exact pending_of_quiet (hi.starting routine (by rw [ho]; rfl)).2
    · cases h
  | setTimer | stopAndWait dtor | cancelTimer | flushQueuedDpcs | expire | deliver p | call p
  | complete p => trivial

end Steps

/-- A `Start` on a timer that is armed, or under a DPC, replaces the callback or the DPC under a
DPC if the timer expires at the wrong moment. -/
theorem exists_not_guarded {s : State R P} (hf : s.owner.free) (hq : ¬ s.quiet) (routine : R)
    (timeout : BitVec 64) (periodic : Bool) : ∃ bs s',
      (system R P).exec s (.start routine timeout periodic :: bs) = some s' ∧
        ¬ (system R P).Meets Guarded s (.start routine timeout periodic :: bs) := by
  have hs : (system R P).step s (.start routine timeout periodic) =
      some (s.start routine timeout periodic) := if_pos hf
  cases hp : s.pending with
  | true =>
    -- the assignment itself
    refine ⟨[], s.start routine timeout periodic, ?_, fun hm => ?_⟩
    · rw [System.exec_cons, hs]
      rfl
    · exact Bool.noConfusion (hp.symm.trans (hm _ hs).1)
  | false =>
    -- the timer expires before the DPC is initialised
    obtain ⟨t, ht⟩ := Option.ne_none_iff_exists'.mp fun hn => hq (quiet_of_timer hn hp)
    have hx : (system R P).step (s.start routine timeout periodic) .expire =
        some ((s.start routine timeout periodic).expire t) := by
      show (s.timer.map (s.start routine timeout periodic).expire) = _
      rw [ht]
      rfl
    have hpend : ((s.start routine timeout periodic).expire t).pending = true := by
      simp [State.pending, State.expire]
    refine ⟨[.expire, .initializeDpc], { (s.start routine timeout periodic).expire t with
      owner := .setTimer routine timeout (periodMs timeout periodic) }, ?_, fun hm => ?_⟩
    · rw [System.exec_cons, hs, Option.bind_some, System.exec_cons, hx]
      rfl
    · have hg := ((hm _ hs).2 _ hx).2 _ rfl
      exact Bool.noConfusion (hpend.symm.trans hg.1)

/-- **A DPC's callback is not replaced under it, and is the one its `Start` was given**, in every
run whose `Start`s find all quiet. Whenever a `Start` finds the timer armed or a DPC queued or
running, it can go on to replace the callback or the DPC under a DPC. -/
theorem guarded_of_startsQuiet (as : List (Action R P)) :
    ((system R P).Meets StartsQuiet {} as →
      (system R P).Meets Guarded {} as ∧ (system R P).Always Faithful {} as) ∧
    ∀ s, (system R P).exec {} as = some s → s.owner.free → ¬ s.quiet →
      ∀ routine timeout periodic, ∃ bs s',
        (system R P).exec s (.start routine timeout periodic :: bs) = some s' ∧
          ¬ (system R P).Meets Guarded s (.start routine timeout periodic :: bs) := by
  have hk : (system R P).Keeps StartsQuiet Tidy := fun s a s' hi hc h => hi.step hc h
  refine ⟨fun hm => ⟨?_, ?_⟩, fun s _ hf hq => exists_not_guarded hf hq⟩
  · exact hk.meets (fun s a s' hi hc h => hi.guarded hc h) tidy_initial hm
  · exact (hk.always tidy_initial hm).mono fun _ => Tidy.faithful

instance (s : State R P) : ∀ a, Decidable (StartsQuiet s a)
  | .start .. => inferInstanceAs (Decidable (s.quiet = true))
  | .initializeDpc | .setTimer | .stopAndWait _ | .cancelTimer | .flushQueuedDpcs | .expire
  | .deliver _ | .call _ | .complete _ => isTrue trivial

/-- A periodic timer calls back twice and is stopped before it is started with another routine. -/
theorem guarded_of_startsQuiet_restart :
    (system ℕ Bool).Meets Guarded {}
        [.start 1 (-10000) true, .initializeDpc, .setTimer, .expire, .deliver true, .expire,
          .call true, .complete true, .stopAndWait false, .cancelTimer, .deliver false, .call false,
          .complete false, .flushQueuedDpcs, .start 2 (-10000) false] ∧
      (system ℕ Bool).Always Faithful {}
        [.start 1 (-10000) true, .initializeDpc, .setTimer, .expire, .deliver true, .expire,
          .call true, .complete true, .stopAndWait false, .cancelTimer, .deliver false, .call false,
          .complete false, .flushQueuedDpcs, .start 2 (-10000) false] :=
  (guarded_of_startsQuiet _).1 (by decide)

/-- **A second `Start` while the first one's DPC is queued** replaces its callback. -/
theorem not_guarded_queued : ¬ ∀ as : List (Action ℕ Unit),
    (system ℕ Unit).Meets Guarded {} as ∧ (system ℕ Unit).Always Faithful {} as := by
  intro h
  have := (h [.start 1 (-10000) true, .initializeDpc, .setTimer, .expire,
    .start 2 (-10000) true]).1
  have hg := ((((this _ rfl).2 _ rfl).2 _ rfl).2 _ rfl).2 _ rfl
  exact Bool.noConfusion hg.1

end Dpp.DpcTimer
