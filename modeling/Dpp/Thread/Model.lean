import Dpp.Lib.System
import Dpp.Nt
import Mathlib.Logic.Function.Basic

/-!
# The `Thread` object

Any number of threads call `Start`, the two wait functions and at last the destructor of one
`Thread`; the threads `Start` creates run `InterceptorThreadRoutine` on it and may call it too.
A block under a `LockGuard` is one step; the kernel calls outside the blocks are steps of their
own, and everything the kernel decides is part of the action.

* `Obj`: the members; `Obj.start`, `Obj.takeThreadObject`: the guard blocks of `Start` and of the
  wait functions.
* `KThread`: a created thread, with its place in `InterceptorThreadRoutine`.
* `State`, `Action`, `step`, `system`: the object, its threads and the calls in progress.
-/

namespace Dpp.Thread

open Lib

variable {C R A : Type}

/-! ## The members and their guard blocks -/

/-- A thread: one of the callers, or the `k`-th thread the object has created. -/
inductive Tid (C : Type)
  | caller (c : C)
  | created (k : ℕ)
deriving DecidableEq

/-- The members of `Thread`. The `PETHREAD` of the `k`-th created thread is `k`; a null handle,
pointer or routine is `none`. -/
structure Obj (C R A : Type) where
  threadId : Option (Tid C) := none
  threadObject : Option ℕ := none
  routine : Option R := none
  threadContext : Option A := none

/-- Where a created thread is in `InterceptorThreadRoutine`. -/
inductive Point
  | absent
  /-- Before the guard block that sets `m_threadId`. -/
  | entry
  /-- Before `self->m_routine(self->m_threadContext)`. -/
  | call
  | routine
  /-- Before the guard block that clears `m_threadId` and `m_threadContext`. -/
  | epilogue
  /-- In that block, where `~Thread` runs because the last `ThreadArgs` reference was dropped. -/
  | release
  /-- At `PsTerminateSystemThread`. -/
  | terminate
  | ended
deriving DecidableEq

namespace Point

/-- From its creation to its last access to the object. -/
def accessing : Point → Bool
  | entry | call | routine | epilogue | release => true
  | _ => false

/-- Where the thread itself may call the object. -/
def calling : Point → Bool
  | routine | release => true
  | _ => false

end Point

/-- A created thread. `refs` counts the references the object and its callers hold, `handle` tells
whether the handle of `PsCreateSystemThread` is open; `referenced` and `handedOver` remember that
`ObReferenceObjectByHandle` succeeded and that a wait call has taken the reference. -/
structure KThread (A : Type) where
  point : Point := .absent
  args : Option A := none
  handle : Bool := false
  refs : ℕ := 0
  referenced : Bool := false
  handedOver : Bool := false

/-- What `PsCreateSystemThread`, `ObReferenceObjectByHandle` and `ZwClose` return. -/
structure StartOutcome where
  create : NtStatus := statusSuccess
  reference : NtStatus := statusSuccess
  close : NtStatus := statusSuccess

/-- How a wait function leaves its guard block. -/
inductive WaitBlock
  | returns (status : NtStatus)
  | waits (localThreadObject : ℕ)
deriving DecidableEq

namespace Obj

/-- `Thread::Start`: the members, the status and the thread it leaves. The new thread is `new`. -/
def start (o : Obj C R A) (new : ℕ) (routine : R) (args : Option A) (k : StartOutcome) :
    Obj C R A × NtStatus × Option (KThread A) :=
  if o.threadObject ≠ none then (o, statusUnsuccessful, none)
  else
    let o := { o with routine := some routine, threadContext := args }
    if !ntSuccess k.create then (o, k.create, none)
    else if !ntSuccess k.reference then
      (o, k.reference, some { point := .entry, args, handle := true })
    else
      ({ o with threadObject := some new }, k.close,
        some { point := .entry, args, handle := !ntSuccess k.close, refs := 1, referenced := true })

/-- The guard block of `WaitForTermination` and `WaitForTerminationIndefinitely`, run by `cur`. -/
def takeThreadObject [DecidableEq C] (o : Obj C R A) (cur : Tid C) : Obj C R A × WaitBlock :=
  if o.threadId = some cur then (o, .returns statusUnsuccessful)
  else
    match o.threadObject with
    | none => (o, .returns statusUnsuccessful)
    | some k => ({ o with threadObject := none }, .waits k)

end Obj

/-! ## The threads together -/

/-- The three ways to wait; `~Thread` waits indefinitely. -/
inductive WaitCall
  | waitForTermination (timeout : BitVec 64)
  | waitForTerminationIndefinitely
  | dtor
deriving DecidableEq

/-- `KeWaitForSingleObject` gets a timeout. -/
def WaitCall.timed : WaitCall → Bool
  | waitForTermination _ => true
  | _ => false

/-- A wait call that has left its guard block with `localThreadObject`. -/
inductive Frame
  | idle
  /-- In `KeWaitForSingleObject`. -/
  | wait (call : WaitCall) (localThreadObject : ℕ)
  /-- At `ObDereferenceObject`. -/
  | dereference (call : WaitCall) (localThreadObject : ℕ)
deriving DecidableEq

inductive Dtor (C : Type)
  | alive
  | destroying (t : Tid C)
  | destroyed (t : Tid C)
deriving DecidableEq

structure State (C R A : Type) where
  obj : Obj C R A := {}
  thread : ℕ → KThread A := fun _ => {}
  next : ℕ := 0
  frame : Tid C → Frame := fun _ => .idle
  dtor : Dtor C := .alive

inductive Action (C R A : Type)
  | start (t : Tid C) (routine : R) (args : Option A) (k : StartOutcome)
  | wait (t : Tid C) (call : WaitCall)
  | waitReturns (t : Tid C) (status : NtStatus)
  | dereference (t : Tid C)
  /-- `last`: `m_threadContext` is the last reference to `ThreadArgs` that own the object. -/
  | thread (k : ℕ) (last : Bool)

namespace State

variable [DecidableEq C] (s : State C R A)

/-- Change the `k`-th created thread. -/
def modify (k : ℕ) (f : KThread A → KThread A) : State C R A :=
  { s with thread := Function.update s.thread k (f (s.thread k)) }

def setPoint (k : ℕ) (p : Point) : State C R A := s.modify k fun th => { th with point := p }

/-- Thread `t` may call a function of the object. -/
def mayCall (t : Tid C) : Bool :=
  s.frame t = .idle && s.dtor = .alive &&
    match t with
    | .caller _ => true
    | .created k => (s.thread k).point = .routine

/-- Thread `t` may call the wait function `call`; a created thread runs `~Thread` also when it
drops the last reference in its epilogue. -/
def mayWait (t : Tid C) (call : WaitCall) : Bool :=
  s.mayCall t || (s.frame t = .idle && s.dtor = .alive && call = .dtor &&
    match t with
    | .caller _ => false
    | .created k => (s.thread k).point = .release)

/-- The members are `o` and there is a new thread `th`. -/
def create (o : Obj C R A) (th : KThread A) : State C R A :=
  { s with obj := o, thread := Function.update s.thread s.next th, next := s.next + 1 }

/-- `Start`. -/
def start (routine : R) (args : Option A) (k : StartOutcome) : State C R A :=
  match s.obj.start s.next routine args k with
  | (o, _, none) => { s with obj := o }
  | (o, _, some th) => s.create o th

/-- The call of `t` returns; after `~Thread` the object is gone. -/
def finish (t : Tid C) (call : WaitCall) : State C R A :=
  let s := { s with frame := Function.update s.frame t .idle }
  if call = .dtor then
    let s := { s with dtor := .destroyed t }
    match t with
    | .caller _ => s
    | .created k => if (s.thread k).point = .release then s.setPoint k .terminate else s
  else s

/-- The guard block of a wait call. -/
def wait (t : Tid C) (call : WaitCall) : State C R A :=
  match s.obj.takeThreadObject t with
  | (_, .returns _) => s.finish t call
  | (o, .waits k) =>
    { s.modify k fun th => { th with handedOver := true } with
      obj := o
      frame := Function.update s.frame t (.wait call k)
      dtor := if call = .dtor then .destroying t else s.dtor }

/-- The next step of `InterceptorThreadRoutine` in thread `k`. -/
def interceptorThreadRoutine (k : ℕ) (last : Bool) : Option (State C R A) :=
  match (s.thread k).point with
  | .entry => some { s.setPoint k .call with obj.threadId := some (.created k) }
  | .call => some (s.setPoint k .routine)
  | .routine => if s.frame (.created k) = .idle then some (s.setPoint k .epilogue) else none
  | .epilogue =>
    let last := last && s.obj.threadContext.isSome
    some { s.setPoint k (if last then .release else .terminate) with
      obj := { s.obj with threadId := none, threadContext := none } }
  | .terminate => some (s.setPoint k .ended)
  -- in `.release` the thread is inside `~Thread`
  | .absent | .release | .ended => none

end State

/-- `KeWaitForSingleObject` on a thread object ends with success once the thread has ended, and
before that only by a timeout. -/
def waitEnds (call : WaitCall) (p : Point) (status : NtStatus) : Bool :=
  if p = .ended then status = statusSuccess else call.timed && status = statusTimeout

/-- The steps of the callers and of the created threads. -/
def step [DecidableEq C] (s : State C R A) : Action C R A → Option (State C R A)
  | .start t routine args k => if s.mayCall t then some (s.start routine args k) else none
  | .wait t call => if s.mayWait t call then some (s.wait t call) else none
  | .waitReturns t status =>
    match s.frame t with
    | .wait call k =>
      if waitEnds call (s.thread k).point status then
        some { s with frame := Function.update s.frame t (.dereference call k) }
      else none
    | _ => none
  | .dereference t =>
    match s.frame t with
    | .dereference call k =>
      some ((s.modify k fun th => { th with refs := th.refs - 1 }).finish t call)
    | _ => none
  | .thread k last => s.interceptorThreadRoutine k last

variable (C R A) in
/-- One `Thread` object and its threads, from the constructor on. -/
def system [DecidableEq C] : System (State C R A) (Action C R A) where
  init s := s = {}
  step := step

end Dpp.Thread
