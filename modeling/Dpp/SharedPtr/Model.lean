import Dpp.Lib.System
import Mathlib.Data.BitVec
import Mathlib.Data.Fintype.Pi

/-!
# Shared pointers

The `shared_ptr`s and `weak_ptr`s of one object, in any number of threads: the two counts are
atomic, and between two accesses to them anything may happen. A pointer object is named by an
agent, which is where the thread that constructs or destroys it stands; one that is copied or
locked stays until that is over, as callers have to see to.

* `RefCount`: `ref_count_sp`, with what was freed and whether it was used after that.
* `Ptr`: a pointer object and what is left to do for it; `State`, `Action`, `step`, `system`.
-/

namespace Dpp.SharedPtr

open Lib

variable {A : Type}

/-! ## The counts -/

/-- `ref_count_sp`, and how often its value and itself have been freed. -/
structure RefCount where
  mRefCount : BitVec 32 := 1
  mWeakRefCount : BitVec 32 := 1
  valueFreed : ℕ := 0
  blockFreed : ℕ := 0
  usedFreed : Bool := false

namespace RefCount

variable (b : RefCount)

/-- An access, which must not come after `free_ref_count_sp`. -/
def use : RefCount := { b with usedFreed := b.usedFreed || decide (b.blockFreed ≠ 0) }

/-- `mRefCount.fetch_add(1)` -/
def addRef : RefCount := { b.use with mRefCount := b.mRefCount + 1 }

/-- `mWeakRefCount.fetch_add(1)` -/
def addWeak : RefCount := { b.use with mWeakRefCount := b.mWeakRefCount + 1 }

/-- `mRefCount.fetch_sub(1)` -/
def subRef : RefCount := { b.use with mRefCount := b.mRefCount - 1 }

/-- `mWeakRefCount.fetch_sub(1)` -/
def subWeak : RefCount := { b.use with mWeakRefCount := b.mWeakRefCount - 1 }

/-- `free_value` -/
def freeValue : RefCount := { b.use with valueFreed := b.valueFreed + 1 }

/-- `free_ref_count_sp` -/
def freeRefCountSp : RefCount := { b.use with blockFreed := b.blockFreed + 1 }

end RefCount

/-! ## The pointers -/

/-- A `shared_ptr` or `weak_ptr` with these counts, none, or one in the middle of a constructor, of
`lock` or of its destructor. -/
inductive Ptr (A : Type)
  | empty
  | strong
  | weak
  /-- copied from `src`, the second line of `addref` is left -/
  | addref (src : A)
  /-- in the loop of `lock` on `src`, before the test of `refCountTemp` -/
  | lock (src : A) (refCountTemp : BitVec 32)
  /-- after the exchange of `lock` on `src` -/
  | locked (src : A)
  /-- in `release`, before `free_value` -/
  | freeing
  /-- in `release`, before `weak_release` -/
  | releasing
  /-- in `weak_release`, before `free_ref_count_sp` -/
  | freeingBlock
deriving DecidableEq

/-- The pointer that is copied or locked. -/
def Ptr.src : Ptr A → Option A
  | addref src | lock src _ | locked src => some src
  | _ => none

structure State (A : Type) where
  counts : RefCount := {}
  ptr : A → Ptr A

inductive Action (A : Type)
  | copy (src dst : A)
  | copied (dst : A)
  | copyWeak (src dst : A)
  | load (src dst : A)
  | exchange (dst : A) (spurious : Bool)
  | locked (dst : A)
  | move (src dst : A)
  | release (a : A)
  | freeValue (a : A)
  | weakRelease (a : A)
  | freeBlock (a : A)

namespace State

variable (s : State A)

/-- Nobody copies or locks the pointer. -/
def Unused (a : A) : Prop := ∀ b, (s.ptr b).src ≠ some a

instance [Fintype A] [DecidableEq A] (a : A) : Decidable (s.Unused a) :=
  inferInstanceAs (Decidable (∀ b, (s.ptr b).src ≠ some a))

variable [DecidableEq A]

def set (a : A) (p : Ptr A) : State A := { s with ptr := Function.update s.ptr a p }

/-- `weak_release`: `mWeakRefCount.fetch_sub(1) == 1`. -/
def weakRelease (a : A) : State A :=
  { s.set a (if s.counts.mWeakRefCount = 1 then .freeingBlock else .empty) with
    counts := s.counts.subWeak }

/-- The loop of `lock` on `src`; the exchange may fail without a reason, and reads the count
again. -/
def exchange (dst src : A) (refCountTemp : BitVec 32) (spurious : Bool) : State A :=
  if refCountTemp = 0 then s.set dst .empty
  else if s.counts.mRefCount = refCountTemp ∧ !spurious then
    { s.set dst (.locked src) with counts := s.counts.addRef }
  else { s.set dst (.lock src s.counts.mRefCount) with counts := s.counts.use }

end State

/-- One access to the counts, and what is done without one. -/
def step [Fintype A] [DecidableEq A] (s : State A) : Action A → Option (State A)
  | .copy src dst =>
    if s.ptr src = .strong ∧ s.ptr dst = .empty then
      some { s.set dst (.addref src) with counts := s.counts.addRef }
    else none
  | .copied dst =>
    match s.ptr dst with
    | .addref _ => some { s.set dst .strong with counts := s.counts.addWeak }
    | _ => none
  | .copyWeak src dst =>
    if (s.ptr src = .strong ∨ s.ptr src = .weak) ∧ s.ptr dst = .empty then
      some { s.set dst .weak with counts := s.counts.addWeak }
    else none
  | .load src dst =>
    if s.ptr src = .weak ∧ s.ptr dst = .empty then
      some { s.set dst (.lock src s.counts.mRefCount) with counts := s.counts.use }
    else none
  | .exchange dst spurious =>
    match s.ptr dst with
    | .lock src refCountTemp => some (s.exchange dst src refCountTemp spurious)
    | _ => none
  | .locked dst =>
    match s.ptr dst with
    | .locked _ => some { s.set dst .strong with counts := s.counts.addWeak }
    | _ => none
  | .move src dst =>
    if (s.ptr src = .strong ∨ s.ptr src = .weak) ∧ s.Unused src ∧ s.ptr dst = .empty then
      some ((s.set dst (s.ptr src)).set src .empty)
    else none
  | .release a =>
    if s.ptr a = .strong ∧ s.Unused a then
      some { s.set a (if s.counts.mRefCount = 1 then .freeing else .releasing) with
        counts := s.counts.subRef }
    else none
  | .freeValue a =>
    if s.ptr a = .freeing then some { s.set a .releasing with counts := s.counts.freeValue }
    else none
  | .weakRelease a =>
    if s.ptr a = .releasing ∨ s.ptr a = .weak ∧ s.Unused a then some (s.weakRelease a) else none
  | .freeBlock a =>
    if s.ptr a = .freeingBlock then
      some { s.set a .empty with counts := s.counts.freeRefCountSp }
    else none

variable (A) in
/-- The pointers of an object from `shared_ptr(U * pValue)` on. -/
def system [Fintype A] [DecidableEq A] : System (State A) (Action A) where
  init s := ∃ a, s = { ptr := Function.update (fun _ => .empty) a .strong }
  step := step

end Dpp.SharedPtr
