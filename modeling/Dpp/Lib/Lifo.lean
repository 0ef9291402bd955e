import Mathlib.Data.Option.Basic
import Mathlib.Data.List.Basic
import Mathlib.Tactic.TypeStar

/-!
# Last in, first out

A history of pushes and pops, read as the history of a stack.

* `Lifo.replay`: the stack a history leaves, when each pop takes the top of the stack.
* `Lifo.LastFirst`: at each pop the item is the last one pushed and not yet popped.
* `Lifo.pops`, `Lifo.firstStack`: what has been popped, and the stack at the first pop.
-/

namespace Lib.Lifo

inductive Event (ι : Type*)
  | push (i : ι)
  | pop (i : ι)
deriving DecidableEq

variable {ι : Type*} [DecidableEq ι]

/-- The stack after the events, top first; none if a pop does not take the top. -/
def replay : List ι → List (Event ι) → Option (List ι)
  | st, [] => some st
  | st, .push i :: es => replay (i :: st) es
  | [], .pop _ :: _ => none
  | j :: st, .pop i :: es => if i = j then replay st es else none

/-- Every pop takes the last item pushed and not yet popped. -/
def LastFirst (es : List (Event ι)) : Prop := (replay [] es).isSome

variable {st : List ι} {es fs : List (Event ι)} {i : ι}

theorem replay_append : replay st (es ++ fs) = (replay st es).bind fun st' => replay st' fs := by
  induction es generalizing st with
  | nil => rfl
  | cons e es ih =>
    cases e with
    | push i => exact ih
    | pop i =>
      cases st with
      | nil => rfl
      | cons j st =>
        rw [List.cons_append, replay, replay]
        split_ifs
        · exact ih
        · rfl

theorem replay_push (h : replay [] es = some st) :
    replay [] (es ++ [.push i]) = some (i :: st) := by
  rw [replay_append, h]
  rfl

theorem replay_pop (h : replay [] es = some (i :: st)) : replay [] (es ++ [.pop i]) = some st := by
  rw [replay_append, h, Option.bind_some, replay, if_pos rfl]
  rfl

theorem LastFirst.of_replay (h : replay [] es = some st) : LastFirst es := by
  unfold LastFirst
  rw [h]
  rfl

/-! ## What is popped -/

omit [DecidableEq ι]

/-- The items popped, in order. -/
def pops (es : List (Event ι)) : List ι :=
  es.filterMap fun
    | .push _ => none
    | .pop i => some i

/-- The items pushed before the first pop, the last one first. -/
def firstStack : List (Event ι) → List ι
  | .push i :: es => firstStack es ++ [i]
  | _ => []

theorem pops_push (es : List (Event ι)) (i : ι) : pops (es ++ [.push i]) = pops es := by
  simp [pops]

theorem pops_pop (es : List (Event ι)) (i : ι) : pops (es ++ [.pop i]) = pops es ++ [i] := by
  simp [pops]

theorem mem_pops : i ∈ pops es ↔ .pop i ∈ es := by
  constructor
  · intro h
    obtain ⟨e, he, hi⟩ := List.mem_filterMap.mp h
    cases e with
    | push j => cases hi
    | pop j =>
      cases hi
      exact he
  · exact fun h => List.mem_filterMap.mpr ⟨_, h, rfl⟩

theorem firstStack_pop (es : List (Event ι)) (i : ι) :
    firstStack (es ++ [.pop i]) = firstStack es := by
  induction es with
  | nil => rfl
  | cons e es ih =>
    cases e with
    | push j => exact congrArg (· ++ [j]) ih
    | pop j => rfl

theorem firstStack_push_of_pop {j : ι} (h : .pop j ∈ es) (i : ι) :
    firstStack (es ++ [.push i]) = firstStack es := by
  induction es with
  | nil => cases h
  | cons e es ih =>
    cases e with
    | push k =>
      have hmem : .pop j ∈ es := by simpa using h
      exact congrArg (· ++ [k]) (ih hmem)
    | pop k => rfl

theorem firstStack_push (h : pops es = []) (i : ι) :
    firstStack (es ++ [.push i]) = i :: firstStack es := by
  induction es with
  | nil => rfl
  | cons e es ih =>
    cases e with
    | push k => exact congrArg (· ++ [k]) (ih h)
    | pop k => cases h

end Lib.Lifo
