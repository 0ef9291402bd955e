import Dpp.Lib.System

/-!
# A FIFO channel

Batches of values are sent into a channel and received one value at a time.

* `Fifo`: the buffer, with everything that was sent and received.
* **`Fifo.balanced`**: what was received, then the buffer, is what was sent.
-/

namespace Lib

variable {α : Type*}

structure Fifo (α : Type*) where
  buffer : List α := []
  sent : List (List α) := []
  received : List α := []

namespace Fifo

inductive Op (α : Type*)
  | send (xs : List α)
  | receive

def step (s : Fifo α) : Op α → Option (Fifo α)
  | .send xs => some { s with buffer := s.buffer ++ xs, sent := s.sent ++ [xs] }
  | .receive =>
    match s.buffer with
    | [] => none
    | x :: rest => some { s with buffer := rest, received := s.received ++ [x] }

variable (α) in
/-- A channel that starts empty. -/
def system : System (Fifo α) (Op α) where
  init s := s = {}
  step := step

theorem step_send (s : Fifo α) (xs : List α) : (system α).exec s [.send xs] =
    some { s with buffer := s.buffer ++ xs, sent := s.sent ++ [xs] } := rfl

theorem step_receive {s : Fifo α} {x : α} {rest : List α} (h : s.buffer = x :: rest) :
    (system α).exec s [.receive] =
      some { s with buffer := rest, received := s.received ++ [x] } := by
  simp [system, step, h]

/-- **Nothing is lost, received twice or reordered.** -/
theorem balanced {s : Fifo α} (hr : (system α).Reach s) :
    s.received ++ s.buffer = s.sent.flatten := by
  have hi : (system α).Inductive fun s => s.received ++ s.buffer = s.sent.flatten := by
    refine ⟨fun s h0 => ?_, fun s op s' hs h => ?_⟩
    · obtain rfl := h0
      rfl
    · cases op with
      | send xs =>
        cases h
        rw [List.flatten_append, ← hs, ← List.append_assoc]
        simp
      | receive =>
        cases hb : s.buffer with
        | nil => simp [system, step, hb] at h
        | cons x rest =>
          simp only [system, step, hb, Option.some.injEq] at h
          rw [← h, ← hs, hb, List.append_assoc]
          rfl
  exact hi.reach hr

end Fifo

end Lib
