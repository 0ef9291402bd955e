import Dpp.Timer.DpcTimer
import Dpp.Timer.ExTimer
import Mathlib.Algebra.Order.Group.Unbundled.Abs

/-!
# Periodic timers

The two `Start`s turn the same relative timeout into a period: `DpcTimer` into a `LONG` of
milliseconds, `ExTimer` into a `LONGLONG` of the units the timeout is in.

* `DpcTimer.setTimer_period`, `ExTimer.setTimer_period`: the periods the timers are set with.
* `Refires`: both are positive and less than a millisecond off the timeout, and nothing overflows.
* **`refires_iff`**: so it is from one millisecond up to 2 ^ 31 of them.
-/

namespace Dpp

open Lib

/-- `KeSetTimerEx` gets the period of the call of `Start`. -/
theorem DpcTimer.setTimer_period {R P : Type} [DecidableEq P] [Fintype P] {s s' : State R P}
    {routine : R} {timeout : BitVec 64} {periodic : Bool} (hf : s.owner.free)
    (h : (system R P).exec s [.start routine timeout periodic, .initializeDpc, .setTimer] =
      some s') :
    s'.timer.map Arming.period = some (periodMs timeout periodic) := by
  have hs : (system R P).step s (.start routine timeout periodic) =
      some (s.start routine timeout periodic) := if_pos hf
  rw [System.exec_cons, hs] at h
  cases h
  rfl

namespace ExTimer

/-- The period `Start` passes to `ExSetTimer`. -/
def period (timeout : BitVec 64) (periodic : Bool) : BitVec 64 := if periodic then -timeout else 0

/-- `ExSetTimer` gets the period of the call of `Start`, on the timer just allocated. -/
theorem setTimer_period {R : Type} {s s' : State R} {routine : R} {timeout : BitVec 64}
    {periodic highPrecision armed result : Bool} (hf : s.owner.free)
    (h : (system R).exec s [.start routine timeout periodic highPrecision true,
      .setTimer armed result] = some s') :
    (s'.allocated s.next).map KTimer.period = some (period timeout periodic) := by
  have hs : (system R).step s (.start routine timeout periodic highPrecision true) =
      some (s.start routine timeout periodic highPrecision true) := if_pos hf
  rw [System.exec_cons, hs] at h
  cases h
  simp [State.setTimer, State.modify, State.start, period]

end ExTimer

/-- A periodic `Start` with this timeout makes both timers fire again in its interval. -/
structure Refires (timeout : BitVec 64) : Prop where
  negation : (-timeout).toInt = -timeout.toInt
  narrowing : (DpcTimer.periodMs timeout true).toInt = ((-timeout).sdiv 10000).toInt
  dpc_pos : 0 < (DpcTimer.periodMs timeout true).toInt
  dpc_near : |10000 * (DpcTimer.periodMs timeout true).toInt - -timeout.toInt| < 10000
  ex_pos : 0 < (ExTimer.period timeout true).toInt
  ex_eq : (ExTimer.period timeout true).toInt = -timeout.toInt
  agree : |10000 * (DpcTimer.periodMs timeout true).toInt - (ExTimer.period timeout true).toInt| <
    10000

section Numbers

variable {timeout : BitVec 64}

/-- The negation overflows for the least timeout only. -/
theorem toInt_neg_of_lt (h : -2 ^ 63 < timeout.toInt) : (-timeout).toInt = -timeout.toInt := by
  have h1 := timeout.toInt_lt
  rw [BitVec.toInt_neg, Int.bmod_def]
  split_ifs <;> omega

/-- The milliseconds of a positive count of units. -/
theorem toInt_sdiv_milliseconds {x : BitVec 64} (h : 0 < x.toInt) :
    (x.sdiv 10000).toInt = x.toInt / 10000 := by
  have h1 := x.toInt_lt
  have hd : x.toInt.tdiv 10000 = x.toInt / 10000 := Int.tdiv_eq_ediv_of_nonneg h.le
  have h10 : (10000 : BitVec 64).toInt = 10000 := by decide
  rw [BitVec.toInt_sdiv, h10, hd, Int.bmod_def]
  split_ifs <;> omega

/-- The narrowing to a `LONG`. -/
theorem toInt_narrow (x : BitVec 64) (h0 : 0 ≤ x.toInt) :
    (x.setWidth 32).toInt = x.toInt ↔ x.toInt < 2 ^ 31 := by
  have hx : x.toInt = x.toNat := by
    rw [BitVec.toInt_eq_toNat_cond] at h0 ⊢
    split_ifs at h0 ⊢ <;> omega
  rw [BitVec.toInt_setWidth, hx, Int.bmod_def]
  split_ifs <;> omega

/-- **Both timers fire again in the interval asked for exactly if** it is at least a millisecond and
less than 2 ^ 31 of them. -/
theorem refires_iff (ht : timeout.toInt < 0) :
    Refires timeout ↔ 10000 ≤ -timeout.toInt ∧ -timeout.toInt < 10000 * 2 ^ 31 := by
  have hp : DpcTimer.periodMs timeout true = ((-timeout).sdiv 10000).setWidth 32 := rfl
  have hex : ExTimer.period timeout true = -timeout := rfl
  constructor
  · intro h
    have hn := h.negation
    have hs := toInt_sdiv_milliseconds (x := -timeout) (by omega)
    have hpos := h.dpc_pos
    have hw := h.narrowing
    rw [hp, toInt_narrow _ (by omega), hs, hn] at hw
    rw [h.narrowing, hs, hn] at hpos
    omega
  · rintro ⟨h1, h2⟩
    have hn : (-timeout).toInt = -timeout.toInt := toInt_neg_of_lt (by omega)
    have hs := toInt_sdiv_milliseconds (x := -timeout) (by omega)
    have hw : (DpcTimer.periodMs timeout true).toInt = ((-timeout).sdiv 10000).toInt :=
      (toInt_narrow _ (by omega)).mpr (by omega)
    have hnear : |10000 * (DpcTimer.periodMs timeout true).toInt - -timeout.toInt| < 10000 := by
      rw [hw, hs, hn, abs_lt]
      omega
    refine ⟨hn, hw, by omega, hnear, by rw [hex]; omega, hex ▸ hn, ?_⟩
    rw [hex, hn]
    exact hnear

end Numbers

/-- A tenth of a second. -/
theorem refires_iff_tenth : Refires (-1000000) ↔
    10000 ≤ -(-1000000 : BitVec 64).toInt ∧ -(-1000000 : BitVec 64).toInt < 10000 * 2 ^ 31 :=
  refires_iff (by decide)

/-- **Half a millisecond** gives `DpcTimer` a period of zero, a timer that fires once. -/
theorem not_refires_half : ¬ ∀ timeout : BitVec 64, timeout.toInt < 0 → Refires timeout := by
  intro h
  exact absurd (h (-5000) (by decide)).dpc_pos (by decide)

end Dpp
