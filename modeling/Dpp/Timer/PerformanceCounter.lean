import Dpp.Lib.System
import Mathlib.Algebra.BigOperators.Group.List.Basic
import Mathlib.Data.BitVec
import Mathlib.Order.Nat
import Mathlib.Tactic.SplitIfs

/-!
# The performance counter

`Start` and `Stop` read the counter of the kernel, and `Stop` adds the microseconds in between to
`m_Elapsed`. The difference of the readings is multiplied in a `LONGLONG` before it is divided.

* `PerformanceCounter`: the three fields and the three functions.
* `State`, `system`: `Start`, `Stop` and `MeasureElapsedMs` calls with their readings, and the pairs
  measured since the last `MeasureElapsedMs`.
* `Exact`: `m_Elapsed` is the sum over the pairs, as long as it fits, and no product has overflowed.
* **`exact_iff_fits`**: so it is in every run exactly if a million times each difference is less
  than 2 ^ 63.
-/

namespace Dpp

open Lib

/-- A `PerformanceCounter`, all zero when constructed. -/
structure PerformanceCounter where
  mStart : BitVec 64 := 0
  mFrequency : BitVec 64 := 0
  mElapsed : BitVec 64 := 0

namespace PerformanceCounter

/-- `PerformanceCounter::Start`, with what `KeQueryPerformanceCounter` returns and stores. -/
def start (c : PerformanceCounter) (counter frequency : BitVec 64) : PerformanceCounter :=
  { c with mStart := counter, mFrequency := frequency }

/-- `elapsed_us` in `Stop`. -/
def elapsedUs (c : PerformanceCounter) (stop : BitVec 64) : BitVec 64 :=
  ((stop - c.mStart) * 1000000).sdiv c.mFrequency

/-- `PerformanceCounter::Stop`, with the reading `stop`. -/
def stop (c : PerformanceCounter) (stop : BitVec 64) : PerformanceCounter :=
  { c with mElapsed := c.mElapsed + c.elapsedUs stop }

/-- A `float` as an `uint64_t`, undefined out of its range. -/
def ofFloat (x : Float32.Model) : Option (BitVec 64) :=
  if x.isFinite ∧ x < .ofNat (2 ^ 64) then some x.toUInt64.toBitVec else none

/-- `PerformanceCounter::MeasureElapsedMs`: the object after it, and what it returns. -/
def measureElapsedMs (c : PerformanceCounter) (iterations : BitVec 64) :
    PerformanceCounter × Option (BitVec 64) :=
  let iterPerUs := Float32.Model.ofNat c.mElapsed.toNat / Float32.Model.ofNat 1000
  let iterPerUs :=
    if iterations = 0 then iterPerUs else Float32.Model.ofNat iterations.toNat / iterPerUs
  ({ c with mElapsed := 0 }, ofFloat iterPerUs)

/-! ## Runs -/

/-- The readings of a `Start` and of the `Stop` after it. -/
structure Pair where
  start : BitVec 64
  stop : BitVec 64
  frequency : BitVec 64

namespace Pair

/-- The ticks between the readings. -/
def ticks (p : Pair) : ℤ := p.stop.toInt - p.start.toInt

/-- The whole microseconds of the ticks. -/
def micros (p : Pair) : ℤ := p.ticks * 1000000 / p.frequency.toInt

/-- The product that `Stop` forms is the product of the integers. -/
def NoOverflow (p : Pair) : Prop := ((p.stop - p.start) * 1000000).toInt = p.ticks * 1000000

end Pair

/-- The object, whether a `Start` waits for its `Stop`, and the pairs since the last
`MeasureElapsedMs`. -/
structure State where
  counter : PerformanceCounter := {}
  started : Bool := false
  pairs : List Pair := []

/-- A call, with the readings of the kernel. -/
inductive Action
  | start (counter frequency : BitVec 64)
  | stop (counter : BitVec 64)
  | measureElapsedMs (iterations : BitVec 64)

/-- The pair a `Stop` completes. -/
def State.pair (s : State) (stop : BitVec 64) : Pair :=
  ⟨s.counter.mStart, stop, s.counter.mFrequency⟩

/-- The frequency is positive, a `Stop` follows a `Start` without a `Stop` in between, and it does
not read less than its `Start`. -/
def step (s : State) : Action → Option State
  | .start counter frequency =>
    if 0 < frequency.toInt then
      some { s with counter := s.counter.start counter frequency, started := true }
    else none
  | .stop counter =>
    if s.started ∧ s.counter.mStart.toInt ≤ counter.toInt then
      some { counter := s.counter.stop counter, started := false,
             pairs := s.pairs ++ [s.pair counter] }
    else none
  | .measureElapsedMs iterations =>
    some { s with counter := (s.counter.measureElapsedMs iterations).1, pairs := [] }

/-- The calls on one object. -/
def system : System State Action where
  init s := s = {}
  step := step

/-- The sum over the pairs. -/
def total (pairs : List Pair) : ℤ := (pairs.map Pair.micros).sum

/-- What `m_Elapsed` is for. -/
structure Exact (s : State) : Prop where
  elapsed : total s.pairs < 2 ^ 64 → (s.counter.mElapsed.toNat : ℤ) = total s.pairs
  product : ∀ p ∈ s.pairs, p.NoOverflow

/-- A million times the difference of the pair that a `Stop` completes fits in a `LONGLONG`. -/
def Fits (s : State) : Action → Prop
  | .stop counter => (s.pair counter).ticks * 1000000 < 2 ^ 63
  | _ => True

instance (s : State) : DecidablePred (Fits s)
  | .stop counter => inferInstanceAs (Decidable ((s.pair counter).ticks * 1000000 < 2 ^ 63))
  | .start .. => isTrue trivial
  | .measureElapsedMs _ => isTrue trivial

/-! ## One pair -/

variable {p : Pair}

/-- A positive difference that is too large does not fit, and one that is not does. -/
theorem Pair.noOverflow_iff (h : p.start.toInt ≤ p.stop.toInt) :
    p.NoOverflow ↔ p.ticks * 1000000 < 2 ^ 63 := by
  have h1 := p.start.le_toInt
  have h2 := p.stop.toInt_lt
  have ht : 0 ≤ p.ticks := Int.sub_nonneg_of_le h
  have h10 : (1000000 : BitVec 64).toInt = 1000000 := by decide
  unfold NoOverflow
  constructor
  · intro hp
    rw [← hp]
    exact BitVec.toInt_lt
  · intro hp
    have hs : (p.stop - p.start).toInt = p.ticks := by
      rw [BitVec.toInt_sub, Int.bmod_def]
      unfold ticks at ht hp ⊢
      split_ifs <;> omega
    rw [BitVec.toInt_mul, hs, h10, Int.bmod_def]
    split_ifs <;> omega

/-- The quotient that `Stop` adds, when the product is exact. -/
theorem toInt_elapsedUs (hp : p.NoOverflow) (h : p.start.toInt ≤ p.stop.toInt)
    (hf : 0 < p.frequency.toInt) :
    (((p.stop - p.start) * 1000000).sdiv p.frequency).toInt = p.micros := by
  have ht : 0 ≤ p.ticks * 1000000 := Int.mul_nonneg (Int.sub_nonneg_of_le h) (by decide)
  have hlt := (p.noOverflow_iff h).mp hp
  have hle : p.ticks * 1000000 / p.frequency.toInt ≤ p.ticks * 1000000 :=
    Int.ediv_le_self _ ht
  have hnn : 0 ≤ p.ticks * 1000000 / p.frequency.toInt := Int.ediv_nonneg ht hf.le
  unfold Pair.NoOverflow at hp
  rw [BitVec.toInt_sdiv, hp, Int.tdiv_eq_ediv_of_nonneg ht, Int.bmod_def]
  unfold Pair.micros
  split_ifs <;> omega

/-! ## Runs that fit -/

/-- Between the calls: a started measurement has a frequency, and `m_Elapsed` is the sum as long as
it fits. -/
structure Good (s : State) : Prop where
  frequency : s.started → 0 < s.counter.mFrequency.toInt
  elapsed : s.counter.mElapsed = BitVec.ofInt 64 (total s.pairs)
  total_nonneg : 0 ≤ total s.pairs
  product : ∀ p ∈ s.pairs, p.NoOverflow

theorem Good.exact {s : State} (hi : Good s) : Exact s := by
  refine ⟨fun h => ?_, hi.product⟩
  have h0 := hi.total_nonneg
  rw [hi.elapsed, BitVec.toNat_ofInt]
  omega

theorem good_new : Good {} := by
  refine ⟨fun h => Bool.noConfusion h, rfl, le_rfl, ?_⟩
  intro p hp
  cases hp

theorem total_append (pairs : List Pair) (p : Pair) :
    total (pairs ++ [p]) = total pairs + p.micros := by
  simp [total]

/-- A pair that fits. -/
theorem Good.stop {s : State} {counter : BitVec 64} (hi : Good s) (hr : s.started)
    (hle : s.counter.mStart.toInt ≤ counter.toInt)
    (hc : (s.pair counter).ticks * 1000000 < 2 ^ 63) :
    Good { counter := s.counter.stop counter, started := false,
           pairs := s.pairs ++ [s.pair counter] } := by
  have hf : 0 < (s.pair counter).frequency.toInt := hi.frequency hr
  have hp : (s.pair counter).NoOverflow := (Pair.noOverflow_iff hle).mpr hc
  have hus : s.counter.elapsedUs counter = BitVec.ofInt 64 (s.pair counter).micros := by
    rw [← toInt_elapsedUs hp hle hf, BitVec.ofInt_toInt]
    rfl
  have hm : 0 ≤ (s.pair counter).micros :=
    Int.ediv_nonneg (Int.mul_nonneg (Int.sub_nonneg_of_le hle) (by decide)) hf.le
  refine ⟨fun h => Bool.noConfusion h, ?_, ?_, ?_⟩
  · change s.counter.mElapsed + s.counter.elapsedUs counter = _
    rw [hi.elapsed, hus, total_append, BitVec.ofInt_add]
  · rw [total_append]
    exact Int.add_nonneg hi.total_nonneg hm
  · intro p h
    rcases List.mem_append.mp h with h | h
    · exact hi.product p h
    · obtain rfl := List.mem_singleton.mp h
      exact hp

theorem keeps_good : system.Keeps Fits Good := by
  intro s a s' hi hc h
  cases a with
  | start counter frequency =>
    obtain ⟨hf, he⟩ := Option.ite_none_right_eq_some.mp h
    cases he
    exact ⟨fun _ => hf, hi.elapsed, hi.total_nonneg, hi.product⟩
  | stop counter =>
    obtain ⟨⟨hr, hle⟩, he⟩ := Option.ite_none_right_eq_some.mp h
    cases he
    exact hi.stop hr hle hc
  | measureElapsedMs iterations =>
    cases h
    exact ⟨hi.frequency, rfl, le_rfl, fun p hp => by cases hp⟩

/-- A `Stop` after which every product is exact. -/
theorem fits_of_exact (s : State) (a : Action) (s' : State) (h : system.step s a = some s')
    (_ : Exact s) (he : Exact s') : Fits s a := by
  cases a with
  | start | measureElapsedMs => trivial
  | stop counter =>
    obtain ⟨⟨-, hle⟩, h⟩ := Option.ite_none_right_eq_some.mp h
    cases h
    have hp : (s.pair counter).NoOverflow :=
      he.product _ (List.mem_append_right _ (List.mem_singleton_self _))
    exact (Pair.noOverflow_iff hle).mp hp

/-- **`m_Elapsed` is exact along a run exactly if** the product of every `Stop` fits. -/
theorem exact_iff_fits (as : List Action) :
    system.Always Exact {} as ↔ system.Meets Fits {} as := by
  refine ⟨System.Meets.of_always fits_of_exact, fun hm => ?_⟩
  exact (keeps_good.always good_new hm).mono fun s hi => hi.exact

/-- **Eleven days at ten megahertz**: the product wraps around, and what is added is negative. -/
theorem not_exact_long : ¬ ∀ as : List Action, system.Always Exact {} as := by
  intro h
  have hl : Exact { counter := { mFrequency := 10000000, mElapsed := _ }, pairs := _ } :=
    (h [.start 0 10000000, .stop 9223372036855]).last rfl
  exact absurd (hl.elapsed (by decide)) (by decide)

end PerformanceCounter

end Dpp
