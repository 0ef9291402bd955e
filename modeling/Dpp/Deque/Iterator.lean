import Dpp.Lib.Storage
import Mathlib.Algebra.Order.Ring.Int
import Mathlib.Data.List.GetD
import Mathlib.Data.List.Nodup
import Mathlib.Data.Nat.Basic
import Mathlib.Tactic.Ring

/-!
# Iterators of a deque

A deque keeps its items in subarrays of `k` cells and the addresses of these in an array of
pointers. Its iterators walk along a subarray and over to the next one. Their `mpEnd` is always
`mpBegin + k` and is left out.

* `DequeIterator` and its operators: `setSubarray`, `incr`, `decr`, `add`, `sub`.
* `Shape`: where the pointers and the subarrays lie; `Shape.slot`, `Shape.it`: the cell and the
  iterator at a position, counted from the first cell of the first subarray.
* `Table`: the pointer array holds the addresses of the subarrays.
* **`incr_it`**, **`decr_it`**, **`add_it`**, **`sub_it`**: the operators on positions;
  **`add_eq_of_lt`**: where `operator+=` ends when it goes back more than 16777216 items.
-/

namespace Dpp.Deque

open Lib

/-- `DequeIterator`; a subarray's address is the number of its allocation. -/
structure DequeIterator where
  mpCurrent : Ptr
  mpBegin : ℕ
  mpCurrentArrayPtr : Ptr
deriving DecidableEq

namespace DequeIterator

variable (k : ℕ) (ptrs : Storage ℕ)

/-- `SetSubarray`. -/
def setSubarray (it : DequeIterator) (pCurrentArrayPtr : Ptr) : Option DequeIterator := do
  let a ← ptrs.read pCurrentArrayPtr
  return { it with mpCurrentArrayPtr := pCurrentArrayPtr, mpBegin := a }

/-- `mpCurrent = mpBegin + n` -/
def setCurrent (it : DequeIterator) (n : ℤ) : DequeIterator :=
  { it with mpCurrent := ⟨it.mpBegin, n⟩ }

/-- `operator++` -/
def incr (it : DequeIterator) : Option DequeIterator :=
  if it.mpCurrent.plus 1 = ⟨it.mpBegin, k⟩ then do
    let it ← it.setSubarray ptrs (it.mpCurrentArrayPtr.plus 1)
    return it.setCurrent 0
  else some { it with mpCurrent := it.mpCurrent.plus 1 }

/-- `operator--` -/
def decr (it : DequeIterator) : Option DequeIterator :=
  if it.mpCurrent = ⟨it.mpBegin, 0⟩ then do
    let it ← it.setSubarray ptrs (it.mpCurrentArrayPtr.plus (-1))
    return it.setCurrent (k - 1)
  else some { it with mpCurrent := it.mpCurrent.plus (-1) }

/-- `operator+=`; the division is that of C and rounds towards zero. -/
def add (it : DequeIterator) (n : ℤ) : Option DequeIterator :=
  let subarrayPosition := it.mpCurrent.off + n
  if 0 ≤ subarrayPosition ∧ subarrayPosition < k then
    some { it with mpCurrent := it.mpCurrent.plus n }
  else do
    let subarrayIndex := (16777216 + subarrayPosition).tdiv k - (16777216 : ℤ).tdiv k
    let it ← it.setSubarray ptrs (it.mpCurrentArrayPtr.plus subarrayIndex)
    return it.setCurrent (subarrayPosition - subarrayIndex * k)

/-- `operator-` of two iterators -/
def sub (a b : DequeIterator) : ℤ :=
  k * ((a.mpCurrentArrayPtr.off - b.mpCurrentArrayPtr.off) - 1) + a.mpCurrent.off +
    (k - b.mpCurrent.off)

variable {k ptrs}

theorem add_of_mem {it : DequeIterator} {n : ℤ}
    (h : 0 ≤ it.mpCurrent.off + n ∧ it.mpCurrent.off + n < k) :
    it.add k ptrs n = some { it with mpCurrent := it.mpCurrent.plus n } := if_pos h

theorem add_of_not_mem {it : DequeIterator} {n i : ℤ}
    (h : ¬ (0 ≤ it.mpCurrent.off + n ∧ it.mpCurrent.off + n < k))
    (hi : (16777216 + (it.mpCurrent.off + n)).tdiv k - (16777216 : ℤ).tdiv k = i) :
    it.add k ptrs n = (it.setSubarray ptrs (it.mpCurrentArrayPtr.plus i)).bind fun it' =>
      some (it'.setCurrent (it.mpCurrent.off + n - i * k)) := by
  rw [add, if_neg h, hi]
  rfl

end DequeIterator

/-! ## Positions -/

/-- Where a deque lies: its pointer array, the unused pointers in front, the subarrays in use and
the position of the first item. -/
structure Shape where
  table : ℕ
  lead : ℕ
  subs : List ℕ
  head : ℕ

namespace Shape

variable (k : ℕ) (s : Shape)

/-- The cell at a position. -/
def slot (p : ℕ) : Ptr := ⟨s.subs.getD (p / k) 0, (p % k : ℕ)⟩

/-- The iterator at a position. -/
def it (p : ℕ) : DequeIterator :=
  ⟨s.slot k p, s.subs.getD (p / k) 0, ⟨s.table, (s.lead + p / k : ℕ)⟩⟩

/-- How many cells the subarrays have. -/
def cells : ℕ := s.subs.length * k

@[simp] theorem it_mpCurrent (p : ℕ) : (s.it k p).mpCurrent = s.slot k p := rfl

@[simp] theorem it_mpBegin (p : ℕ) : (s.it k p).mpBegin = s.subs.getD (p / k) 0 := rfl

@[simp] theorem it_mpCurrentArrayPtr (p : ℕ) :
    (s.it k p).mpCurrentArrayPtr = ⟨s.table, (s.lead + p / k : ℕ)⟩ := rfl

@[simp] theorem slot_base (p : ℕ) : (s.slot k p).base = s.subs.getD (p / k) 0 := rfl

@[simp] theorem slot_off (p : ℕ) : (s.slot k p).off = (p % k : ℕ) := rfl

variable {k s}

theorem div_lt {p : ℕ} (hp : p < s.cells k) : p / k < s.subs.length := by
  rw [cells, Nat.mul_comm] at hp
  exact Nat.div_lt_of_lt_mul hp

theorem pos_of_lt {p : ℕ} (hp : p < s.cells k) : 0 < k := by
  rcases Nat.eq_zero_or_pos k with rfl | h
  · exact absurd hp (by simp [cells])
  · exact h

theorem getD_mem {j : ℕ} (hj : j < s.subs.length) : s.subs.getD j 0 ∈ s.subs := by
  rw [List.getD_eq_getElem _ _ hj]
  exact List.getElem_mem hj

theorem slot_inj (hs : s.subs.Nodup) {p q : ℕ} (hp : p < s.cells k) (hq : q < s.cells k) :
    s.slot k p = s.slot k q ↔ p = q := by
  constructor
  · intro h
    have hb : s.subs.getD (p / k) 0 = s.subs.getD (q / k) 0 := congrArg Ptr.base h
    have ho : ((p % k : ℕ) : ℤ) = (q % k : ℕ) := congrArg Ptr.off h
    rw [List.getD_eq_getElem _ _ (div_lt hp), List.getD_eq_getElem _ _ (div_lt hq),
      hs.getElem_inj_iff] at hb
    have hp' := Nat.div_add_mod p k
    have hq' := Nat.div_add_mod q k
    rw [hb] at hp'
    omega
  · rintro rfl
    rfl

theorem divMod_succ_of_eq (hk : 0 < k) {p : ℕ} (hp : p % k + 1 = k) :
    (p + 1) / k = p / k + 1 ∧ (p + 1) % k = 0 := by
  have hpos : p + 1 = k * (p / k + 1) := by
    have := Nat.div_add_mod p k
    rw [Nat.mul_add, Nat.mul_one]
    omega
  rw [hpos, Nat.mul_div_cancel_left _ hk, Nat.mul_mod_right]
  exact ⟨rfl, rfl⟩

theorem divMod_succ_of_ne (hk : 0 < k) {p : ℕ} (hp : p % k + 1 ≠ k) :
    (p + 1) / k = p / k ∧ (p + 1) % k = p % k + 1 := by
  have hmod := Nat.mod_lt p hk
  have hdiv := Nat.div_add_mod p k
  have hd : (p + 1) / k = p / k := by
    rw [Nat.div_eq_of_lt_le] <;> rw [Nat.mul_comm] <;> [skip; rw [Nat.mul_add]] <;> omega
  have := Nat.div_add_mod (p + 1) k
  rw [hd] at this
  exact ⟨hd, by omega⟩

theorem it_last_iff {p : ℕ} :
    (s.it k p).mpCurrent.plus 1 = ⟨(s.it k p).mpBegin, k⟩ ↔ p % k + 1 = k := by
  constructor
  · intro h
    have : ((p % k : ℕ) : ℤ) + 1 = k := congrArg Ptr.off h
    omega
  · intro h
    have : ((p % k : ℕ) : ℤ) + 1 = k := by omega
    exact Ptr.ext rfl this

theorem it_first_iff {p : ℕ} : (s.it k p).mpCurrent = ⟨(s.it k p).mpBegin, 0⟩ ↔ p % k = 0 :=
  ⟨fun h => Int.ofNat_eq_zero.mp (congrArg Ptr.off h),
    fun h => Ptr.ext rfl (Int.ofNat_eq_zero.mpr h)⟩

/-- One item on, inside a subarray. -/
theorem it_succ (hk : 0 < k) {p : ℕ} (hp : p % k + 1 ≠ k) :
    s.it k (p + 1) = { s.it k p with mpCurrent := (s.slot k p).plus 1 } := by
  obtain ⟨hd, hm⟩ := divMod_succ_of_ne hk hp
  simp [it, slot, hd, hm, Ptr.plus]

/-- One item back, inside a subarray. -/
theorem it_pred (hk : 0 < k) {p : ℕ} (hp : p % k + 1 ≠ k) :
    { s.it k (p + 1) with mpCurrent := (s.slot k (p + 1)).plus (-1) } = s.it k p := by
  obtain ⟨hd, hm⟩ := divMod_succ_of_ne hk hp
  simp [it, slot, hd, hm, Ptr.plus]

end Shape

/-- The pointer array has `n` entries and those from the `lead`-th on are the addresses of the
subarrays. -/
structure Table (ptrs : Storage ℕ) (n : ℕ) (s : Shape) : Prop where
  size : ∀ a, ptrs.size a = if a = s.table then some n else none
  room : s.lead + s.subs.length ≤ n
  entry : ∀ j < s.subs.length, ptrs.obj ⟨s.table, (s.lead + j : ℕ)⟩ = some (s.subs.getD j 0)
  fresh : s.table < ptrs.next

section

variable {k : ℕ} {ptrs : Storage ℕ} {n : ℕ} {s : Shape} (h : Table ptrs n s)
include h

theorem Table.live {i : ℕ} (hi : i < n) : ptrs.Live ⟨s.table, i⟩ :=
  Storage.live_of_size (n := n) (by rw [h.size, if_pos rfl]) (by simp) (by simpa using hi)

theorem Table.read {j : ℕ} (hj : j < s.subs.length) :
    ptrs.read ⟨s.table, (s.lead + j : ℕ)⟩ = some (s.subs.getD j 0) :=
  Storage.read_eq (h.live (by have := h.room; omega)) (h.entry j hj)

theorem Table.setSubarray {j : ℕ} (hj : j < s.subs.length) (it : DequeIterator) {q : Ptr}
    (hq : q = ⟨s.table, (s.lead + j : ℕ)⟩) : it.setSubarray ptrs q =
      some { it with
        mpCurrentArrayPtr := ⟨s.table, (s.lead + j : ℕ)⟩, mpBegin := s.subs.getD j 0 } := by
  rw [hq, DequeIterator.setSubarray, h.read hj]
  rfl

theorem incr_it {p : ℕ} (hp : p + 1 < s.cells k) :
    (s.it k p).incr k ptrs = some (s.it k (p + 1)) := by
  have hk := Shape.pos_of_lt hp
  rw [DequeIterator.incr]
  by_cases hend : p % k + 1 = k
  · obtain ⟨hd, hm⟩ := Shape.divMod_succ_of_eq hk hend
    rw [if_pos (Shape.it_last_iff.mpr hend), h.setSubarray (hd ▸ Shape.div_lt hp) _
      (by simp [Ptr.plus]; ring)]
    simp [DequeIterator.setCurrent, Shape.it, Shape.slot, hd, hm]
  · rw [if_neg fun hc => hend (Shape.it_last_iff.mp hc), Shape.it_succ hk hend]
    rfl

theorem decr_it {p : ℕ} (hp : p + 1 < s.cells k) :
    (s.it k (p + 1)).decr k ptrs = some (s.it k p) := by
  have hk := Shape.pos_of_lt hp
  have hmod := Nat.mod_lt (p + 1) hk
  have hdiv := Nat.div_add_mod (p + 1) k
  rw [DequeIterator.decr]
  by_cases hbeg : (p + 1) % k = 0
  · have hpos : p + 1 = k * ((p + 1) / k) := by omega
    obtain ⟨j, hj⟩ : ∃ j, (p + 1) / k = j + 1 := by
      refine ⟨(p + 1) / k - 1, (Nat.sub_add_cancel ?_).symm⟩
      by_contra hc
      rw [Nat.lt_one_iff.mp (Nat.not_le.mp hc)] at hpos
      omega
    rw [hj, Nat.mul_add, Nat.mul_one] at hpos
    have hd : p / k = j := by
      rw [show p = k - 1 + k * j by omega, Nat.add_mul_div_left _ _ hk,
        Nat.div_eq_of_lt (by omega), Nat.zero_add]
    have hm : p % k = k - 1 := by
      rw [show p = k - 1 + k * j by omega, Nat.add_mul_mod_self_left, Nat.mod_eq_of_lt (by omega)]
    rw [if_pos (Shape.it_first_iff.mpr hbeg), h.setSubarray (j := j)
      (hd ▸ Shape.div_lt (Nat.lt_of_succ_lt hp)) _ (by simp [Ptr.plus, hj]; ring)]
    simp [DequeIterator.setCurrent, Shape.it, Shape.slot, hd, hm, Nat.cast_sub hk]
  · have hne : p % k + 1 ≠ k := fun hc => hbeg (Shape.divMod_succ_of_eq hk hc).2
    rw [if_neg fun hc => hbeg (Shape.it_first_iff.mp hc), ← Shape.it_pred hk hne]
    rfl

omit h in
theorem sub_it (p q : ℕ) : (s.it k p).sub k (s.it k q) = (p : ℤ) - q := by
  have hp : ((k * (p / k) + p % k : ℕ) : ℤ) = p := by rw [Nat.div_add_mod]
  have hq : ((k * (q / k) + q % k : ℕ) : ℤ) = q := by rw [Nat.div_add_mod]
  push_cast at hp hq
  simp only [DequeIterator.sub, Shape.it, Shape.slot]
  rw [← hp, ← hq]
  push_cast
  ring

/-! ## Random access -/

omit h in
/-- The position a move by `n` starts from and ends at, within the first subarray's cells. -/
theorem move_eq {p q : ℕ} {n : ℤ} (hq : (q : ℤ) = p + n) :
    (p % k : ℕ) + n = k * ((q / k : ℕ) - (p / k : ℕ) : ℤ) + (q % k : ℕ) := by
  have hp' : ((k * (p / k) + p % k : ℕ) : ℤ) = p := by rw [Nat.div_add_mod]
  have hq' : ((k * (q / k) + q % k : ℕ) : ℤ) = q := by rw [Nat.div_add_mod]
  push_cast at hp' hq' ⊢
  rw [Int.mul_sub]
  omega

/-- `operator+=` moves by `n` items, as long as it does not go back more than 16777216 cells from
the begin of its subarray, or goes back whole subarrays. -/
theorem add_it (hk : k ∣ 16777216) {p q : ℕ} {n : ℤ} (hq : (q : ℤ) = p + n)
    (hlt : q < s.cells k)
    (hn : -16777216 ≤ (p % k : ℕ) + n ∨ (k : ℤ) ∣ (p % k : ℕ) + n) :
    (s.it k p).add k ptrs n = some (s.it k q) := by
  have hk0 : 0 < k := Nat.pos_of_dvd_of_pos hk (by norm_num)
  have hmove := move_eq (k := k) hq
  have hmod := Nat.mod_lt q hk0
  obtain ⟨c, hc⟩ := hk
  have hc' : (16777216 : ℤ) = k * c := by exact_mod_cast hc
  by_cases hin : 0 ≤ ((p % k : ℕ) : ℤ) + n ∧ ((p % k : ℕ) : ℤ) + n < k
  · have hd : q / k = p / k := by
      rw [hmove] at hin
      have h1 : (k : ℤ) * ((q / k : ℕ) - (p / k : ℕ)) < k * 1 := by omega
      have h2 : (k : ℤ) * (-1) < k * ((q / k : ℕ) - (p / k : ℕ)) := by omega
      have hk' : (0 : ℤ) < k := by exact_mod_cast hk0
      have := lt_of_mul_lt_mul_left h1 hk'.le
      have := lt_of_mul_lt_mul_left h2 hk'.le
      omega
    rw [DequeIterator.add_of_mem hin]
    have ho : ((p % k : ℕ) : ℤ) + n = (q % k : ℕ) := by rw [hmove, hd]; ring
    simp only [Shape.it, Shape.slot, Ptr.plus, hd, ho]
  · have hidx : (16777216 + (((p % k : ℕ) : ℤ) + n)).tdiv k - (16777216 : ℤ).tdiv k =
        (q / k : ℕ) - (p / k : ℕ) := by
      have hk' : (k : ℤ) ≠ 0 := by exact_mod_cast hk0.ne'
      have hquot : (16777216 : ℤ).tdiv k = c := by rw [hc', Int.mul_tdiv_cancel_left _ hk']
      rw [hquot]
      rcases hn with hn | ⟨m, hm⟩
      · rw [Int.tdiv_eq_ediv_of_nonneg (by omega), hmove, hc',
          show (k : ℤ) * c + (k * ((q / k : ℕ) - (p / k : ℕ) : ℤ) + (q % k : ℕ)) =
            (q % k : ℕ) + k * (c + ((q / k : ℕ) - (p / k : ℕ))) by ring,
          Int.add_mul_ediv_left _ _ hk', Int.ediv_eq_zero_of_lt (by omega) (by omega)]
        ring
      · have h0 : q % k = 0 := by
          have hdvd : (k : ℤ) ∣ (q % k : ℕ) := by
            refine ⟨m - ((q / k : ℕ) - (p / k : ℕ)), ?_⟩
            rw [Int.mul_sub, ← hm, hmove]
            ring
          have := Nat.mod_eq_of_lt hmod
          exact Nat.eq_zero_of_dvd_of_lt (by exact_mod_cast hdvd) hmod
        rw [hmove, h0, hc']
        push_cast
        rw [add_zero, ← Int.mul_add, Int.mul_tdiv_cancel_left _ hk']
        ring
    have hlead : (⟨s.table, ((s.lead + p / k : ℕ) : ℤ)⟩ : Ptr).plus
        ((q / k : ℕ) - (p / k : ℕ)) = ⟨s.table, (s.lead + q / k : ℕ)⟩ := by
      simp only [Ptr.plus]
      congr 1
      push_cast
      ring
    rw [DequeIterator.add_of_not_mem hin hidx, Shape.it_mpCurrentArrayPtr,
      h.setSubarray (Shape.div_lt hlt) _ hlead]
    have ho : ((p % k : ℕ) : ℤ) + n - ((q / k : ℕ) - (p / k : ℕ)) * k = (q % k : ℕ) := by
      rw [hmove]
      ring
    simp only [Option.bind_some, DequeIterator.setCurrent, Shape.it, Shape.slot, ho]

/-- Going back further than that, not by whole subarrays, it ends in front of a subarray. -/
theorem add_eq_of_lt (hk : k ∣ 16777216) {p q : ℕ} {n : ℤ} (hq : (q : ℤ) = p + n)
    (hlt : p < s.cells k) (hn : (p % k : ℕ) + n < -16777216)
    (hnd : ¬ (k : ℤ) ∣ (p % k : ℕ) + n) :
    ∃ it, (s.it k p).add k ptrs n = some it ∧ it.mpCurrent.off < 0 ∧
      it.mpCurrent ≠ s.slot k p := by
  have hk0 : 0 < k := Nat.pos_of_dvd_of_pos hk (by norm_num)
  have hmove := move_eq (k := k) hq
  have hmod := Nat.mod_lt q hk0
  obtain ⟨c, hc⟩ := hk
  have hc' : (16777216 : ℤ) = k * c := by exact_mod_cast hc
  have hk' : (k : ℤ) ≠ 0 := by exact_mod_cast hk0.ne'
  have h0 : 0 < q % k := by
    refine Nat.pos_of_ne_zero fun h0 => hnd ⟨(q / k : ℕ) - (p / k : ℕ), ?_⟩
    rw [hmove, h0, Nat.cast_zero, add_zero]
  -- the quotient rounds towards zero, to the subarray after the right one
  have hidx : (16777216 + (((p % k : ℕ) : ℤ) + n)).tdiv k - (16777216 : ℤ).tdiv k =
      (q / k : ℕ) - (p / k : ℕ) + 1 := by
    have hquot : (16777216 : ℤ).tdiv k = c := by rw [hc', Int.mul_tdiv_cancel_left _ hk']
    have hneg : (16777216 + (((p % k : ℕ) : ℤ) + n)) = -(-(k * c) -
        (k * ((q / k : ℕ) - (p / k : ℕ) : ℤ) + (q % k : ℕ))) := by rw [hmove, hc']; ring
    rw [hquot, hneg, Int.neg_tdiv, Int.tdiv_eq_ediv_of_nonneg (by omega),
      show -((k : ℤ) * c) - (k * ((q / k : ℕ) - (p / k : ℕ) : ℤ) + (q % k : ℕ)) =
        (k - (q % k : ℕ)) + k * (-c - ((q / k : ℕ) - (p / k : ℕ)) - 1) by ring,
      Int.add_mul_ediv_left _ _ hk', Int.ediv_eq_zero_of_lt (by omega) (by omega)]
    ring
  have hlt' : q / k + 1 ≤ p / k := by
    have hkpos : (0 : ℤ) < k := by exact_mod_cast hk0
    have : (k : ℤ) * ((q / k : ℕ) - (p / k : ℕ)) < k * 0 := by omega
    have := lt_of_mul_lt_mul_left this hkpos.le
    omega
  have hlead : (⟨s.table, ((s.lead + p / k : ℕ) : ℤ)⟩ : Ptr).plus
      ((q / k : ℕ) - (p / k : ℕ) + 1) = ⟨s.table, (s.lead + (q / k + 1) : ℕ)⟩ := by
    simp only [Ptr.plus]
    congr 1
    push_cast
    ring
  have ho : ((p % k : ℕ) : ℤ) + n - ((q / k : ℕ) - (p / k : ℕ) + 1) * k = (q % k : ℕ) - k := by
    rw [hmove]
    ring
  have hout : ¬ (0 ≤ ((p % k : ℕ) : ℤ) + n ∧ ((p % k : ℕ) : ℤ) + n < k) := by omega
  rw [DequeIterator.add_of_not_mem hout hidx, Shape.it_mpCurrentArrayPtr,
    h.setSubarray (lt_of_le_of_lt hlt' (Shape.div_lt hlt)) _ hlead]
  refine ⟨_, rfl, ?_, fun hc => ?_⟩
  · show ((p % k : ℕ) : ℤ) + n - ((q / k : ℕ) - (p / k : ℕ) + 1) * k < 0
    omega
  · have : ((p % k : ℕ) : ℤ) + n - ((q / k : ℕ) - (p / k : ℕ) + 1) * k = (p % k : ℕ) :=
      congrArg Ptr.off hc
    omega

end

end Dpp.Deque
