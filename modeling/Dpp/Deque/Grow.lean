import Dpp.Deque.Layout

/-!
# Room for more items

What the functions of `DequeBase` that make room do to what a deque owns.

* `SameEnds`: the iterators are as before; `allocateSubarrays_behind`, `allocateSubarrays_before`.
* `Table.move`, `Table.moveNew`: the used pointers inside their array and in a new one.
* **`doReallocPtrArray_spec`**: moving the pointers keeps everything and makes the room asked for;
  a new array is taken only if the old one has no such room.
* **`doReallocSubarray_back`**, **`doReallocSubarray_front`**: room for `n` items at either side.
-/

namespace Dpp

open Lib

namespace Deque

variable {T : Type} {k : ℕ} {d : Deque T k} {s : Shape} {l : List T}

/-- The iterators and the pointer array are those of before. -/
structure SameEnds (d d' : Deque T k) : Prop where
  begin_eq : d'.mItBegin = d.mItBegin
  end_eq : d'.mItEnd = d.mItEnd
  size_eq : d'.mnPtrArraySize = d.mnPtrArraySize

theorem SameEnds.trans {d₁ d₂ d₃ : Deque T k} (h : SameEnds d₁ d₂) (h' : SameEnds d₂ d₃) :
    SameEnds d₁ d₃ :=
  ⟨h'.begin_eq.trans h.begin_eq, h'.end_eq.trans h.end_eq, h'.size_eq.trans h.size_eq⟩

theorem SameEnds.withSubarray (d : Deque T k) (pp : Ptr) : SameEnds d (d.withSubarray pp) :=
  ⟨rfl, rfl, rfl⟩

/-! ## Subarrays -/

theorem allocateSubarrays_behind (hk : 0 < k) {n : ℕ} {f : ℕ → Option T} (h : Owns d s f)
    (hroom : s.lead + s.subs.length + n ≤ d.mnPtrArraySize)
    (hf : ∀ p, s.cells k ≤ p → f p = none) :
    ∃ d' new, d.allocateSubarrays ⟨s.table, (s.lead + s.subs.length : ℕ)⟩ 1 n = some d' ∧
      new.length = n ∧ Owns d' (s.behind new) f ∧ SameEnds d d' := by
  induction n generalizing d s with
  | zero =>
    refine ⟨d, [], rfl, rfl, ?_, rfl, rfl, rfl⟩
    rwa [Shape.behind, List.append_nil]
  | succ n ih =>
    have h1 := h.withSubarray_behind hk (by omega) hf
    have hlen : (s.behind [d.items.next]).subs.length = s.subs.length + 1 := by
      simp only [Shape.behind, List.length_append, List.length_singleton]
    have hcells : (s.behind [d.items.next]).cells k = s.cells k + k := by
      rw [Shape.cells_behind, List.length_singleton, Nat.one_mul]
    have hpp : (⟨s.table, (s.lead + s.subs.length : ℕ)⟩ : Ptr).plus 1 =
        ⟨s.table, ((s.behind [d.items.next]).lead +
          (s.behind [d.items.next]).subs.length : ℕ)⟩ := by
      rw [hlen]
      simp only [Ptr.plus, Shape.behind]
      congr 1
    have hroom' : (s.behind [d.items.next]).lead + (s.behind [d.items.next]).subs.length + n ≤
        (d.withSubarray ⟨s.table, (s.lead + s.subs.length : ℕ)⟩).mnPtrArraySize := by
      rw [hlen]
      simp only [Shape.behind, withSubarray]
      omega
    obtain ⟨d', new, hd', hnew, hown, hsame⟩ := ih h1 hroom' fun p hp => hf p (by omega)
    refine ⟨d', d.items.next :: new, ?_, by rw [List.length_cons, hnew], ?_,
      (SameEnds.withSubarray d _).trans hsame⟩
    · rw [allocateSubarrays, allocateSubarray_eq h.table (by omega), hpp]
      exact hd'
    · rwa [Shape.behind, Shape.behind, List.append_assoc] at hown

theorem allocateSubarrays_before (hk : 0 < k) {n : ℕ}
    (h : Owns d s (window s.head l)) (hn : n ≤ s.lead) :
    ∃ d' new, d.allocateSubarrays ⟨s.table, (s.lead : ℤ) - 1⟩ (-1) n = some d' ∧
      new.length = n ∧ Owns d' (s.before k new) (window (s.before k new).head l) ∧
      SameEnds d d' := by
  induction n generalizing d s with
  | zero =>
    refine ⟨d, [], rfl, rfl, ?_, rfl, rfl, rfl⟩
    simpa [Shape.before] using h
  | succ n ih =>
    have hpp : (⟨s.table, (s.lead : ℤ) - 1⟩ : Ptr) = ⟨s.table, (s.lead - 1 : ℕ)⟩ := by
      rw [Nat.cast_sub (by omega)]
      rfl
    have h1 := h.withSubarray_before (g := window (s.head + k) l) hk (by omega)
      (fun p hp => window_of_lt l (by omega)) fun p => window_add_left k s.head p l
    have h1' : Owns (d.withSubarray ⟨s.table, (s.lead - 1 : ℕ)⟩) (s.before k [d.items.next])
        (window (s.before k [d.items.next]).head l) := by
      simpa [Shape.before] using h1
    obtain ⟨d', new, hd', hnew, hown, hsame⟩ := ih h1'
      (by simp only [Shape.before, List.length_singleton]; omega)
    have hbefore : (s.before k [d.items.next]).before k new =
        s.before k (new ++ [d.items.next]) := by
      simp only [Shape.before, List.length_append, List.length_singleton, List.append_assoc,
        Nat.add_mul, Nat.one_mul, Shape.mk.injEq, true_and]
      omega
    refine ⟨d', new ++ [d.items.next], ?_,
      by rw [List.length_append, hnew, List.length_singleton], hbefore ▸ hown,
      (SameEnds.withSubarray d _).trans hsame⟩
    rw [allocateSubarrays, hpp, allocateSubarray_eq h.table (by have := h.table.room; omega)]
    refine Eq.trans ?_ hd'
    simp only [Shape.before, List.length_singleton, Ptr.plus, Option.bind_eq_bind,
      Option.bind_some]
    congr 2

/-! ## Pointers -/

section

variable {ptrs : Storage ℕ} {n : ℕ} (h : Table ptrs n s)
include h

theorem Table.move (lead : ℕ) (hr : lead + s.subs.length ≤ n) :
    ∃ ptrs', ptrs.memmove ⟨s.table, lead⟩ ⟨s.table, s.lead⟩ s.subs.length = some ptrs' ∧
      Table ptrs' n { s with lead := lead } := by
  have hsize : ptrs.size s.table = some n := by rw [h.size, if_pos rfl]
  obtain ⟨t, ht, hts, htn, hto⟩ := Storage.memmove_eq (Storage.liveRun_of_size hsize hr)
    (Storage.liveRun_of_size hsize h.room)
  refine ⟨t, ht, fun a => by rw [hts, h.size], hr, fun j hj => ?_, htn ▸ h.fresh⟩
  exact (hto j hj).trans (h.entry j hj)

theorem Table.moveNew (lead m : ℕ) (hr : lead + s.subs.length ≤ m) :
    ∃ ptrs₁ ptrs₂, (ptrs.alloc m).1.memmove ⟨ptrs.next, lead⟩ ⟨s.table, s.lead⟩ s.subs.length =
        some ptrs₁ ∧ ptrs₁.freeTrivial s.table = some ptrs₂ ∧
      Table ptrs₂ m { s with table := ptrs.next, lead := lead } := by
  have hne : s.table ≠ ptrs.next := by have := h.fresh; omega
  have hold : (ptrs.alloc m).1.size s.table = some n := by
    rw [Storage.alloc_size_of_ne hne, h.size, if_pos rfl]
  obtain ⟨t, ht, hts, htn, hto⟩ := Storage.memmove_eq
    (Storage.liveRun_of_size Storage.alloc_size_self hr) (Storage.liveRun_of_size hold h.room)
  refine ⟨t, _, ht, Storage.freeTrivial_eq (by rw [hts, hold]), fun a => ?_, hr, fun j hj => ?_, ?_⟩
  · show Function.update t.size s.table none a = _
    rw [hts]
    by_cases ha : a = s.table
    · subst ha
      rw [Function.update_self, if_neg hne]
    · rw [Function.update_of_ne ha, Storage.alloc_size, h.size]
      simp only [ha, if_false]
  · refine (hto j hj).trans ?_
    rw [Storage.alloc_obj, if_neg (by exact hne)]
    exact h.entry j hj
  · show ptrs.next < t.next
    rw [htn]
    exact Nat.lt_succ_self _

end

/-- A shape with its pointers elsewhere. -/
def Shape.moved (s : Shape) (table lead : ℕ) : Shape := { s with table, lead }

section

variable {f : ℕ → Option T} {p q : ℕ}

/-- The deque with its pointers moved. -/
def relocated (d : Deque T k) (s : Shape) (ptrs : Storage ℕ) (size p q : ℕ) : Deque T k :=
  { d with ptrs, mpPtrArray := s.table, mnPtrArraySize := size, mItBegin := s.it k p,
           mItEnd := s.it k q }

theorem Owns.moved (h : Owns d s f) {ptrs : Storage ℕ} {size table lead : ℕ}
    (ht : Table ptrs size (s.moved table lead)) :
    Owns (d.relocated (s.moved table lead) ptrs size p q) (s.moved table lead) f where
  table := ht
  array := rfl
  nodup := h.nodup
  size := h.size
  fresh := h.fresh
  obj := h.obj

/-- The last lines of `DoReallocPtrArray`: the iterators go along with the pointers. -/
theorem resetIterators_eq {n : ℕ} {t : Shape} (h : Table d.ptrs n s) (hs : t.subs = s.subs)
    (hb : d.mItBegin = t.it k p) (he : d.mItEnd = t.it k q) (hp : p / k = 0)
    (hq : q / k + 1 = s.subs.length) :
    d.resetIterators ⟨s.table, s.lead⟩ s.subs.length =
      some { d with mItBegin := s.it k p, mItEnd := s.it k q } := by
  have hlen : 0 < s.subs.length := hq ▸ Nat.succ_pos _
  have hlast : q / k < s.subs.length := hq ▸ Nat.lt_succ_self _
  have hlead : (⟨s.table, s.lead⟩ : Ptr) = ⟨s.table, (s.lead + 0 : ℕ)⟩ := rfl
  have hpp : (⟨s.table, s.lead⟩ : Ptr).plus ((s.subs.length : ℤ) - 1) =
      ⟨s.table, (s.lead + q / k : ℕ)⟩ := by
    simp only [Ptr.plus, ← hq]
    congr 1
    push_cast
    ring
  have hbegin : d.mItBegin.setSubarray d.ptrs ⟨s.table, s.lead⟩ = some (s.it k p) := by
    rw [h.setSubarray hlen d.mItBegin hlead, hb]
    simp only [Shape.it, Shape.slot, hp, hs]
  have hend : d.mItEnd.setSubarray d.ptrs ((⟨s.table, s.lead⟩ : Ptr).plus
      ((s.subs.length : ℤ) - 1)) = some (s.it k q) := by
    rw [h.setSubarray hlast d.mItEnd hpp, he]
    simp only [Shape.it, Shape.slot, hs]
  rw [resetIterators, hbegin, hend]
  rfl

/-- What `DoReallocPtrArray` is called for: `n` more unused pointers at one side. -/
def Shape.Roomier (s s' : Shape) (size size' n : ℕ) : Side → Prop
  | .front => s.lead + n ≤ s'.lead
  | .back => size + s'.lead + n ≤ size' + s.lead

/-- `DoReallocPtrArray` has to take a new array. -/
def Shape.Cramped (s : Shape) (size n : ℕ) : Side → Prop
  | .front => size < s.lead + s.subs.length + n
  | .back => s.lead < n

theorem spread_bounds {n unused : ℕ} (h : n ≤ unused) :
    n ≤ spread n unused ∧ spread n unused ≤ unused := by
  rw [spread]
  split_ifs <;> omega

/-- `DoReallocPtrArray`, called with the begin in the first and the end in the last subarray. -/
theorem doReallocPtrArray_spec (h : Owns d s f) (hb : d.mItBegin = s.it k p)
    (he : d.mItEnd = s.it k q) (hp : p / k = 0) (hq : q / k + 1 = s.subs.length) (n : ℕ)
    (side : Side) :
    ∃ table lead ptrs size, d.doReallocPtrArray n side =
        some (d.relocated (s.moved table lead) ptrs size p q) ∧
      Table ptrs size (s.moved table lead) ∧
      s.Roomier (s.moved table lead) d.mnPtrArraySize size n side ∧
      (size = d.mnPtrArraySize ∨ s.Cramped d.mnPtrArraySize n side ∧
        size = d.mnPtrArraySize + max d.mnPtrArraySize n + 2) := by
  have hroom := h.table.room
  have hfront : d.unusedFront = s.lead := by
    rw [unusedFront, hb, Shape.it_mpCurrentArrayPtr, hp]
    rfl
  have hused : d.usedCount = s.subs.length := by
    rw [usedCount, hb, he, Shape.it_mpCurrentArrayPtr, Shape.it_mpCurrentArrayPtr, hp, ← hq]
    show (((s.lead + q / k : ℕ) : ℤ) - (s.lead + 0 : ℕ)).toNat + 1 = _
    rw [show ((s.lead + q / k : ℕ) : ℤ) - (s.lead + 0 : ℕ) = (q / k : ℕ) by push_cast; ring,
      Int.toNat_natCast]
  have hback : d.unusedBack = d.mnPtrArraySize - s.lead - s.subs.length := by
    rw [unusedBack, hfront, hused]
  have hsrc : d.mItBegin.mpCurrentArrayPtr = ⟨s.table, s.lead⟩ := by
    rw [hb, Shape.it_mpCurrentArrayPtr, hp]
    rfl
  rw [doReallocPtrArray, hfront, hback, hsrc, h.array]
  by_cases hcase₁ : side = .back ∧ n ≤ s.lead
  · -- unused pointers in front are taken to the back
    rw [if_pos hcase₁]
    obtain ⟨rfl, hn⟩ := hcase₁
    generalize hm : spread n s.lead = m
    have hnm : n ≤ m ∧ m ≤ s.lead := hm ▸ spread_bounds hn
    obtain ⟨ptrs', hmove, htable⟩ := h.table.move (s.lead - m) (by omega)
    refine ⟨s.table, s.lead - m, ptrs', d.mnPtrArraySize, ?_, htable, ?_, .inl rfl⟩
    · rw [movePointers, hsrc, hused, hmove]
      refine (resetIterators_eq (d := { d with ptrs := ptrs' }) (t := s) htable rfl hb he hp
        hq).trans ?_
      rw [relocated, Shape.moved, h.array]
    · show d.mnPtrArraySize + (s.lead - m) + n ≤ d.mnPtrArraySize + s.lead
      omega
  rw [if_neg hcase₁]
  by_cases hcase₂ : side = .front ∧ n ≤ d.mnPtrArraySize - s.lead - s.subs.length
  · -- unused pointers behind are taken to the front
    rw [if_pos hcase₂]
    obtain ⟨rfl, hn⟩ := hcase₂
    generalize hm : spread n (d.mnPtrArraySize - s.lead - s.subs.length) = m
    have hnm : n ≤ m ∧ m ≤ d.mnPtrArraySize - s.lead - s.subs.length := hm ▸ spread_bounds hn
    obtain ⟨ptrs', hmove, htable⟩ := h.table.move (s.lead + m) (by omega)
    refine ⟨s.table, s.lead + m, ptrs', d.mnPtrArraySize, ?_, htable, ?_, .inl rfl⟩
    · have hdst : (⟨s.table, s.lead⟩ : Ptr).plus m = ⟨s.table, (s.lead + m : ℕ)⟩ := rfl
      rw [movePointers, hdst, hsrc, hused, hmove]
      refine (resetIterators_eq (d := { d with ptrs := ptrs' }) (t := s) htable rfl hb he hp
        hq).trans ?_
      rw [relocated, Shape.moved, h.array]
    · show s.lead + n ≤ s.lead + m
      omega
  · -- a larger array
    rw [if_neg hcase₂]
    generalize hm : s.lead + (if side = .front then n else 0) = m
    generalize hsize : d.mnPtrArraySize + max d.mnPtrArraySize n + 2 = size
    have hmn : m ≤ s.lead + n := by rw [← hm]; split_ifs <;> omega
    obtain ⟨ptrs₁, ptrs₂, hmove, hfree, htable⟩ := h.table.moveNew m size (by omega)
    refine ⟨d.ptrs.next, m, ptrs₂, size, ?_, htable, ?_, .inr ⟨?_, rfl⟩⟩
    · rw [reallocPointers, hsrc, hused, hmove, Option.bind_eq_bind, Option.bind_some, h.array,
        hfree]
      exact resetIterators_eq (d := { d with
        ptrs := ptrs₂, mpPtrArray := d.ptrs.next, mnPtrArraySize := size }) (t := s)
        htable rfl hb he hp hq
    · cases side with
      | front => exact hm.le
      | back =>
        show d.mnPtrArraySize + m + n ≤ size + s.lead
        rw [if_neg Side.noConfusion] at hm
        omega
    · cases side with
      | front =>
        have : ¬ n ≤ d.mnPtrArraySize - s.lead - s.subs.length := fun hc => hcase₂ ⟨rfl, hc⟩
        show d.mnPtrArraySize < s.lead + s.subs.length + n
        omega
      | back => exact Nat.not_le.mp fun hc => hcase₁ ⟨rfl, hc⟩

end

/-! ## Room at the ends -/

theorem Valid.div_head (h : Valid d s l) : s.head / k = 0 := Nat.div_eq_of_lt h.head_lt

theorem Valid.subs_pos (h : Valid d s l) : 0 < s.subs.length :=
  Nat.pos_of_ne_zero fun hc => by
    have := h.end_lt
    rw [Shape.cells, hc, Nat.zero_mul] at this
    omega

/-- The end is in the last subarray. -/
theorem Valid.div_end (h : Valid d s l) : (s.head + l.length) / k + 1 = s.subs.length := by
  have hk : 0 < k := Nat.zero_lt_of_lt h.head_lt
  obtain ⟨j, hj⟩ : ∃ j, s.subs.length = j + 1 :=
    ⟨s.subs.length - 1, (Nat.sub_add_cancel h.subs_pos).symm⟩
  have hlt := h.end_lt
  have hge := h.end_ge
  rw [Shape.cells, hj] at hlt hge
  rw [hj, Nat.div_eq_of_lt_le (Nat.le_of_add_le_add_right (Nat.succ_mul j k ▸ hge)) hlt]

theorem Valid.cells_eq (h : Valid d s l) : s.cells k = k * ((s.head + l.length) / k) + k := by
  rw [Shape.cells, ← h.div_end, Nat.add_mul, Nat.one_mul, Nat.mul_comm]

variable {n : ℕ}

/-- After a call of `DoReallocPtrArray` the deque holds what it held, elsewhere. -/
theorem Valid.relocated (h : Valid d s l) {table lead size : ℕ} {ptrs : Storage ℕ}
    (ht : Table ptrs size (s.moved table lead)) :
    Valid (d.relocated (s.moved table lead) ptrs size s.head (s.head + l.length))
      (s.moved table lead) l where
  owns := h.owns.moved ht
  begin_eq := rfl
  end_eq := rfl
  end_lt := h.end_lt
  head_lt := h.head_lt
  end_ge := h.end_ge

theorem Valid.doReallocPtrArray_spec (h : Valid d s l) (n : ℕ) (side : Side) :
    ∃ d' t, d.doReallocPtrArray n side = some d' ∧ Valid d' t l ∧ t.head = s.head ∧
      t.subs = s.subs ∧ s.Roomier t d.mnPtrArraySize d'.mnPtrArraySize n side ∧
      (d'.mnPtrArraySize = d.mnPtrArraySize ∨ s.Cramped d.mnPtrArraySize n side ∧
        d'.mnPtrArraySize = d.mnPtrArraySize + max d.mnPtrArraySize n + 2) := by
  obtain ⟨table, lead, ptrs, size, hd, ht, hroom, hgrow⟩ :=
    Deque.doReallocPtrArray_spec h.owns h.begin_eq h.end_eq h.div_head h.div_end n side
  exact ⟨_, s.moved table lead, hd, h.relocated ht, rfl, rfl, hroom, hgrow⟩

theorem Valid.begin_arrayPtr (h : Valid d s l) :
    d.mItBegin.mpCurrentArrayPtr = ⟨s.table, s.lead⟩ := by
  rw [h.begin_eq, Shape.it_mpCurrentArrayPtr, h.div_head]
  rfl

theorem Valid.end_arrayPtr (h : Valid d s l) :
    d.mItEnd.mpCurrentArrayPtr = ⟨s.table, (s.lead + s.subs.length : ℕ) - 1⟩ := by
  rw [h.end_eq, Shape.it_mpCurrentArrayPtr, ← h.div_end]
  congr 1
  push_cast
  ring

/-- The pointer array keeps its size, or gets at most twice the size that is used. -/
def Resized (d d' : Deque T k) (used : ℕ) : Prop :=
  d'.mnPtrArraySize = d.mnPtrArraySize ∨ d'.mnPtrArraySize ≤ 2 * used

theorem Valid.ptrRoomFront (h : Valid d s l) : ∃ d' t, d.ptrRoomFront n = some d' ∧
    Valid d' t l ∧ t.head = s.head ∧ t.subs = s.subs ∧ n ≤ t.lead ∧
    Resized d d' (s.subs.length + n) := by
  have hpos := h.subs_pos
  rw [Deque.ptrRoomFront, h.begin_arrayPtr]
  by_cases hlead : (s.lead : ℤ) < n
  · obtain ⟨d', t, hd', hv, hhead, hsubs, hroom, hsize⟩ :=
      h.doReallocPtrArray_spec ((n : ℤ) - s.lead).toNat .front
    have : s.lead + ((n : ℤ) - s.lead).toNat ≤ t.lead := hroom
    refine ⟨d', t, by rw [if_pos hlead, hd'], hv, hhead, hsubs, by omega, ?_⟩
    refine hsize.imp_right fun ⟨hcramped, hnew⟩ => ?_
    have : d.mnPtrArraySize < s.lead + s.subs.length + ((n : ℤ) - s.lead).toNat := hcramped
    omega
  · exact ⟨d, s, if_neg hlead, h, rfl, rfl, by omega, .inl rfl⟩

theorem Valid.ptrRoomBack (h : Valid d s l) : ∃ d' t, d.ptrRoomBack n = some d' ∧
    Valid d' t l ∧ t.head = s.head ∧ t.subs = s.subs ∧
    t.lead + t.subs.length + n ≤ d'.mnPtrArraySize ∧ Resized d d' (s.subs.length + n) := by
  have hpos := h.subs_pos
  have hroom₀ := h.owns.table.room
  rw [Deque.ptrRoomBack, h.end_arrayPtr]
  generalize hfree : (d.mnPtrArraySize : ℤ) - ((s.lead + s.subs.length : ℕ) - 1 : ℤ) - 1 = free
  by_cases hlead : free < n
  · obtain ⟨d', t, hd', hv, hhead, hsubs, hroom, hsize⟩ :=
      h.doReallocPtrArray_spec ((n : ℤ) - free).toNat .back
    have : d.mnPtrArraySize + t.lead + ((n : ℤ) - free).toNat ≤ d'.mnPtrArraySize + s.lead :=
      hroom
    refine ⟨d', t, ?_, hv, hhead, hsubs, ?_, hsize.imp_right fun ⟨hcramped, hnew⟩ => ?_⟩
    · simp only [if_pos hlead, hd']
    · rw [hsubs]
      omega
    · have : s.lead < ((n : ℤ) - free).toNat := hcramped
      omega
  · refine ⟨d, s, ?_, h, rfl, rfl, by omega, .inl rfl⟩
    simp only [if_neg hlead]

theorem Valid.growFront (h : Valid d s l) : ∃ d' t, d.growFront n = some d' ∧ Roomy d' t l ∧
    t.head = s.head + n * k ∧ t.cells k = s.cells k + n * k ∧ Resized d d' t.subs.length := by
  have hk : 0 < k := Nat.zero_lt_of_lt h.head_lt
  obtain ⟨d₁, t, hd₁, hv, hhead, hsubs, hn, hsize⟩ := h.ptrRoomFront (n := n)
  have hcells : t.cells k = s.cells k := by rw [Shape.cells, hsubs, Shape.cells]
  have harr : d₁.mItBegin.mpCurrentArrayPtr.plus (-1) = ⟨t.table, (t.lead : ℤ) - 1⟩ := by
    rw [hv.begin_arrayPtr]
    rfl
  obtain ⟨d', new, hd', hnew, hown, hsame⟩ := allocateSubarrays_before hk hv.owns hn
  have hbefore : (t.before k new).head = t.head + n * k := by rw [← hnew]; rfl
  have hused : (t.before k new).subs.length = s.subs.length + n := by
    rw [Shape.before, List.length_append, hnew, hsubs, Nat.add_comm]
  refine ⟨d', t.before k new, ?_, ⟨hown, ?_, ?_, ?_⟩, ?_, ?_, ?_⟩
  · rw [Deque.growFront, hd₁, Option.bind_eq_bind, Option.bind_some, harr, hd']
  · rw [hsame.begin_eq, hv.begin_eq, hbefore, ← hnew, Shape.it_before hk (by omega)]
  · rw [hsame.end_eq, hv.end_eq, hbefore, ← hnew, Nat.add_right_comm,
      Shape.it_before hk (by omega)]
  · have := hv.end_lt
    rw [Shape.cells_before, hbefore, hnew]
    omega
  · rw [hbefore, hhead]
  · rw [Shape.cells_before, hnew, hcells]
  · rwa [Resized, hsame.size_eq, hused]

theorem Valid.growBack (h : Valid d s l) : ∃ d' t, d.growBack n = some d' ∧ Roomy d' t l ∧
    t.head = s.head ∧ t.cells k = s.cells k + n * k ∧ Resized d d' t.subs.length := by
  have hk : 0 < k := Nat.zero_lt_of_lt h.head_lt
  obtain ⟨d₁, t, hd₁, hv, hhead, hsubs, hn, hsize⟩ := h.ptrRoomBack (n := n)
  have hlt := hv.end_lt
  have hcells : t.cells k = s.cells k := by rw [Shape.cells, hsubs, Shape.cells]
  have harr : d₁.mItEnd.mpCurrentArrayPtr.plus 1 = ⟨t.table, (t.lead + t.subs.length : ℕ)⟩ := by
    rw [hv.end_arrayPtr]
    simp only [Ptr.plus, Int.sub_add_cancel]
  obtain ⟨d', new, hd', hnew, hown, hsame⟩ := allocateSubarrays_behind hk hv.owns hn
    fun p hp => window_of_ge (by omega)
  have hused : (t.behind new).subs.length = s.subs.length + n := by
    rw [Shape.behind, List.length_append, hnew, hsubs]
  refine ⟨d', t.behind new, ?_, ⟨hown, ?_, ?_, ?_⟩, hhead, ?_, ?_⟩
  · rw [Deque.growBack, hd₁, Option.bind_eq_bind, Option.bind_some, harr, hd']
  · rw [hsame.begin_eq, hv.begin_eq]
    exact (Shape.it_behind (by omega)).symm
  · rw [hsame.end_eq, hv.end_eq]
    exact (Shape.it_behind (by omega)).symm
  · rw [Shape.cells_behind]
    exact Nat.lt_add_right _ hlt
  · rw [Shape.cells_behind, hnew, hcells]
  · rwa [Resized, hsame.size_eq, hused]

theorem subarrayIncrease_bounds {m : ℕ} (hk : 0 < k) (h : m < n) :
    n ≤ m + subarrayIncrease k n m * k ∧ m + subarrayIncrease k n m * k < n + k := by
  have h1 := Nat.div_mul_le_self (n - m + k - 1) k
  have h2 := Nat.lt_div_mul_add (a := n - m + k - 1) hk
  rw [subarrayIncrease]
  omega

/-- `DoReallocSubarray` at the back makes room for `n` items, and not a subarray more. -/
theorem Valid.doReallocSubarray_back (h : Valid d s l) (hk : k ∣ 16777216) :
    ∃ d' t, d.doReallocSubarray n .back = some (d', t.it k (t.head + l.length + n)) ∧
      Roomy d' t l ∧ t.head = s.head ∧ t.head + l.length + n < t.cells k ∧
      t.cells k ≤ t.head + l.length + n + k ∧ Resized d d' t.subs.length := by
  have hk0 : 0 < k := Nat.zero_lt_of_lt h.head_lt
  have hlt := h.end_lt
  have hge := h.end_ge
  have hcur : ((k : ℤ) - 1 - d.mItEnd.mpCurrent.off).toNat =
      s.cells k - (s.head + l.length) - 1 := by
    have hmod := Nat.mod_lt (s.head + l.length) hk0
    have hdm := Nat.div_add_mod (s.head + l.length) k
    have hc := h.cells_eq
    rw [h.end_eq, Shape.it_mpCurrent, Shape.slot_off]
    omega
  obtain ⟨d', t, hd', hr, hhead, hroom, htight⟩ : ∃ d' t, d.reserve n .back = some d' ∧
      Roomy d' t l ∧ t.head = s.head ∧ t.head + l.length + n < t.cells k ∧
      t.cells k ≤ t.head + l.length + n + k ∧ Resized d d' t.subs.length := by
    simp only [reserve, hcur]
    generalize hm : s.cells k - (s.head + l.length) - 1 = m
    by_cases hmn : m < n
    · obtain ⟨d', t, hd', hr, hhead, hcells, hsize⟩ := h.growBack (n := subarrayIncrease k n m)
      have hbounds := subarrayIncrease_bounds hk0 hmn
      exact ⟨d', t, by rw [if_pos hmn, hd'], hr, hhead, by omega, by omega, hsize⟩
    · exact ⟨d, s, if_neg hmn, h.toRoomy, rfl, by omega, by omega, .inl rfl⟩
  refine ⟨d', t, ?_, hr, hhead, hroom, htight⟩
  have hadd : d'.mItEnd.add k d'.ptrs n = some (t.it k (t.head + l.length + n)) := by
    rw [hr.end_eq]
    exact add_it hr.owns.table hk (by push_cast; ring) hroom (.inl (by omega))
  simp only [doReallocSubarray, hd', hadd, Option.bind_eq_bind, Option.bind_some,
    Option.pure_def]

/-- `DoReallocSubarray` at the front, up to the iterator it returns. -/
theorem Valid.doReallocSubarray_front (h : Valid d s l) :
    ∃ d' t, d.doReallocSubarray n .front =
        (d'.mItBegin.add k d'.ptrs (-n)).map (fun it => (d', it)) ∧
      Roomy d' t l ∧ n ≤ t.head ∧ t.head < n + k ∧ t.head % k = s.head ∧
      t.cells k ≤ t.head + l.length + k ∧ Resized d d' t.subs.length := by
  have hk0 : 0 < k := Nat.zero_lt_of_lt h.head_lt
  have hcur : d.mItBegin.mpCurrent.off.toNat = s.head := by
    rw [h.begin_eq, Shape.it_mpCurrent, Shape.slot_off, Int.toNat_natCast,
      Nat.mod_eq_of_lt h.head_lt]
  have hge := h.end_ge
  have hhlt := h.head_lt
  obtain ⟨d', t, hd', hr, hn, hlt, hmod, htight⟩ : ∃ d' t, d.reserve n .front = some d' ∧
      Roomy d' t l ∧ n ≤ t.head ∧ t.head < n + k ∧ t.head % k = s.head ∧
      t.cells k ≤ t.head + l.length + k ∧ Resized d d' t.subs.length := by
    simp only [reserve, hcur]
    by_cases hmn : s.head < n
    · obtain ⟨d', t, hd', hr, hhead, hcells, hsize⟩ :=
        h.growFront (n := subarrayIncrease k n s.head)
      have hbounds := subarrayIncrease_bounds hk0 hmn
      refine ⟨d', t, by rw [if_pos hmn, hd'], hr, by omega, by omega, ?_, by omega, hsize⟩
      rw [hhead, Nat.add_mul_mod_self_right, Nat.mod_eq_of_lt h.head_lt]
    · exact ⟨d, s, if_neg hmn, h.toRoomy, by omega, by omega, Nat.mod_eq_of_lt h.head_lt, hge,
        .inl rfl⟩
  refine ⟨d', t, ?_, hr, hn, hlt, hmod, htight⟩
  simp only [doReallocSubarray, hd', Option.bind_eq_bind, Option.bind_some, Option.map_eq_bind]
  rfl

end Deque

end Dpp
