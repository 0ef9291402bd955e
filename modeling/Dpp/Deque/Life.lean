import Dpp.Deque.Insert

/-!
# A deque from its constructor to its destructor

* `blank`, `Owns.destroyRun`, `destroyItems_eq`: the destructors of items in a row.
* **`doInit_eq`**: the constructor; **`Valid.clear`**: `clear` keeps the first subarray only.
* **`Valid.destruct`**: the destructor ends every item and gives all storage back.
-/

namespace Dpp

open Lib

namespace Deque

variable {T : Type} {k : ℕ} {d : Deque T k} {s : Shape} {l : List T} {f : ℕ → Option T}

/-- The constructor of an empty deque. -/
theorem doInit_eq (hk : 0 < k) : ∃ d s, (doInit : Option (Deque T k)) = some d ∧
    Valid d s [] ∧ s.head = 0 ∧ d.mnPtrArraySize = 8 := by
  let it : DequeIterator := ⟨⟨0, 0⟩, 0, ⟨0, 0⟩⟩
  let d₀ : Deque T k := { ptrs := (({} : Storage ℕ).alloc 8).1, mpPtrArray := 0,
                          mnPtrArraySize := 8, mItBegin := it, mItEnd := it }
  have htable : Table d₀.ptrs 8 ⟨0, 3, [], 0⟩ :=
    ⟨fun a => Storage.alloc_size, by decide, fun j hj => absurd hj (Nat.not_lt_zero j),
      Nat.zero_lt_one⟩
  have hown : Owns d₀ ⟨0, 3, [], 0⟩ (window 0 []) :=
    ⟨htable, rfl, List.nodup_nil, fun a => rfl, nofun, fun p hp => by simp [Shape.cells] at hp⟩
  have hroom : 3 + 0 < 8 := by decide
  have hone := hown.withSubarray_behind hk hroom fun p _ => window_of_ge (Nat.zero_le p)
  have hcells : (Shape.behind ⟨0, 3, [], 0⟩ [d₀.items.next]).cells k = k := by
    simp [Shape.cells, Shape.behind]
  have hsub : ∀ b : DequeIterator, b.setSubarray (d₀.withSubarray ⟨0, 3⟩).ptrs ⟨0, 3⟩ =
      some { b with mpCurrentArrayPtr := ⟨0, 3⟩, mpBegin := 0 } := fun b =>
    hone.table.setSubarray (j := 0) Nat.zero_lt_one b rfl
  refine ⟨{ d₀.withSubarray ⟨0, 3⟩ with
    mItBegin := (Shape.behind ⟨0, 3, [], 0⟩ [0]).it k 0
    mItEnd := (Shape.behind ⟨0, 3, [], 0⟩ [0]).it k 0 }, Shape.behind ⟨0, 3, [], 0⟩ [0], ?_,
    ⟨⟨hone.withEnds _ _, rfl, rfl, ?_⟩, hk, ?_⟩, rfl, rfl⟩
  · have halloc : d₀.allocateSubarrays ⟨0, 3⟩ 1 1 = some (d₀.withSubarray ⟨0, 3⟩) := by
      have hone : d₀.allocateSubarray ⟨0, 3⟩ = some (d₀.withSubarray ⟨0, 3⟩) :=
        allocateSubarray_eq htable (i := 3) (by decide)
      rw [allocateSubarrays, hone]
      rfl
    have hback : (⟨0, 3⟩ : Ptr).plus (((0 + 1 : ℕ) : ℤ) - 1) = ⟨0, 3⟩ := rfl
    rw [doInit, Nat.zero_div]
    show ((d₀.allocateSubarrays ⟨0, 3⟩ 1 1).bind fun d => _) = _
    rw [halloc, Option.bind_some]
    show ((it.setSubarray (d₀.withSubarray ⟨0, 3⟩).ptrs ⟨0, 3⟩).bind fun b => _) = _
    rw [hsub, Option.bind_some]
    show ((it.setSubarray (d₀.withSubarray ⟨0, 3⟩).ptrs (Ptr.plus ⟨0, 3⟩ _)).bind fun b => _) = _
    rw [hback, hsub, Option.bind_some]
    simp only [DequeIterator.setCurrent, Shape.it, Shape.slot, Nat.zero_div, Nat.zero_mod]
    rfl
  · show 0 < (Shape.behind ⟨0, 3, [], 0⟩ [d₀.items.next]).cells k
    rw [hcells]
    exact hk
  · show (Shape.behind ⟨0, 3, [], 0⟩ [d₀.items.next]).cells k ≤ 0 + 0 + k
    rw [hcells]
    omega

/-! ## Destructors -/

/-- Raw cells from `p` on. -/
def blank (f : ℕ → Option T) (p n : ℕ) (r : ℕ) : Option T :=
  if p ≤ r ∧ r < p + n then none else f r

theorem blank_succ (f : ℕ → Option T) (p n : ℕ) :
    blank (Function.update f p none) (p + 1) n = blank f p (n + 1) := by
  funext r
  rw [blank, blank]
  rcases Nat.lt_trichotomy r p with hr | rfl | hr
  · rw [if_neg (by omega), if_neg (by omega), Function.update_of_ne (by omega)]
  · rw [if_neg (by omega), if_pos (by omega), Function.update_self]
  · rw [Function.update_of_ne (by omega)]
    by_cases hlt : r < p + 1 + n
    · rw [if_pos (by omega), if_pos (by omega)]
    · rw [if_neg (by omega), if_neg (by omega)]

/-- The destructors of items in a row, inside a subarray. -/
theorem Owns.destroyRun {p n : ℕ} (h : Owns d s f) (hp : p + n ≤ s.cells k)
    (hin : n = 0 ∨ p < s.cells k ∧ p % k + n ≤ k) (hf : ∀ i < n, f (p + i) ≠ none) :
    ∃ items, d.items.destroyRun (s.slot k p) n = some items ∧
      Owns ({ d with items } : Deque T k) s (blank f p n) := by
  induction n generalizing d f p with
  | zero =>
    refine ⟨d.items, rfl, h.congr fun r _ => ?_⟩
    exact if_neg (by omega)
  | succ n ih =>
    obtain ⟨hlt, hmod⟩ := hin.resolve_left (Nat.succ_ne_zero n)
    have hdes := h.destroy hlt (hf 0 (Nat.succ_pos n))
    have hset := h.set hlt none
    have hslot : n ≠ 0 → (s.slot k p).plus 1 = s.slot k (p + 1) := fun hn => by
      obtain ⟨hd, hm⟩ := Shape.divMod_succ_of_ne (Shape.pos_of_lt hlt) (p := p) (by omega)
      simp only [Shape.slot, Ptr.plus, hd, hm, Nat.cast_add, Nat.cast_one]
    have hraw : ∀ i < n, Function.update f p none (p + 1 + i) ≠ none := fun i hi => by
      rw [Function.update_of_ne (by omega), Nat.add_assoc, Nat.add_comm 1]
      exact hf (i + 1) (by omega)
    have hin' : n = 0 ∨ p + 1 < s.cells k ∧ (p + 1) % k + n ≤ k := by
      rcases Nat.eq_zero_or_pos n with hn | hn
      · exact .inl hn
      · have := (Shape.divMod_succ_of_ne (Shape.pos_of_lt hlt) (p := p) (by omega)).2
        exact .inr ⟨by omega, by omega⟩
    obtain ⟨items, heq, hown⟩ := ih hset (by omega) hin' hraw
    refine ⟨items, ?_, by rw [← blank_succ]; exact hown⟩
    rw [Storage.destroyRun, hdes, Option.bind_eq_bind, Option.bind_some]
    rcases Nat.eq_zero_or_pos n with rfl | hn
    · exact heq
    · rw [hslot hn.ne']
      exact heq

/-- The loop of `~deque` over the items. -/
theorem destroyItems_eq {p m n : ℕ} (h : Owns d s f) (he : d.mItEnd = s.it k (p + m))
    (hp : p + m < s.cells k) (hf : ∀ i < m, f (p + i) ≠ none) (hn : m ≤ n) :
    ∃ items, d.destroyItems n (s.it k p) = some { d with items } ∧
      Owns ({ d with items } : Deque T k) s (blank f p m) := by
  induction m generalizing d f p n with
  | zero =>
    refine ⟨d.items, ?_, h.congr fun r _ => if_neg (by omega)⟩
    cases n <;> exact if_pos (by rw [he, Nat.add_zero])
  | succ m ih =>
    obtain ⟨n, rfl⟩ : ∃ j, n = j + 1 := Nat.exists_eq_add_one_of_ne_zero (by omega)
    have hne : (s.it k p).mpCurrent ≠ d.mItEnd.mpCurrent := fun hc => by
      rw [he] at hc
      have := (Shape.slot_inj h.nodup (by omega) hp).mp hc
      omega
    have hdes := h.destroy (p := p) (by omega) (hf 0 (Nat.succ_pos m))
    have hset := h.set (p := p) (by omega) none
    have hraw : ∀ i < m, Function.update f p none (p + 1 + i) ≠ none := fun i hi => by
      rw [Function.update_of_ne (by omega), Nat.add_assoc, Nat.add_comm 1]
      exact hf (i + 1) (by omega)
    have hinc : (s.it k p).incr k d.ptrs = some (s.it k (p + 1)) := incr_it h.table (by omega)
    obtain ⟨items, heq, hown⟩ := ih (p := p + 1) (n := n) hset
      (by show d.mItEnd = _; rw [he]; congr 1; omega) (by omega) hraw (by omega)
    refine ⟨items, ?_, by rw [← blank_succ]; exact hown⟩
    rw [destroyItems, if_neg hne]
    simp only [Shape.it_mpCurrent, hdes, hinc, Option.bind_eq_bind, Option.bind_some]
    exact heq

/-- `DoFreeSubarrays` of subarrays without items. -/
theorem freeSubarrays_eq (table lead : ℕ) {tail : List ℕ}
    (hread : ∀ j < tail.length, d.ptrs.read ⟨table, (lead + j : ℕ)⟩ = some (tail.getD j 0))
    (hnd : tail.Nodup) (hsize : ∀ b ∈ tail, d.items.size b = some k)
    (hobj : ∀ b ∈ tail, ∀ i < k, d.items.obj ⟨b, (i : ℕ)⟩ = none) :
    ∃ items, d.freeSubarrays ⟨table, lead⟩ tail.length = some { d with items } ∧
      (∀ b, items.size b = if b ∈ tail then none else d.items.size b) ∧
      items.obj = d.items.obj ∧ items.next = d.items.next := by
  induction tail generalizing d lead with
  | nil => exact ⟨d.items, rfl, fun b => rfl, rfl, rfl⟩
  | cons a tail ih =>
    obtain ⟨ha, hnd'⟩ := List.nodup_cons.mp hnd
    have hfree := Storage.free_eq (hsize a List.mem_cons_self) (hobj a List.mem_cons_self)
    generalize hitems : ({ d.items with size := Function.update d.items.size a none } :
      Storage T) = items₁ at hfree
    have hsize₁ : ∀ b, items₁.size b = if b = a then none else d.items.size b := fun b => by
      rw [← hitems]
      exact Function.update_apply ..
    have hobj₁ : items₁.obj = d.items.obj := by rw [← hitems]
    have hne : ∀ b ∈ tail, b ≠ a := fun b hb hc => ha (hc ▸ hb)
    obtain ⟨items, heq, hs, ho, hn⟩ := ih (d := { d with items := items₁ }) (lead + 1)
      (fun j hj => by
        have := hread (j + 1) (Nat.succ_lt_succ hj)
        rwa [List.getD_cons_succ, ← Nat.add_assoc, Nat.add_right_comm] at this)
      hnd' (fun b hb => by rw [hsize₁, if_neg (hne b hb)]; exact hsize b (.tail a hb))
      fun b hb i hi => by rw [hobj₁]; exact hobj b (.tail a hb) i hi
    refine ⟨items, ?_, fun b => ?_, ho.trans hobj₁, ?_⟩
    · have hread₀ := hread 0 (Nat.succ_pos _)
      rw [Nat.add_zero, List.getD_cons_zero] at hread₀
      simp only [List.length_cons, freeSubarrays, hread₀, hfree, Option.bind_eq_bind,
        Option.bind_some]
      exact heq
    · rw [hs, hsize₁]
      by_cases hb : b = a
      · rw [if_pos hb, ite_self, if_pos (List.mem_cons.mpr (.inl hb))]
      · simp only [List.mem_cons, hb, if_false, false_or]
    · rw [hn, ← hitems]

/-- The cells of one subarray. -/
theorem Shape.slot_mul_add {j i : ℕ} (hj : j < s.subs.length) (hi : i < k) :
    s.slot k (j * k + i) = ⟨s.subs[j], i⟩ ∧ j * k + i < s.cells k := by
  have hk : 0 < k := Nat.zero_lt_of_lt hi
  have := Nat.mul_le_mul_right k (Nat.succ_le_of_lt hj)
  rw [Nat.succ_mul] at this
  refine ⟨?_, by rw [cells]; omega⟩
  rw [Nat.add_comm]
  simp only [slot, Nat.add_mul_div_right _ _ hk, Nat.div_eq_of_lt hi,
    Nat.add_mul_mod_self_right, Nat.mod_eq_of_lt hi, Nat.zero_add]
  rw [List.getD_eq_getElem _ _ hj]

/-- `DoFreeSubarrays` of the last subarrays in use, in which no item is left. -/
theorem Owns.freeSubarrays_tail {keep tail : List ℕ} (h : Owns d s f) (hs : s.subs = keep ++ tail)
    (hf : ∀ p, keep.length * k ≤ p → f p = none) :
    ∃ items, d.freeSubarrays ⟨s.table, (s.lead + keep.length : ℕ)⟩ tail.length =
        some { d with items } ∧
      Owns ({ d with items } : Deque T k) { s with subs := keep } f := by
  have hlen : s.subs.length = keep.length + tail.length := by rw [hs, List.length_append]
  have hnd := h.nodup
  rw [hs] at hnd
  have hnd' := List.nodup_append.mp hnd
  obtain ⟨items, heq, hsize, hobj, hnext⟩ := freeSubarrays_eq (d := d) s.table
    (s.lead + keep.length)
    (fun j (hj : j < tail.length) => by
      have := h.table.read (j := keep.length + j) (by omega)
      rwa [hs, List.getD_append_right _ _ _ _ (Nat.le_add_right ..), Nat.add_sub_cancel_left,
        ← Nat.add_assoc] at this)
    hnd'.2.1 (fun b hb => by rw [h.size, hs, if_pos (List.mem_append_right _ hb)])
    fun b hb i hi => by
      obtain ⟨j, hj, rfl⟩ := List.getElem_of_mem hb
      obtain ⟨hslot, hlt⟩ := Shape.slot_mul_add (s := s) (j := keep.length + j) (by omega) hi
      have hget : s.subs[keep.length + j] = tail[j] := by
        simp only [hs, List.getElem_append_right (Nat.le_add_right ..), Nat.add_sub_cancel_left]
      rw [← hget, ← hslot, h.obj _ hlt]
      exact hf _ (by rw [Nat.add_mul]; omega)
  have hroom := h.table.room
  refine ⟨items, heq, ⟨⟨h.table.size, ?_, fun j hj => ?_, h.table.fresh⟩, h.array, hnd'.1,
    fun b => ?_, fun b hb => ?_, fun p hp => ?_⟩⟩
  · show s.lead + keep.length ≤ d.mnPtrArraySize
    omega
  · have := h.table.entry j (by rw [hlen]; exact Nat.lt_add_right _ hj)
    rwa [hs, List.getD_append _ _ _ _ hj] at this
  · rw [hsize, h.size, hs]
    by_cases hb : b ∈ tail
    · rw [if_pos hb, if_neg fun hk => hnd'.2.2 b hk b hb rfl]
    · simp only [List.mem_append, hb, or_false, if_false]
  · rw [hnext]
    exact h.fresh b (by rw [hs]; exact List.mem_append_left _ hb)
  · have hkeep : ({ s with subs := keep } : Shape).behind tail = s := by rw [Shape.behind, ← hs]
    have hslot : (Shape.behind { s with subs := keep } tail).slot k p =
        ({ s with subs := keep } : Shape).slot k p := Shape.slot_behind hp
    rw [hkeep] at hslot
    rw [hobj, ← hslot]
    refine h.obj p ?_
    rw [Shape.cells, hlen, Nat.add_mul]
    exact Nat.lt_add_right _ hp

/-- The loop of `clear` over full subarrays that are not needed any more. -/
theorem clearMiddle_eq (table lead : ℕ) {mid : List ℕ}
    (hread : ∀ j < mid.length, d.ptrs.read ⟨table, (lead + j : ℕ)⟩ = some (mid.getD j 0))
    (hnd : mid.Nodup) (hsize : ∀ b ∈ mid, d.items.size b = some k)
    (hobj : ∀ b ∈ mid, ∀ i < k, d.items.obj ⟨b, (i : ℕ)⟩ ≠ none) :
    ∃ items, d.clearMiddle ⟨table, lead⟩ mid.length = some { d with items } ∧
      (∀ b, items.size b = if b ∈ mid then none else d.items.size b) ∧
      (∀ p, p.base ∉ mid → items.obj p = d.items.obj p) ∧ items.next = d.items.next := by
  induction mid generalizing d lead with
  | nil => exact ⟨d.items, rfl, fun b => rfl, fun p _ => rfl, rfl⟩
  | cons a mid ih =>
    obtain ⟨ha, hnd'⟩ := List.nodup_cons.mp hnd
    have hsa := hsize a List.mem_cons_self
    have hdes : d.items.destroyRun ⟨a, 0⟩ k = some (d.items.wipe ⟨a, 0⟩ k) :=
      Storage.destroyRun_eq (Storage.liveRun_of_size (i := 0) hsa (by omega)) fun i hi => by
        rw [Ptr.plus, Int.zero_add]
        exact hobj a List.mem_cons_self i hi
    have hfree := Storage.free_eq (s := d.items.wipe ⟨a, 0⟩ k) (a := a) (n := k) hsa fun i hi => by
      have hi' : (i : ℤ) < 0 + k := by omega
      rw [Storage.wipe_obj, if_pos ⟨rfl, Int.natCast_nonneg i, hi'⟩]
    generalize hitems : ({ d.items.wipe ⟨a, 0⟩ k with
      size := Function.update (d.items.wipe ⟨a, 0⟩ k).size a none } : Storage T) = items₁ at hfree
    have hsize₁ : ∀ b, items₁.size b = if b = a then none else d.items.size b := fun b => by
      rw [← hitems]
      exact Function.update_apply ..
    have hobj₁ : ∀ p : Ptr, p.base ≠ a → items₁.obj p = d.items.obj p := fun p hp => by
      rw [← hitems]
      exact if_neg fun hc => hp hc.1
    have hne : ∀ b ∈ mid, b ≠ a := fun b hb hc => ha (hc ▸ hb)
    obtain ⟨items, heq, hs, ho, hn⟩ := ih (d := { d with items := items₁ }) (lead + 1)
      (fun j hj => by
        have := hread (j + 1) (Nat.succ_lt_succ hj)
        rwa [List.getD_cons_succ, ← Nat.add_assoc, Nat.add_right_comm] at this)
      hnd' (fun b hb => by rw [hsize₁, if_neg (hne b hb)]; exact hsize b (.tail a hb))
      fun b hb i hi => by rw [hobj₁ _ (hne b hb)]; exact hobj b (.tail a hb) i hi
    refine ⟨items, ?_, fun b => ?_, fun p hp => ?_, ?_⟩
    · have hread₀ := hread 0 (Nat.succ_pos _)
      rw [Nat.add_zero, List.getD_cons_zero] at hread₀
      simp only [List.length_cons, clearMiddle, hread₀, hdes, hfree, Option.bind_eq_bind,
        Option.bind_some]
      exact heq
    · rw [hs, hsize₁]
      by_cases hb : b = a
      · rw [if_pos hb, ite_self, if_pos (List.mem_cons.mpr (.inl hb))]
      · simp only [List.mem_cons, hb, if_false, false_or]
    · rw [ho p fun hc => hp (.tail a hc), hobj₁ p fun hc => hp (hc ▸ List.mem_cons_self)]
    · rw [hn, ← hitems]
      rfl

theorem blank_window (head : ℕ) (l : List T) (p : ℕ) :
    blank (window head l) head l.length p = none := by
  rw [blank]
  split_ifs with hin
  · rfl
  · rcases Nat.lt_or_ge p head with hp | hp
    · exact window_of_lt l hp
    · exact window_of_ge (by omega)

theorem window_ne_none {i : ℕ} (head : ℕ) (h : i < l.length) : window head l (head + i) ≠ none := by
  rw [window_add, List.getElem?_eq_getElem h]
  exact Option.some_ne_none _

/-- `clear` on a deque whose items all lie in one subarray. -/
theorem Valid.clear_one (h : Valid d s l) (hone : s.subs.length = 1) :
    ∃ d', d.clear = some d' ∧ Valid d' s [] ∧ d'.mnPtrArraySize = d.mnPtrArraySize := by
  have hcells : s.cells k = k := by rw [Shape.cells, hone, Nat.one_mul]
  have hlt := h.end_lt
  have hge := h.end_ge
  have hmod : ∀ p < k, p % k = p := fun p hp => Nat.mod_eq_of_lt hp
  obtain ⟨items, hdes, hown⟩ := h.owns.destroyRun (p := s.head) (n := l.length) hlt.le
    (.inr ⟨by omega, by rw [hmod _ h.head_lt]; omega⟩) fun i hi => window_ne_none s.head hi
  have harr : d.mItBegin.mpCurrentArrayPtr = d.mItEnd.mpCurrentArrayPtr := by
    rw [h.begin_arrayPtr, h.end_arrayPtr, hone]
    congr 1
    push_cast
    ring
  have hcount : (d.mItEnd.mpCurrent.off - d.mItBegin.mpCurrent.off).toNat = l.length := by
    rw [h.begin_eq, h.end_eq, Shape.it_mpCurrent, Shape.it_mpCurrent, Shape.slot_off,
      Shape.slot_off, hmod _ h.head_lt, hmod _ (by omega)]
    omega
  have hends : d.clearEnds = some { d with items } := by
    rw [clearEnds, if_neg fun hc => hc harr, hcount, h.begin_eq, Shape.it_mpCurrent, hdes]
    rfl
  refine ⟨{ d with items, mItEnd := d.mItBegin }, ?_, ⟨⟨?_, h.begin_eq, h.begin_eq, ?_⟩, h.head_lt,
    ?_⟩, rfl⟩
  · rw [Deque.clear, hends, Option.bind_eq_bind, Option.bind_some]
    have hzero : (d.mItEnd.mpCurrentArrayPtr.off - d.mItBegin.mpCurrentArrayPtr.off - 1).toNat =
        0 := by
      rw [harr]
      omega
    show (clearMiddle { d with items } _ _).bind _ = _
    rw [hzero]
    rfl
  · refine Owns.withEnds (hown.congr fun p _ => ?_) _ _
    rw [blank_window, window_nil]
  · simp only [List.length_nil]
    omega
  · simp only [List.length_nil]
    omega

/-- `clear` on a deque with several subarrays: only the first one is left. -/
theorem Valid.clear_many (h : Valid d s l) {a z : ℕ} {mid : List ℕ}
    (hs : s.subs = a :: mid ++ [z]) :
    ∃ d', d.clear = some d' ∧ Valid d' { s with subs := [a] } [] ∧
      d'.mnPtrArraySize = d.mnPtrArraySize := by
  have hk : 0 < k := Nat.zero_lt_of_lt h.head_lt
  have hlen : s.subs.length = mid.length + 2 := by
    rw [hs, List.length_append, List.length_cons, List.length_singleton]
  have hcells : s.cells k = (mid.length + 1) * k + k := by rw [Shape.cells, hlen, Nat.succ_mul]
  have hmul : (mid.length + 1) * k = mid.length * k + k := Nat.succ_mul _ _
  have hlt := h.end_lt
  have hge := h.end_ge
  have hhead := h.head_lt
  have hmodh : s.head % k = s.head := Nat.mod_eq_of_lt hhead
  have hlast : (mid.length + 1) * k % k = 0 := Nat.mul_mod_left _ _
  -- the items of the first subarray, then those of the last one
  obtain ⟨items₁, hdes₁, hown₁⟩ := h.owns.destroyRun (p := s.head) (n := k - s.head) (by omega)
    (.inr ⟨by omega, by omega⟩) fun i hi => window_ne_none s.head (by omega)
  obtain ⟨items₂, hdes₂, hown₂⟩ := hown₁.destroyRun (p := (mid.length + 1) * k)
    (n := s.head + l.length - (mid.length + 1) * k) (by omega) (.inr ⟨by omega, by omega⟩)
    fun i hi => by
      rw [blank, if_neg (by omega), show (mid.length + 1) * k + i =
        s.head + ((mid.length + 1) * k + i - s.head) by omega]
      exact window_ne_none s.head (by omega)
  have hfirst : ∀ p < k, blank (blank (window s.head l) s.head (k - s.head))
      ((mid.length + 1) * k) (s.head + l.length - (mid.length + 1) * k) p = none := fun p hp => by
    rw [blank, if_neg (by omega), blank]
    split_ifs with hin
    · rfl
    · exact window_of_lt l (by omega)
  have hbehind : ∀ p, (mid.length + 1) * k ≤ p → blank (blank (window s.head l) s.head
      (k - s.head)) ((mid.length + 1) * k) (s.head + l.length - (mid.length + 1) * k) p =
      none := fun p hp => by
    rw [blank]
    split_ifs with hin
    · rfl
    · rw [blank, if_neg (by omega)]
      exact window_of_ge (by omega)
  have hmiddle : ∀ p, k ≤ p → p < (mid.length + 1) * k → blank (blank (window s.head l) s.head
      (k - s.head)) ((mid.length + 1) * k) (s.head + l.length - (mid.length + 1) * k) p ≠
      none := fun p h1 h2 => by
    rw [blank, if_neg (by omega), blank, if_neg (by omega),
      show p = s.head + (p - s.head) by omega]
    exact window_ne_none s.head (by omega)
  obtain ⟨items₃, hfree, hown₃⟩ := hown₂.free_last hs fun p hp =>
    hbehind p (by simpa using hp)
  generalize blank (blank (window s.head l) s.head (k - s.head)) ((mid.length + 1) * k)
    (s.head + l.length - (mid.length + 1) * k) = f at hfirst hbehind hmiddle hown₃
  have hslotz : s.slot k ((mid.length + 1) * k) = ⟨z, 0⟩ := by
    simp only [Shape.slot, Nat.mul_div_cancel _ hk, hlast, hs]
    rw [List.getD_append_right _ _ _ _ (by simp)]
    simp
  -- the subarrays in between
  have hnd : (a :: mid).Nodup := hown₃.nodup
  have hcells₃ : ({ s with subs := a :: mid } : Shape).cells k = (mid.length + 1) * k := rfl
  obtain ⟨items₄, hmid, hsize₄, hobj₄, hnext₄⟩ := clearMiddle_eq (k := k)
    (d := { d with items := items₃ }) s.table (s.lead + 1)
    (fun j (hj : j < mid.length) => by
      have := hown₃.table.read (j := j + 1) (Nat.succ_lt_succ hj)
      rwa [List.getD_cons_succ, ← Nat.add_assoc, Nat.add_right_comm] at this)
    (List.nodup_cons.mp hnd).2 (fun b hb => by
      show items₃.size b = _
      rw [hown₃.size b, if_pos (.tail a hb)])
    fun b hb i hi => by
      obtain ⟨j, hj, rfl⟩ := List.getElem_of_mem hb
      obtain ⟨hslot, hpos⟩ := Shape.slot_mul_add (s := { s with subs := a :: mid }) (j := j + 1)
        (Nat.succ_lt_succ hj) hi
      rw [List.getElem_cons_succ] at hslot
      have := hown₃.obj _ hpos
      rw [hslot] at this
      show items₃.obj _ ≠ none
      rw [this]
      refine hmiddle _ ?_ hpos
      rw [Nat.succ_mul]
      omega
  have hown₄ : Owns ({ d with items := items₄ } : Deque T k) { s with subs := [a] }
      (window s.head []) := by
    refine ⟨⟨h.owns.table.size, ?_, fun j hj => ?_, h.owns.table.fresh⟩,
      h.owns.array, List.nodup_singleton a, fun b => ?_, fun b hb => ?_, fun p hp => ?_⟩
    · have := h.owns.table.room
      show s.lead + 1 ≤ d.mnPtrArraySize
      omega
    · have hj0 : j = 0 := Nat.lt_one_iff.mp hj
      subst hj0
      exact hown₃.table.entry 0 (Nat.succ_pos _)
    · show items₄.size b = _
      rw [hsize₄ b]
      show (if b ∈ mid then none else items₃.size b) = _
      rw [hown₃.size b]
      have ha := (List.nodup_cons.mp hnd).1
      by_cases hba : b = a
      · subst hba
        rw [if_neg ha, if_pos List.mem_cons_self, if_pos (List.mem_singleton_self b)]
      · simp only [List.mem_cons, hba, false_or, List.not_mem_nil, or_false, if_false]
        split_ifs <;> rfl
    · show b < items₄.next
      rw [hnext₄]
      exact hown₃.fresh b (by rw [List.mem_singleton.mp hb]; exact List.mem_cons_self)
    · have hp' : p < k := by
        simpa [Shape.cells] using hp
      have hslot : ({ s with subs := [a] } : Shape).slot k p =
          ({ s with subs := a :: mid } : Shape).slot k p := by
        simp only [Shape.slot, Nat.div_eq_of_lt hp', List.getD_cons_zero]
      show items₄.obj _ = _
      rw [hslot, hobj₄ _ ?_, window_nil]
      · exact (hown₃.obj p (by omega)).trans (hfirst p hp')
      · rw [Shape.slot_base, Nat.div_eq_of_lt hp', List.getD_cons_zero]
        exact (List.nodup_cons.mp hnd).1
  refine ⟨{ d with items := items₄, mItEnd := d.mItBegin }, ?_, ⟨⟨?_, ?_, ?_, ?_⟩, hhead, ?_⟩, rfl⟩
  · have hne : d.mItBegin.mpCurrentArrayPtr ≠ d.mItEnd.mpCurrentArrayPtr := fun hc => by
      rw [h.begin_arrayPtr, h.end_arrayPtr, hlen] at hc
      have := congrArg Ptr.off hc
      simp only at this
      omega
    have hn₁ : ((k : ℤ) - d.mItBegin.mpCurrent.off).toNat = k - s.head := by
      rw [h.begin_eq, Shape.it_mpCurrent, Shape.slot_off, hmodh]
      omega
    have hdiv : (s.head + l.length) / k = mid.length + 1 := by
      have := h.div_end
      omega
    have hdm := Nat.div_add_mod (s.head + l.length) k
    rw [hdiv, Nat.mul_comm] at hdm
    have hn₂ : d.mItEnd.mpCurrent.off.toNat = s.head + l.length - (mid.length + 1) * k := by
      rw [h.end_eq, Shape.it_mpCurrent, Shape.slot_off, Int.toNat_natCast]
      omega
    have hz : (⟨d.mItEnd.mpBegin, 0⟩ : Ptr) = ⟨z, 0⟩ := by
      rw [← hslotz, h.end_eq, Shape.it_mpBegin, hdiv, Shape.slot, Nat.mul_div_cancel _ hk, hlast]
      rfl
    have hzb : d.mItEnd.mpBegin = z := congrArg Ptr.base hz
    have hbeg : d.mItBegin.mpCurrent = s.slot k s.head := by rw [h.begin_eq]; rfl
    rw [hslotz] at hdes₂
    have hends : d.clearEnds = some { d with items := items₃ } := by
      rw [clearEnds, if_pos hne, hn₁, hn₂, hzb, hbeg, hdes₁, Option.bind_eq_bind,
        Option.bind_some, hdes₂, Option.bind_some, hfree]
      rfl
    have hcount : (d.mItEnd.mpCurrentArrayPtr.off - d.mItBegin.mpCurrentArrayPtr.off - 1).toNat =
        mid.length := by
      rw [h.begin_arrayPtr, h.end_arrayPtr, hlen]
      simp only
      omega
    have hpp : d.mItBegin.mpCurrentArrayPtr.plus 1 = ⟨s.table, (s.lead + 1 : ℕ)⟩ := by
      rw [h.begin_arrayPtr]
      rfl
    rw [Deque.clear, hends, Option.bind_eq_bind, Option.bind_some]
    show (clearMiddle { d with items := items₃ } (d.mItBegin.mpCurrentArrayPtr.plus 1) _).bind _ = _
    rw [hcount, hpp, hmid]
    rfl
  · exact hown₄.withEnds _ _
  · rw [h.begin_eq]
    simp only [Shape.it, Shape.slot, h.div_head, hs, List.cons_append, List.getD_cons_zero]
  · show d.mItBegin = _
    rw [h.begin_eq]
    simp only [Shape.it, Shape.slot, List.length_nil, Nat.add_zero, h.div_head, hs,
      List.cons_append, List.getD_cons_zero]
  · show s.head + 0 < [a].length * k
    rw [List.length_singleton]
    omega
  · show [a].length * k ≤ s.head + 0 + k
    rw [List.length_singleton]
    omega

theorem Valid.clear (h : Valid d s l) : ∃ d' t, d.clear = some d' ∧ Valid d' t [] ∧
    t.head = s.head ∧ d'.mnPtrArraySize = d.mnPtrArraySize := by
  obtain ⟨a, rest, hs⟩ : ∃ a rest, s.subs = a :: rest :=
    List.exists_cons_of_ne_nil (List.ne_nil_of_length_pos h.subs_pos)
  rcases List.eq_nil_or_concat rest with rfl | ⟨mid, z, rfl⟩
  · obtain ⟨d', hd', hv, hn⟩ := h.clear_one (by rw [hs]; rfl)
    exact ⟨d', s, hd', hv, rfl, hn⟩
  · have hs' : s.subs = a :: mid ++ [z] := by rw [hs, List.concat_eq_append, List.cons_append]
    obtain ⟨d', hd', hv, hn⟩ := h.clear_many hs'
    exact ⟨d', _, hd', hv, rfl, hn⟩

/-- The destructor gives everything back that the deque has allocated, each item being ended. -/
theorem Valid.destruct (h : Valid d s l) : ∃ d', d.destruct = some d' ∧
    (∀ a, d'.items.size a = none) ∧ ∀ a, d'.ptrs.size a = none := by
  have hk : 0 < k := Nat.zero_lt_of_lt h.head_lt
  obtain ⟨items, hitems, hown⟩ := destroyItems_eq h.owns h.end_eq h.end_lt
    (fun i hi => window_ne_none s.head hi) (le_refl _)
  obtain ⟨items', hfree, hown'⟩ := hown.freeSubarrays_tail (List.nil_append _).symm
    fun p _ => blank_window s.head l p
  have hsize : ∀ a, items'.size a = none := hown'.size
  have hcount : (d.mItEnd.mpCurrentArrayPtr.off + 1 - d.mItBegin.mpCurrentArrayPtr.off).toNat =
      s.subs.length := by
    rw [h.begin_arrayPtr, h.end_arrayPtr]
    show ((((s.lead + s.subs.length : ℕ) : ℤ) - 1) + 1 - s.lead).toNat = _
    omega
  have hptrs : d.ptrs.size d.mpPtrArray = some d.mnPtrArraySize := by
    rw [h.owns.table.size, h.owns.array, if_pos rfl]
  refine ⟨{ d with items := items', ptrs := { d.ptrs with
    size := Function.update d.ptrs.size d.mpPtrArray none } }, ?_, hsize, ?_⟩
  · rw [List.length_nil, Nat.add_zero, ← h.begin_arrayPtr] at hfree
    have hitems' : d.destroyItems l.length d.mItBegin = some { d with items } :=
      (congrArg _ h.begin_eq).trans hitems
    simp only [Deque.destruct, h.size, Int.toNat_natCast, Option.bind_eq_bind, hitems',
      Option.bind_some]
    show ((freeSubarrays { d with items } d.mItBegin.mpCurrentArrayPtr _).bind fun d => _) = _
    rw [hcount, hfree, Option.bind_some, Storage.freeTrivial_eq hptrs]
    rfl
  · intro a
    show Function.update d.ptrs.size d.mpPtrArray none a = none
    by_cases ha : a = d.mpPtrArray
    · rw [ha, Function.update_self]
    · rw [Function.update_of_ne ha, h.owns.table.size, if_neg (by rwa [← h.owns.array])]

end Deque

end Dpp
