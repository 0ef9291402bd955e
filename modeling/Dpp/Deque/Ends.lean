import Dpp.Deque.Grow

/-!
# Both ends of a deque

* **`Valid.emplaceBack`**, **`Valid.emplaceFront`**, **`Valid.popFront`**, **`Valid.popBack`**: the
  four operations on a deque that holds a list, the list changes at that end.
* `Valid.size`, `Valid.front`, `Valid.back`, **`Valid.getItem`**: what the accessors read.
-/

namespace Dpp

open Lib

namespace Deque

variable {T : Type} {k : ℕ} {d : Deque T k} {s : Shape} {l : List T} {x : T}

theorem Valid.ptrSlotBack (h : Valid d s l) : ∃ d' t, d.ptrSlotBack = some d' ∧ Valid d' t l ∧
    t.head = s.head ∧ t.subs = s.subs ∧ t.lead + t.subs.length < d'.mnPtrArraySize ∧
    Resized d d' (t.subs.length + 1) := by
  have hroom₀ := h.owns.table.room
  have hpos := h.subs_pos
  rw [Deque.ptrSlotBack, h.end_arrayPtr]
  by_cases hfull : (d.mnPtrArraySize : ℤ) ≤ ((s.lead + s.subs.length : ℕ) : ℤ) - 1 + 1
  · obtain ⟨d', t, hd', hv, hhead, hsubs, hroom, hgrow⟩ := h.doReallocPtrArray_spec 1 .back
    have hroom' : d.mnPtrArraySize + t.lead + 1 ≤ d'.mnPtrArraySize + s.lead := hroom
    refine ⟨d', t, by rw [if_pos hfull, hd'], hv, hhead, hsubs, by rw [hsubs]; omega, ?_⟩
    refine hgrow.imp_right fun ⟨hcramped, hnew⟩ => ?_
    have : s.lead < 1 := hcramped
    rw [hsubs]
    omega
  · exact ⟨d, s, if_neg hfull, h, rfl, rfl, by omega, .inl rfl⟩

theorem Valid.ptrSlotFront (h : Valid d s l) : ∃ d' t, d.ptrSlotFront = some d' ∧ Valid d' t l ∧
    t.head = s.head ∧ t.subs = s.subs ∧ 0 < t.lead ∧ Resized d d' (t.subs.length + 1) := by
  have hroom₀ := h.owns.table.room
  have hpos := h.subs_pos
  rw [Deque.ptrSlotFront, h.begin_arrayPtr, h.owns.array]
  by_cases hfirst : (⟨s.table, s.lead⟩ : Ptr) = ⟨s.table, 0⟩
  · have hlead : s.lead = 0 := Int.ofNat_eq_zero.mp (congrArg Ptr.off hfirst)
    obtain ⟨d', t, hd', hv, hhead, hsubs, hroom, hgrow⟩ := h.doReallocPtrArray_spec 1 .front
    have hroom' : s.lead + 1 ≤ t.lead := hroom
    refine ⟨d', t, by rw [if_pos hfirst, hd'], hv, hhead, hsubs, by omega, ?_⟩
    refine hgrow.imp_right fun ⟨hcramped, hnew⟩ => ?_
    have : d.mnPtrArraySize < s.lead + s.subs.length + 1 := hcramped
    rw [hsubs]
    omega
  · refine ⟨d, s, if_neg hfirst, h, rfl, rfl, Nat.pos_of_ne_zero fun hc => hfirst ?_, .inl rfl⟩
    rw [hc]
    rfl

/-! ## At the back -/

/-- `emplace_back` appends, whether or not it needs a new subarray or more pointers. -/
theorem Valid.emplaceBack (h : Valid d s l) (x : T) : ∃ d' t, d.emplaceBack x = some d' ∧
    Valid d' t (l ++ [x]) ∧ t.head = s.head ∧ Resized d d' t.subs.length := by
  have hk : 0 < k := Nat.zero_lt_of_lt h.head_lt
  have hlt := h.end_lt
  have hge := h.end_ge
  have hlen : (l ++ [x]).length = l.length + 1 := by
    rw [List.length_append, List.length_singleton]
  rw [Deque.emplaceBack, h.end_eq]
  by_cases hlast : (s.head + l.length) % k + 1 = k
  · -- the last cell of the last subarray
    obtain ⟨hd, hm⟩ := Shape.divMod_succ_of_eq hk hlast
    have hend : s.head + l.length + 1 = s.cells k := by
      have h1 := Nat.div_add_mod (s.head + l.length) k
      have h2 := h.cells_eq
      omega
    obtain ⟨d₁, t, hd₁, hv, hhead, hsubs, hroom, hgrow⟩ := h.ptrSlotBack
    have hcells : t.cells k = s.cells k := by rw [Shape.cells, hsubs, Shape.cells]
    have harr : d₁.mItEnd.mpCurrentArrayPtr.plus 1 =
        ⟨t.table, (t.lead + t.subs.length : ℕ)⟩ := by
      rw [hv.end_arrayPtr]
      simp only [Ptr.plus, Int.sub_add_cancel]
    generalize hd₂ : d₁.withSubarray ⟨t.table, (t.lead + t.subs.length : ℕ)⟩ = d₂
    have hown : Owns d₂ (t.behind [d₁.items.next]) (window t.head l) := hd₂ ▸
      hv.owns.withSubarray_behind hk hroom fun p hp => window_of_ge (by omega)
    have hcells₂ : (t.behind [d₁.items.next]).cells k = s.cells k + k := by
      rw [Shape.cells_behind, hcells, List.length_singleton, Nat.one_mul]
    have hslot : d₂.mItEnd.mpCurrent = (t.behind [d₁.items.next]).slot k (t.head + l.length) := by
      rw [← hd₂, Shape.slot_behind (by omega)]
      show d₁.mItEnd.mpCurrent = _
      rw [hv.end_eq]
      rfl
    have hcon := hown.construct (p := t.head + l.length) (by omega) (window_of_ge (le_refl _)) x
    have hset := hown.set (p := t.head + l.length) (by omega) (some x)
    have hsub : d₂.mItEnd.setSubarray d₂.ptrs (d₂.mItEnd.mpCurrentArrayPtr.plus 1) =
        some { d₂.mItEnd with
          mpCurrentArrayPtr := ⟨t.table, (t.lead + t.subs.length : ℕ)⟩
          mpBegin := (t.behind [d₁.items.next]).subs.getD t.subs.length 0 } := by
      refine hown.table.setSubarray (j := t.subs.length) ?_ _ ?_
      · simp [Shape.behind]
      · rw [← hd₂]
        exact harr
    refine ⟨{ d₂ with
      items := d₂.items.set ((t.behind [d₁.items.next]).slot k (t.head + l.length)) (some x)
      mItEnd := (t.behind [d₁.items.next]).it k (t.head + l.length + 1) },
      t.behind [d₁.items.next], ?_, ⟨⟨?_, ?_, ?_, ?_⟩, ?_, ?_⟩, hhead, ?_⟩
    · rw [if_neg fun hc => hc (Shape.it_last_iff.mpr hlast), hd₁, Option.bind_eq_bind,
        Option.bind_some, harr, allocateSubarray_eq hv.owns.table hroom, hd₂]
      simp only [Option.bind_eq_bind, Option.bind_some, hslot, hcon, hsub, Option.pure_def]
      congr 2
      have hd' : (t.head + l.length + 1) / k = t.subs.length := by
        rw [hhead, hd, hsubs, h.div_end]
      have hm' : (t.head + l.length + 1) % k = 0 := by rw [hhead, hm]
      simp only [DequeIterator.setCurrent, Shape.it, Shape.slot, hd', hm']
      rfl
    · show Owns _ _ (window t.head (l ++ [x]))
      rw [← window_push]
      exact hset.withEnds _ _
    · show d₂.mItBegin = _
      rw [← hd₂]
      show d₁.mItBegin = (t.behind _).it k t.head
      rw [hv.begin_eq, Shape.it_behind (by omega)]
    · rw [hlen]
      rfl
    · rw [hlen, hcells₂]
      show t.head + (l.length + 1) < _
      omega
    · exact hv.head_lt
    · rw [hlen, hcells₂]
      show _ ≤ t.head + (l.length + 1) + k
      omega
    · rw [Resized, ← hd₂, Shape.behind, List.length_append]
      exact hgrow
  · -- room in the last subarray
    have hcon := h.owns.construct (p := s.head + l.length) hlt (window_of_ge (le_refl _)) x
    have hset := h.owns.set (p := s.head + l.length) hlt (some x)
    have hdm := Shape.divMod_succ_of_ne hk hlast
    refine ⟨{ d with
      items := d.items.set (s.slot k (s.head + l.length)) (some x)
      mItEnd := s.it k (s.head + l.length + 1) }, s, ?_, ⟨⟨?_, ?_, ?_, ?_⟩, ?_, ?_⟩, rfl, .inl rfl⟩
    · rw [if_pos fun hc => hlast (Shape.it_last_iff.mp hc), Shape.it_mpCurrent, hcon,
        Shape.it_succ hk hlast]
      rfl
    · rw [← window_push]
      exact hset.withEnds _ _
    · exact h.begin_eq
    · rw [hlen]
      rfl
    · have h1 := Nat.div_add_mod (s.head + l.length) k
      have h2 := h.cells_eq
      have h3 := Nat.mod_lt (s.head + l.length) hk
      rw [hlen]
      omega
    · exact h.head_lt
    · rw [hlen]
      omega

/-- `pop_back` takes the last item, and its subarray if it was the only one in it. -/
theorem Valid.popBack (h : Valid d s (l ++ [x])) : ∃ d' t, d.popBack = some d' ∧
    Valid d' t l ∧ t.head = s.head ∧ d'.mnPtrArraySize = d.mnPtrArraySize := by
  have hk : 0 < k := Nat.zero_lt_of_lt h.head_lt
  have hlt := h.end_lt
  have hge := h.end_ge
  have hlen : s.head + (l ++ [x]).length = s.head + l.length + 1 := by
    rw [List.length_append, List.length_singleton, Nat.add_assoc]
  rw [hlen] at hlt hge
  have hx : window s.head (l ++ [x]) (s.head + l.length) = some x := by
    rw [window_add, List.getElem?_concat_length]
  have hend : d.mItEnd = s.it k (s.head + l.length + 1) := by rw [h.end_eq, hlen]
  rw [Deque.popBack, hend]
  by_cases hfirst : (s.head + l.length + 1) % k = 0
  · -- the only item of the last subarray
    have hlast : (s.head + l.length) % k + 1 = k := by
      by_contra hc
      have := (Shape.divMod_succ_of_ne hk hc).2
      omega
    obtain ⟨hd, hm⟩ := Shape.divMod_succ_of_eq hk hlast
    obtain ⟨init, a, hs⟩ : ∃ init a, s.subs = init ++ [a] :=
      ⟨_, _, (List.dropLast_append_getLast (List.ne_nil_of_length_pos h.subs_pos)).symm⟩
    have hinit : init.length = (s.head + l.length) / k + 1 := by
      have := h.div_end
      rw [hlen, hd, hs, List.length_append, List.length_singleton] at this
      omega
    have hbound : init.length * k = s.head + l.length + 1 := by
      have h1 := Nat.div_add_mod (s.head + l.length) k
      rw [hinit, Nat.add_mul, Nat.one_mul, Nat.mul_comm]
      omega
    obtain ⟨items, hfree, hown⟩ := h.owns.free_last hs fun p hp =>
      window_of_ge (by rw [hlen]; omega)
    have hcells : ({ s with subs := init } : Shape).cells k = s.head + l.length + 1 := hbound
    have hbegin : (s.it k (s.head + l.length + 1)).mpBegin = a := by
      rw [Shape.it_mpBegin, hd, hs, ← hinit, List.getD_append_right _ _ _ _ (le_refl _),
        Nat.sub_self]
      rfl
    have hdes := hown.destroy (p := s.head + l.length) (by omega) (by rw [hx]; exact nofun)
    have hset := hown.set (p := s.head + l.length) (by omega) none
    have hsub : (s.it k (s.head + l.length + 1)).setSubarray d.ptrs
        ((s.it k (s.head + l.length + 1)).mpCurrentArrayPtr.plus (-1)) =
        some { s.it k (s.head + l.length + 1) with
          mpCurrentArrayPtr := ⟨s.table, (s.lead + (s.head + l.length) / k : ℕ)⟩
          mpBegin := init.getD ((s.head + l.length) / k) 0 } := by
      refine hown.table.setSubarray (j := (s.head + l.length) / k) ?_ _ ?_
      · simp [hinit]
      · rw [Shape.it_mpCurrentArrayPtr, hd]
        simp only [Ptr.plus]
        congr 1
        push_cast
        ring
    have hcur : (⟨init.getD ((s.head + l.length) / k) 0, (k : ℤ) - 1⟩ : Ptr) =
        ({ s with subs := init } : Shape).slot k (s.head + l.length) := by
      ext
      · rfl
      · show (k : ℤ) - 1 = ((s.head + l.length) % k : ℕ)
        omega
    refine ⟨{ d with
      items := items.set (({ s with subs := init } : Shape).slot k (s.head + l.length)) none
      mItEnd := ({ s with subs := init } : Shape).it k (s.head + l.length) },
      { s with subs := init }, ?_, ⟨⟨?_, ?_, rfl, ?_⟩, h.head_lt, ?_⟩, rfl, rfl⟩
    · rw [if_neg fun hc => hc (Shape.it_first_iff.mpr hfirst), hbegin, hfree]
      simp only [Option.bind_eq_bind, Option.bind_some, hsub, DequeIterator.setCurrent, hcur,
        hdes, Option.pure_def]
      rfl
    · show Owns _ _ (window s.head l)
      rw [← window_pop]
      exact hset.withEnds _ _
    · show d.mItBegin = _
      have : s.head / k < init.length := by
        rw [Nat.div_eq_of_lt h.head_lt, hinit]
        exact Nat.succ_pos _
      rw [h.begin_eq]
      simp only [Shape.it, Shape.slot, hs, List.getD_append _ _ _ _ this]
    · rw [hcells]
      exact Nat.lt_succ_self _
    · rw [hcells]
      show _ ≤ s.head + l.length + k
      omega
  · -- others are left in it
    have hne : (s.head + l.length) % k + 1 ≠ k := fun hc =>
      hfirst (Shape.divMod_succ_of_eq hk hc).2
    have hdes := h.owns.destroy (p := s.head + l.length) (by omega) (by rw [hx]; exact nofun)
    have hset := h.owns.set (p := s.head + l.length) (by omega) none
    have hpred := Shape.it_pred (s := s) hk hne
    refine ⟨{ d with
      items := d.items.set (s.slot k (s.head + l.length)) none
      mItEnd := s.it k (s.head + l.length) }, s, ?_,
      ⟨⟨?_, h.begin_eq, rfl, by omega⟩, h.head_lt, ?_⟩, rfl, rfl⟩
    · rw [if_pos fun hc => hfirst (Shape.it_first_iff.mp hc), Shape.it_mpCurrent, hpred]
      simp only [Shape.it_mpCurrent, hdes, Option.bind_eq_bind, Option.bind_some, Option.pure_def]
    · rw [← window_pop]
      exact hset.withEnds _ _
    · have h1 := h.cells_eq
      have h2 := Nat.div_add_mod (s.head + l.length) k
      rw [hlen, (Shape.divMod_succ_of_ne hk hne).1] at h1
      omega

/-! ## At the front -/

/-- `pop_front` takes the first item, and its subarray if it was the last one in it. -/
theorem Valid.popFront (h : Valid d s (x :: l)) : ∃ d' t, d.popFront = some d' ∧
    Valid d' t l ∧ d'.mnPtrArraySize = d.mnPtrArraySize := by
  have hk : 0 < k := Nat.zero_lt_of_lt h.head_lt
  have hlt := h.end_lt
  have hge := h.end_ge
  have hhead := h.head_lt
  rw [List.length_cons] at hlt hge
  have hmod : s.head % k = s.head := Nat.mod_eq_of_lt hhead
  have hx : window s.head (x :: l) s.head = some x := window_add s.head 0 (x :: l)
  have hdes := h.owns.destroy (p := s.head) (by omega) (by rw [hx]; exact nofun)
  have hset := h.owns.set (p := s.head) (by omega) none
  rw [window_popFront] at hset
  have hend : d.mItEnd = s.it k (s.head + 1 + l.length) := by
    rw [h.end_eq, List.length_cons]
    congr 1
    omega
  rw [Deque.popFront, h.begin_eq]
  by_cases hlast : s.head % k + 1 = k
  · -- the last item of the first subarray
    obtain ⟨a, rest, hs⟩ : ∃ a rest, s.subs = a :: rest :=
      List.exists_cons_of_ne_nil (List.ne_nil_of_length_pos h.subs_pos)
    have hrest : 0 < rest.length := by
      refine Nat.pos_of_ne_zero fun hc => ?_
      rw [Shape.cells, hs, List.length_cons, hc] at hlt
      omega
    obtain ⟨items, hfree, hown⟩ := hset.free_first hs fun p hp => window_of_lt l (by omega)
    have hcells : ({ s with lead := s.lead + 1, subs := rest, head := s.head - k } : Shape).cells
        k + k = s.cells k := by
      simp only [Shape.cells, hs, List.length_cons, Nat.add_mul, Nat.one_mul]
    have hbegin : (s.it k s.head).mpBegin = a := by
      rw [Shape.it_mpBegin, h.div_head, hs]
      rfl
    have hsub : (s.it k s.head).setSubarray d.ptrs
        ((s.it k s.head).mpCurrentArrayPtr.plus 1) = some { s.it k s.head with
          mpCurrentArrayPtr := ⟨s.table, (s.lead + 1 + 0 : ℕ)⟩, mpBegin := rest.getD 0 0 } := by
      refine hown.table.setSubarray hrest _ ?_
      rw [Shape.it_mpCurrentArrayPtr, h.div_head]
      rfl
    have hhead0 : s.head - k = 0 := by omega
    refine ⟨{ d with
      items
      mItBegin :=
        ({ s with lead := s.lead + 1, subs := rest, head := s.head - k } : Shape).it k 0 },
      { s with lead := s.lead + 1, subs := rest, head := s.head - k }, ?_,
      ⟨⟨?_, ?_, ?_, ?_⟩, ?_, ?_⟩, rfl⟩
    · rw [if_neg fun hc => hc (Shape.it_last_iff.mpr hlast), Shape.it_mpCurrent, hdes,
        Option.bind_eq_bind, Option.bind_some, hbegin, hfree]
      simp only [Option.bind_eq_bind, Option.bind_some, hsub, Option.pure_def]
      simp only [DequeIterator.setCurrent, Shape.it, Shape.slot, Nat.zero_div, Nat.zero_mod]
      rfl
    · refine Owns.withEnds (hown.congr fun p _ => ?_) _ _
      show window (s.head - k) l p = window (s.head + 1) l (p + k)
      rw [show s.head + 1 = s.head - k + k by omega, window_add_left]
    · show _ = Shape.it k _ (s.head - k)
      rw [hhead0]
    · show d.mItEnd = Shape.it k _ (s.head - k + l.length)
      have hpos : s.head + 1 + l.length = s.head - k + l.length + k := by omega
      rw [hend, hpos]
      simp only [Shape.it, Shape.slot, hs, Nat.add_div_right _ hk, Nat.add_mod_right,
        List.getD_cons_succ, DequeIterator.mk.injEq, true_and, Ptr.mk.injEq, Nat.cast_inj]
      omega
    · show s.head - k + l.length < _
      omega
    · show s.head - k < k
      omega
    · show _ ≤ s.head - k + l.length + k
      omega
  · -- others are left in it
    have hroom : s.head + 1 + l.length < s.cells k := by omega
    refine ⟨{ d with
      items := d.items.set (s.slot k s.head) none, mItBegin := s.it k (s.head + 1) },
      { s with head := s.head + 1 }, ?_, ⟨⟨?_, rfl, hend, hroom⟩, ?_, ?_⟩, rfl⟩
    · rw [if_pos fun hc => hlast (Shape.it_last_iff.mp hc), Shape.it_mpCurrent, hdes,
        Shape.it_succ hk hlast]
      rfl
    · exact (hset.withHead _).withEnds _ _
    · show s.head + 1 < k
      omega
    · show s.cells k ≤ s.head + 1 + l.length + k
      omega

/-- `emplace_front` prepends, whether or not it needs a new subarray or more pointers. -/
theorem Valid.emplaceFront (h : Valid d s l) (x : T) : ∃ d' t, d.emplaceFront x = some d' ∧
    Valid d' t (x :: l) ∧ Resized d d' t.subs.length := by
  have hk : 0 < k := Nat.zero_lt_of_lt h.head_lt
  have hlt := h.end_lt
  have hge := h.end_ge
  have hmod : s.head % k = s.head := Nat.mod_eq_of_lt h.head_lt
  rw [Deque.emplaceFront, h.begin_eq]
  by_cases hfirst : s.head % k = 0
  · -- the first cell of the first subarray
    have hhead0 : s.head = 0 := hmod.symm.trans hfirst
    obtain ⟨d₁, t, hd₁, hv, hhead, hsubs, hlead, hgrow⟩ := h.ptrSlotFront
    have hcells : t.cells k = s.cells k := by rw [Shape.cells, hsubs, Shape.cells]
    have harr : d₁.mItBegin.mpCurrentArrayPtr.plus (-1) = ⟨t.table, (t.lead - 1 : ℕ)⟩ := by
      rw [hv.begin_arrayPtr]
      simp only [Ptr.plus]
      congr 1
      omega
    have hroom : t.lead - 1 < d₁.mnPtrArraySize := by have := hv.owns.table.room; omega
    generalize hd₂ : d₁.withSubarray ⟨t.table, (t.lead - 1 : ℕ)⟩ = d₂
    have hown : Owns d₂ (t.before k [d₁.items.next]) (window (t.head + k) l) := hd₂ ▸
      hv.owns.withSubarray_before hk hlead (fun p hp => window_of_lt l (by omega))
        fun p => window_add_left k t.head p l
    have hlt₂ := hv.end_lt
    have hge₂ := hv.end_ge
    have hcells₂ : (t.before k [d₁.items.next]).cells k = s.cells k + k := by
      rw [Shape.cells_before, hcells, List.length_singleton, Nat.one_mul]
    have hit : ∀ p, (t.before k [d₁.items.next]).it k (p + k) = t.it k p := fun p => by
      have : (t.before k [d₁.items.next]).it k (p + [d₁.items.next].length * k) = t.it k p :=
        Shape.it_before hk hlead
      rwa [List.length_singleton, Nat.one_mul] at this
    have hbegin : d₂.mItBegin = t.it k t.head := by rw [← hd₂, ← hv.begin_eq]; rfl
    have hend : d₂.mItEnd = t.it k (t.head + l.length) := by rw [← hd₂, ← hv.end_eq]; rfl
    have hdiv : (k - 1) / k = 0 := Nat.div_eq_of_lt (by omega)
    have hmodk : (k - 1) % k = k - 1 := Nat.mod_eq_of_lt (by omega)
    have hsub : d₂.mItBegin.setSubarray d₂.ptrs (d₂.mItBegin.mpCurrentArrayPtr.plus (-1)) =
        some { d₂.mItBegin with
          mpCurrentArrayPtr := ⟨t.table, (t.lead - 1 + 0 : ℕ)⟩, mpBegin := d₁.items.next } := by
      refine hown.table.setSubarray (j := 0) (Nat.succ_pos _) _ ?_
      rw [← hd₂]
      exact harr
    have hcur : (⟨d₁.items.next, (k : ℤ) - 1⟩ : Ptr) =
        (t.before k [d₁.items.next]).slot k (k - 1) := by
      rw [Shape.slot_before_new (by omega)]
      congr 1
      omega
    have hcon := hown.construct (p := k - 1) (by omega) (window_of_lt l (by omega)) x
    have hset := hown.set (p := k - 1) (by omega) (some x)
    have hwin : Function.update (window (t.head + k) l) (k - 1) (some x) =
        window (k - 1) (x :: l) := by
      rw [show t.head + k = k - 1 + 1 by omega, window_pushFront]
    rw [hwin] at hset
    refine ⟨{ d₂ with
      items := d₂.items.set ((t.before k [d₁.items.next]).slot k (k - 1)) (some x)
      mItBegin := ({ t.before k [d₁.items.next] with head := k - 1 } : Shape).it k (k - 1) },
      { t.before k [d₁.items.next] with head := k - 1 }, ?_, ⟨⟨?_, rfl, ?_, ?_⟩, ?_, ?_⟩, ?_⟩
    · rw [if_neg fun hc => hc (Shape.it_first_iff.mpr hfirst), hd₁, Option.bind_eq_bind,
        Option.bind_some, harr, allocateSubarray_eq hv.owns.table hroom, hd₂]
      simp only [Option.bind_eq_bind, Option.bind_some, hsub, DequeIterator.setCurrent, hcur, hcon,
        Option.pure_def]
      simp only [Shape.it, Shape.slot, hdiv, hmodk]
      rfl
    · exact (hset.withHead _).withEnds _ _
    · show d₂.mItEnd = (t.before k [d₁.items.next]).it k (k - 1 + (l.length + 1))
      rw [hend, ← hit]
      congr 1
      omega
    · show k - 1 + (l.length + 1) < (t.before k [d₁.items.next]).cells k
      omega
    · show k - 1 < k
      omega
    · show (t.before k [d₁.items.next]).cells k ≤ k - 1 + (l.length + 1) + k
      omega
    · rw [Resized, ← hd₂]
      exact hgrow
  · -- room in the first subarray
    obtain ⟨j, hj⟩ : ∃ j, s.head = j + 1 := Nat.exists_eq_add_one_of_ne_zero fun hc =>
      hfirst (by rw [hc, Nat.zero_mod])
    have hjk : j < k := by have := h.head_lt; omega
    have hne : j % k + 1 ≠ k := by
      rw [Nat.mod_eq_of_lt hjk]
      have := h.head_lt
      omega
    have hcon := h.owns.construct (p := j) (by omega) (window_of_lt l (by omega)) x
    have hset := h.owns.set (p := j) (by omega) (some x)
    rw [hj, window_pushFront] at hset
    have hpred := Shape.it_pred (s := s) hk hne
    refine ⟨{ d with
      items := d.items.set (s.slot k j) (some x), mItBegin := s.it k j },
      { s with head := j }, ?_, ⟨⟨?_, rfl, ?_, ?_⟩, hjk, ?_⟩, .inl rfl⟩
    · rw [if_pos fun hc => hfirst (Shape.it_first_iff.mp hc), hj, Shape.it_mpCurrent, hpred]
      simp only [Shape.it_mpCurrent, hcon, Option.bind_eq_bind, Option.bind_some, Option.pure_def]
    · exact (hset.withHead _).withEnds _ _
    · show d.mItEnd = s.it k (j + (l.length + 1))
      rw [h.end_eq, hj]
      congr 1
      omega
    · show j + (l.length + 1) < s.cells k
      omega
    · show s.cells k ≤ j + (l.length + 1) + k
      omega

/-! ## Accessors -/

theorem Valid.size (h : Valid d s l) : d.size = l.length := by
  rw [Deque.size, h.end_eq, h.begin_eq, sub_it]
  push_cast
  ring

theorem Valid.front (h : Valid d s (x :: l)) : d.front = some x := by
  have := h.end_lt
  rw [Deque.front, h.begin_eq]
  exact h.owns.read (by omega) (window_add s.head 0 (x :: l))

theorem Valid.back (h : Valid d s (l ++ [x])) : d.back = some x := by
  have hlt := h.end_lt
  have hlen : s.head + (l ++ [x]).length = s.head + l.length + 1 := by
    rw [List.length_append, List.length_singleton, Nat.add_assoc]
  rw [hlen] at hlt
  rw [Deque.back, h.end_eq, hlen, decr_it h.owns.table hlt]
  refine h.owns.read (p := s.head + l.length) (by omega) ?_
  rw [window_add, List.getElem?_concat_length]

/-- `operator[]` reads the item at its index. -/
theorem Valid.getItem (h : Valid d s l) (hk : k ∣ 16777216) {n : ℕ} (hn : n < l.length) :
    d.getItem n = l[n]? := by
  have hk0 : 0 < k := Nat.zero_lt_of_lt h.head_lt
  have hlt := h.end_lt
  have hkz : (k : ℤ) ≠ 0 := by exact_mod_cast hk0.ne'
  have hmod := Nat.mod_lt (s.head + n) hk0
  have hdm : ((k * ((s.head + n) / k) + (s.head + n) % k : ℕ) : ℤ) = s.head + n := by
    rw [Nat.div_add_mod, Nat.cast_add]
  have hoff : d.mItBegin.mpCurrent.off = s.head := by
    rw [h.begin_eq, Shape.it_mpCurrent, Shape.slot_off, Nat.mod_eq_of_lt h.head_lt]
  have hread := h.owns.table.read (Shape.div_lt (k := k) (p := s.head + n) (by omega))
  have hitem := h.owns.read (p := s.head + n) (x := l[n]) (by omega)
    (by rw [window_add, List.getElem?_eq_getElem hn])
  rw [Shape.slot] at hitem
  rw [Deque.getItem, hoff, h.begin_arrayPtr]
  generalize (s.head + n) / k = q at hdm hread hitem ⊢
  generalize (s.head + n) % k = r at hdm hitem hmod ⊢
  rw [Nat.cast_add, Nat.cast_mul] at hdm
  obtain ⟨c, hc⟩ := hk
  have hc' : (16777216 : ℤ) = k * c := by exact_mod_cast hc
  have hidx : (16777216 + ((s.head : ℤ) + n)).tdiv k - (16777216 : ℤ).tdiv k = q := by
    rw [hc', Int.mul_tdiv_cancel_left _ hkz, Int.tdiv_eq_ediv_of_nonneg (by omega), ← hdm,
      show (k : ℤ) * c + (k * q + r) = r + k * (c + q) by ring, Int.add_mul_ediv_left _ _ hkz,
      Int.ediv_eq_zero_of_lt (by omega) (by omega)]
    ring
  have hptr : (⟨s.table, s.lead⟩ : Ptr).plus q = ⟨s.table, (s.lead + q : ℕ)⟩ := by
    rw [Ptr.plus, Nat.cast_add]
  have hslot : (s.head : ℤ) + n - q * k = r := by
    rw [← hdm]
    ring
  simp only [hidx, hptr, hread, Option.bind_eq_bind, Option.bind_some, hslot, hitem]
  rw [List.getElem?_eq_getElem hn]

end Deque

end Dpp
