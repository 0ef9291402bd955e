import Dpp.Deque.Life

/-!
# One deque over another

* `copy_eq`: the loop that assigns items of another deque to items.
* `freeSubarrays_tail`, **`Valid.eraseEnd`**: the items from an iterator on are taken.
* **`Valid.assign`**: after `operator=` a deque holds the list of the other one, as far as the
  iterators reach; **`Valid.assign_empty_none`**: into an empty deque, exactly as far.
-/

namespace Dpp

open Lib

namespace Deque

variable {T : Type} {k : ℕ} {d x : Deque T k} {s u : Shape} {l ys : List T} {f : ℕ → Option T}

/-- The loop of `copy`, from another deque over items. -/
theorem copy_eq {g : ℕ → Option T} {p q : ℕ} (h : Owns d s f) (hx : Owns x u g)
    (hq : q + ys.length < u.cells k) (hp : p + ys.length < s.cells k)
    (hg : ∀ i < ys.length, g (q + i) = ys[i]?) (hf : ∀ i < ys.length, f (p + i) ≠ none) :
    ∃ items, copy x d ys.length (u.it k q) (s.it k p) =
        some ({ d with items }, s.it k (p + ys.length)) ∧
      Owns ({ d with items } : Deque T k) s (fill f p ys) := by
  induction ys generalizing d f p q with
  | nil => exact ⟨d.items, rfl, by rw [fill_nil]; exact h⟩
  | cons y ys ih =>
    simp only [List.length_cons] at hq hp hg hf ⊢
    have hset := h.set (p := p) (by omega) (some y)
    have hobj : ∀ i < ys.length, Function.update f p (some y) (p + 1 + i) ≠ none := fun i hi => by
      rw [Function.update_of_ne (by omega), Nat.add_assoc, Nat.add_comm 1]
      exact hf (i + 1) (by omega)
    have hrest : ∀ i < ys.length, g (q + 1 + i) = ys[i]? := fun i hi => by
      rw [Nat.add_assoc, Nat.add_comm 1, hg (i + 1) (by omega)]
      rfl
    obtain ⟨items, heq, hown⟩ := ih (q := q + 1) hset (by omega) (by omega) hrest hobj
    refine ⟨items, ?_, by rw [← fill_cons]; exact hown⟩
    have hread : x.items.read (u.slot k q) = some y := hx.read (by omega) (hg 0 (by omega))
    have hfirst : (u.it k q).incr k x.ptrs = some (u.it k (q + 1)) := incr_it hx.table (by omega)
    have hdest : (s.it k p).incr k d.ptrs = some (s.it k (p + 1)) := incr_it h.table (by omega)
    have hassign := h.assign (p := p) (by omega) (hf 0 (by omega)) y
    rw [copy]
    simp only [Shape.it_mpCurrent, hread, hassign, hfirst, hdest, Option.bind_eq_bind,
      Option.bind_some]
    rw [show p + (ys.length + 1) = p + 1 + ys.length by omega]
    exact heq

/-- Items over the first ones of a list. -/
theorem fill_window_over (head : ℕ) (l ys : List T) :
    fill (window head l) head ys = window head (ys ++ l.drop ys.length) := by
  funext r
  rw [fill, window, window]
  by_cases hlt : r < head
  · rw [if_neg (by omega), if_pos hlt, if_pos hlt]
  · by_cases hin : r < head + ys.length
    · rw [if_pos (by omega), if_neg hlt, List.getElem?_append_left (by omega)]
    · rw [if_neg (by omega), if_neg hlt, if_neg hlt, List.getElem?_append_right (by omega),
        List.getElem?_drop]
      congr 1
      omega

theorem blank_window_back (head : ℕ) (l ys : List T) :
    blank (window head (l ++ ys)) (head + l.length) ys.length = window head l := by
  funext r
  rw [blank, window, window]
  by_cases hlt : r < head
  · rw [if_neg (by omega), if_pos hlt, if_pos hlt]
  · by_cases hin : r < head + l.length
    · rw [if_neg (by omega), if_neg hlt, if_neg hlt, List.getElem?_append_left (by omega)]
    · rw [if_neg hlt, if_neg hlt, List.getElem?_eq_none (l := l) (by omega)]
      split_ifs with hend
      · rfl
      · exact List.getElem?_eq_none (by rw [List.length_append]; omega)

/-! ## Items off the end -/

/-- `erase` of all items from an iterator on. -/
theorem Valid.eraseEnd (h : Valid d s (l ++ ys)) (hk : k ∣ 16777216)
    (hn : l ≠ [] → Reaches k ((s.head + (l ++ ys).length) % k) ys.length) :
    ∃ d' t, d.eraseEnd (s.it k (s.head + l.length)) = some d' ∧ Valid d' t l ∧
      d'.mnPtrArraySize = d.mnPtrArraySize := by
  have hk0 : 0 < k := Nat.zero_lt_of_lt h.head_lt
  have hlt := h.end_lt
  have hhead := h.head_lt
  have hlen : (l ++ ys).length = l.length + ys.length := List.length_append
  rw [Deque.eraseEnd]
  by_cases hl : l = []
  · subst hl
    obtain ⟨d', t, hd', hv, -, hsize⟩ := h.clear
    have heq : (s.it k (s.head + ([] : List T).length)).mpCurrent = d.mItBegin.mpCurrent := by
      rw [h.begin_eq]
      rfl
    exact ⟨d', t, by rw [if_pos heq, hd'], hv, hsize⟩
  · have hpos : 0 < l.length := List.length_pos_iff.mpr hl
    have hne : (s.it k (s.head + l.length)).mpCurrent ≠ d.mItBegin.mpCurrent := fun hc => by
      rw [h.begin_eq, Shape.it_mpCurrent, Shape.it_mpCurrent,
        Shape.slot_inj h.owns.nodup (by omega) (by omega)] at hc
      omega
    have hsub : d.mItEnd.sub k (s.it k (s.head + l.length)) = ys.length := by
      rw [h.end_eq, sub_it, hlen]
      push_cast
      ring
    have hadd : d.mItEnd.add k d.ptrs (-(ys.length : ℤ)) = some (s.it k (s.head + l.length)) := by
      rw [h.end_eq]
      exact add_it h.owns.table hk (by rw [hlen]; push_cast; ring) (by omega) (hn hl)
    obtain ⟨items, hdes, hown⟩ := destroyItems_eq (p := s.head + l.length) (m := ys.length) h.owns
      (by rw [h.end_eq, hlen, Nat.add_assoc]) (by omega)
      (fun i hi => by
        rw [Nat.add_assoc]
        exact window_ne_none s.head (by omega)) (le_refl _)
    rw [blank_window_back] at hown
    -- the subarrays behind the new last one
    obtain ⟨j, hj⟩ : ∃ j, (s.head + l.length) / k = j := ⟨_, rfl⟩
    have hjlt : j + 1 ≤ s.subs.length := hj ▸ Shape.div_lt (s := s) (by omega)
    have hdm := Nat.div_add_mod (s.head + l.length) k
    have hmod := Nat.mod_lt (s.head + l.length) hk0
    rw [hj, Nat.mul_comm] at hdm
    have hkeep : (s.subs.take (j + 1)).length = j + 1 := by rw [List.length_take]; omega
    have hcells : ({ s with subs := s.subs.take (j + 1) } : Shape).cells k = j * k + k := by
      rw [Shape.cells, hkeep, Nat.succ_mul]
    obtain ⟨items', hfree, hown'⟩ := hown.freeSubarrays_tail
      (List.take_append_drop (j + 1) s.subs).symm fun p hp => window_of_ge (by
        rw [hkeep, Nat.succ_mul] at hp
        omega)
    have hit : ∀ p, p ≤ s.head + l.length →
        ({ s with subs := s.subs.take (j + 1) } : Shape).it k p = s.it k p := fun p hp => by
      have : (Shape.behind { s with subs := s.subs.take (j + 1) } (s.subs.drop (j + 1))).it k p =
          ({ s with subs := s.subs.take (j + 1) } : Shape).it k p := Shape.it_behind (by omega)
      rw [← this, Shape.behind]
      simp only [List.take_append_drop]
    have hcount : (d.mItEnd.mpCurrentArrayPtr.off -
        (s.it k (s.head + l.length)).mpCurrentArrayPtr.off).toNat =
        (s.subs.drop (j + 1)).length := by
      rw [h.end_arrayPtr, Shape.it_mpCurrentArrayPtr, hj, List.length_drop]
      simp only
      omega
    have hpp : (s.it k (s.head + l.length)).mpCurrentArrayPtr.plus 1 =
        ⟨s.table, (s.lead + (s.subs.take (j + 1)).length : ℕ)⟩ := by
      rw [Shape.it_mpCurrentArrayPtr, hj, hkeep]
      rfl
    refine ⟨{ d with items := items', mItEnd := s.it k (s.head + l.length) },
      { s with subs := s.subs.take (j + 1) }, ?_,
      ⟨⟨hown'.withEnds _ _, ?_, (hit _ (le_refl _)).symm, ?_⟩, hhead, ?_⟩, rfl⟩
    · rw [if_neg hne]
      simp only [hsub, hadd, Int.toNat_natCast, hdes, Option.bind_eq_bind, Option.bind_some, hpp,
        hcount, hfree, Option.pure_def]
    · show d.mItBegin = _
      rw [h.begin_eq]
      exact (hit _ (by omega)).symm
    · show s.head + l.length < _
      omega
    · show _ ≤ s.head + l.length + k
      omega

/-! ## The assignment -/

/-- After `operator=` the deque holds the list of the other one. -/
theorem Valid.assign (h : Valid d s l) (hx : Valid x u ys) (hk : k ∣ 16777216)
    (hempty : l = [] → Reaches k s.head ys.length)
    (hshort : ys ≠ [] → ys.length < l.length →
      Reaches k ((s.head + l.length) % k) (l.length - ys.length)) :
    ∃ d' t, d.assign x = some d' ∧ Valid d' t ys ∧ Resized d d' t.subs.length := by
  have hlt := h.end_lt
  have hxlt := hx.end_lt
  simp only [Deque.assign, h.size, hx.size]
  by_cases hlen : (l.length : ℤ) < ys.length
  · -- the items that there are, then the rest
    rw [if_pos hlen]
    have hle : l.length ≤ ys.length := by omega
    have htake : (ys.take l.length).length = l.length := by rw [List.length_take]; omega
    have hadd : x.mItBegin.add k x.ptrs l.length = some (u.it k (u.head + l.length)) := by
      rw [hx.begin_eq]
      exact add_it hx.owns.table hk (by push_cast; ring) (by omega) (.inl (by omega))
    have hfirst : ∀ i < (ys.take l.length).length,
        window u.head ys (u.head + i) = (ys.take l.length)[i]? := fun i hi => by
      rw [window_add, List.getElem?_take_of_lt (by omega)]
    obtain ⟨items, hcopy, hown⟩ := copy_eq (p := s.head) (q := u.head) h.owns hx.owns (by omega)
      (by omega) hfirst fun i hi => window_ne_none s.head (by omega)
    rw [fill_window_over, htake, List.drop_length, List.append_nil] at hown
    have hv : Valid ({ d with items } : Deque T k) s (ys.take l.length) := by
      refine ⟨⟨hown, h.begin_eq, ?_, ?_⟩, h.head_lt, ?_⟩ <;> rw [htake]
      exacts [h.end_eq, hlt, h.end_ge]
    have hrange : Range x u (ys.drop l.length) (u.it k (u.head + l.length)) x.mItEnd
        (u.head + l.length) := by
      have hsplit : Valid x u (ys.take l.length ++ ys.drop l.length) := by
        rwa [List.take_append_drop]
      have := hsplit.range
      rwa [htake] at this
    obtain ⟨d', t, hd', hv', hsize⟩ := hv.insertEnd hk hrange fun hc => by
      have hl : l = [] := List.eq_nil_of_length_eq_zero (by rw [← htake, hc]; rfl)
      have := hempty hl
      rw [hl] at hlen hc ⊢
      exact this
    rw [List.take_append_drop] at hv'
    refine ⟨d', t, ?_, hv', hsize⟩
    rw [← h.begin_eq, ← hx.begin_eq, htake] at hcopy
    have hsub : ((u.it k (u.head + l.length)).sub k x.mItBegin).toNat = l.length := by
      rw [hx.begin_eq, sub_length]
    simp only [hadd, hsub, hcopy, Option.bind_eq_bind, Option.bind_some, hd']
  · -- over the first items; the others are taken
    rw [if_neg hlen]
    have hle : ys.length ≤ l.length := by omega
    obtain ⟨items, hcopy, hown⟩ := copy_eq (p := s.head) (q := u.head) h.owns hx.owns (by omega)
      (by omega) (fun i _ => window_add u.head i ys) fun i hi => window_ne_none s.head (by omega)
    rw [fill_window_over] at hown
    have hlen' : (ys ++ l.drop ys.length).length = l.length := by
      rw [List.length_append, List.length_drop]
      omega
    have hv : Valid ({ d with items } : Deque T k) s (ys ++ l.drop ys.length) := by
      refine ⟨⟨hown, h.begin_eq, ?_, ?_⟩, h.head_lt, ?_⟩ <;> rw [hlen']
      exacts [h.end_eq, hlt, h.end_ge]
    rw [← h.begin_eq, ← hx.begin_eq] at hcopy
    have hsub : (x.mItEnd.sub k x.mItBegin).toNat = ys.length := by
      rw [hx.begin_eq, hx.end_eq, sub_length]
    simp only [hsub, hcopy, Option.bind_eq_bind, Option.bind_some]
    by_cases hshorter : (ys.length : ℤ) < l.length
    · rw [if_pos hshorter]
      obtain ⟨d', t, hd', hv', hsize⟩ := hv.eraseEnd hk fun hys => by
        rw [hlen', List.length_drop]
        exact hshort hys (by omega)
      exact ⟨d', t, hd', hv', .inl hsize⟩
    · rw [if_neg hshorter]
      refine ⟨_, s, rfl, ?_, .inl rfl⟩
      rwa [List.drop_of_length_le (by omega), List.append_nil] at hv

/-- A list whose begin the iterators do not reach is not copied into an empty deque. -/
theorem Valid.assign_empty_none (h : Valid d s []) (hx : Valid x u ys) (hk : k ∣ 16777216)
    (hn : ¬ Reaches k s.head ys.length) : d.assign x = none := by
  have hfar : ¬ -16777216 ≤ (s.head : ℤ) - ys.length := fun hc => hn (.inl hc)
  have hpos : (0 : ℤ) < ys.length := by
    have := h.head_lt
    omega
  have hxlt := hx.end_lt
  have hadd : x.mItBegin.add k x.ptrs 0 = some (u.it k (u.head + 0)) := by
    rw [hx.begin_eq]
    exact add_it hx.owns.table hk (by push_cast; ring) (by omega) (.inl (by omega))
  have hnone := h.insertFront_none hk (Valid.range (l := []) hx) hn
  have hend : d.insertEnd x (u.it k (u.head + 0)) x.mItEnd = none := by
    have heq : d.mItEnd.mpCurrent = d.mItBegin.mpCurrent := by rw [h.end_eq, h.begin_eq]; rfl
    rw [Deque.insertEnd, if_pos heq]
    exact hnone
  have hsub : ((u.it k (u.head + 0)).sub k x.mItBegin).toNat = 0 := by
    rw [hx.begin_eq, sub_length]
  simp only [Deque.assign, h.size, hx.size, List.length_nil, Nat.cast_zero]
  rw [if_pos hpos, hadd]
  simp only [hsub, copy, Option.bind_eq_bind, Option.bind_some, hend]

end Deque

end Dpp
