import Dpp.String.Grow

/-!
# Changes within a block

* `Rep.over`: other characters in place of as many.
* `erase_rep`: the characters behind a gap move over it, with the terminating `0`.
* `assign_rep`, `assignN_rep`, `resize_rep`, `popBack_rep`, `clear_rep`, `setChar_rep`,
  `shrinkToFit_rep`: the list after each operation.
-/

namespace Dpp.BasicString

open Lib

variable {s s' t : BasicString} {b cap n i j : ℕ} {l l₁ l₂ l₃ cs : List UInt8} {src : Source}

/-- A range of a text reads as it is. -/
theorem Lay.own_reads (h : Lay s b cap n) (l₁ l₂ l₃ : List UInt8)
    (hrow : s.Row ⟨b, 0⟩ ((l₁ ++ (l₂ ++ l₃)).map .byte)) (hl : l₁.length + l₂.length ≤ cap + 1) :
    (Source.own ⟨b, l₁.length⟩ l₂.length).Reads s l₂ := by
  refine ⟨rfl, h.liveRun hl, ?_⟩
  rw [List.map_append, Storage.row_append, plus_chars, List.map_append] at hrow
  exact hrow.2.left

/-- Other characters over a part of a text. -/
theorem row_over (hrow : s.Row ⟨b, 0⟩ ((l₁ ++ (l₂ ++ l₃)).map .byte))
    (hl : cs.length = l₂.length) :
    (s.put ⟨b, l₁.length⟩ (cs.map .byte)).Row ⟨b, 0⟩ ((l₁ ++ (cs ++ l₃)).map .byte) := by
  simp only [List.map_append] at hrow ⊢
  refine hrow.splice (plus_chars b l₁) ?_
  rw [List.length_map, List.length_map, hl]

/-- Characters in place of as many. -/
theorem Rep.over (h : Rep s b cap (l₁ ++ (l₂ ++ l₃))) (cs : List UInt8)
    (hl : cs.length = l₂.length) :
    Rep (Storage.put s ⟨b, l₁.length⟩ (cs.map .byte)) b cap (l₁ ++ (cs ++ l₃)) := by
  have hlen : (l₁ ++ (cs ++ l₃)).length = (l₁ ++ (l₂ ++ l₃)).length := by
    simp only [List.length_append, hl]
  have hle := h.lay.n_le
  refine ⟨?_, ?_, h.only, h.next⟩
  · rw [hlen]
    refine h.lay.put_inside _ ?_
    rw [List.length_map]
    simp only [List.length_append] at hle
    omega
  · have htext := row_text.mp h.row
    simp only [List.append_assoc] at htext
    rw [row_text]
    simp only [List.append_assoc]
    exact row_over htext hl

/-- The copy that writes them. -/
theorem Rep.copyTo_over (h : Rep s b cap (l₁ ++ (l₂ ++ l₃))) (hsrc : src.Reads s cs)
    (hl : cs.length = l₂.length) :
    s.copyTo src ⟨b, l₁.length⟩ = some (Storage.put s ⟨b, l₁.length⟩ (cs.map .byte)) := by
  have hle := h.lay.n_le
  simp only [List.length_append] at hle
  exact copyTo_eq hsrc (h.lay.liveRun (by omega))

/-! ## Fewer characters -/

theorem erase_rep (h : Rep s b cap (l₁ ++ (l₂ ++ l₃))) :
    ∃ s', s.erase l₁.length (l₁.length + l₂.length) = some s' ∧ Rep s' b cap (l₁ ++ l₃) := by
  by_cases h0 : l₂.length = 0
  · obtain rfl := List.length_eq_zero_iff.mp h0
    exact ⟨s, if_pos rfl, h⟩
  have hle := h.lay.n_le
  have hlen : (l₁ ++ (l₂ ++ l₃)).length = l₁.length + l₂.length + l₃.length := by
    simp only [List.length_append, Nat.add_assoc]
  have htext : s.Row ⟨b, 0⟩ (((l₁ ++ l₂) ++ ((l₃ ++ [0]) ++ [])).map .byte) := by
    simpa only [List.append_assoc, List.append_nil] using row_text.mp h.row
  have hreads :
      (Source.own ⟨b, (l₁.length + l₂.length : ℕ)⟩ (l₃.length + 1)).Reads s (l₃ ++ [0]) := by
    have := h.lay.own_reads _ _ _ htext (by
      simp only [List.length_append, List.length_singleton]
      omega)
    simpa only [List.length_append, List.length_singleton] using this
  have hcopy := copyTo_eq hreads (h.lay.liveRun (k := l₁.length) (m := (l₃ ++ [0]).length) (by
    rw [List.length_append, List.length_singleton]
    omega))
  have hrow : (Storage.put s ⟨b, l₁.length⟩ ((l₃ ++ [0]).map .byte)).Row ⟨b, 0⟩
      (((l₁ ++ l₃) ++ [0]).map .byte) := by
    have hleft : s.Row ⟨b, 0⟩ (l₁.map .byte) := by
      have := h.row.left
      rw [List.map_append] at this
      exact this.left
    rw [List.append_assoc]
    exact row_cat hleft (l₃ ++ [0])
  have hlay := h.lay.put_inside (k := l₁.length) ((l₃ ++ [0]).map .byte) (by
    rw [List.length_map, List.length_append, List.length_singleton]
    omega)
  obtain ⟨s', hs', hrep⟩ := hlay.sized h.only h.next hrow (by
    rw [List.length_append]
    omega)
  refine ⟨s', ?_, hrep⟩
  rw [erase, if_neg (by omega)]
  simp only [Option.bind_eq_bind, h.lay.beginPtr, h.lay.getSize, Option.bind_some]
  have hrest : (l₁ ++ (l₂ ++ l₃)).length - (l₁.length + l₂.length) + 1 = l₃.length + 1 := by omega
  rw [plus_begin, plus_begin, hrest, hcopy, Option.bind_some, hlay.getSize, Option.bind_some, ← hs']
  have hlen' : (l₁ ++ l₃).length = l₁.length + l₃.length := List.length_append
  refine congrArg (setSize _) ?_
  rw [hlen, hlen']
  omega

/-- The characters before `i`, from `i` on and from `j` on. -/
theorem split_range (hij : i ≤ j) (hj : j ≤ l.length) :
    l = l.take i ++ ((l.drop i).take (j - i) ++ l.drop j) ∧ (l.take i).length = i ∧
      ((l.drop i).take (j - i)).length = j - i := by
  refine ⟨?_, List.length_take_of_le (by omega), List.length_take_of_le ?_⟩
  · have hd : l.drop j = (l.drop i).drop (j - i) := by
      rw [List.drop_drop, Nat.add_sub_cancel' hij]
    rw [hd, List.take_append_drop, List.take_append_drop]
  · rw [List.length_drop]
    omega

theorem erase_rep_take (h : Rep s b cap l) (hij : i ≤ j) (hj : j ≤ l.length) :
    ∃ s', s.erase i j = some s' ∧ Rep s' b cap (l.take i ++ l.drop j) := by
  obtain ⟨hsplit, hi, hm⟩ := split_range hij hj
  rw [hsplit] at h
  have := erase_rep h
  rwa [hi, hm, Nat.add_sub_cancel' hij] at this

theorem clear_rep (h : Rep s b cap l) : ∃ s', s.clear = some s' ∧ Rep s' b cap [] := by
  obtain ⟨s₁, hs₁, hlay, hsize, hnx, -, -⟩ := h.lay.setSize (m := 0) (Nat.zero_le _)
  obtain ⟨m, hm, hm0⟩ := hlay.put_nul (k := 0) (Nat.zero_le _)
  rw [hm0 rfl] at hm
  refine ⟨Storage.put s₁ ⟨b, 0⟩ [.byte 0], ?_, ⟨hm, Storage.row_put, fun c hc hcb => ?_, ?_⟩⟩
  · rw [clear, hs₁]
    simp only [Option.bind_eq_bind, Option.bind_some, hlay.beginPtr]
    exact hlay.writeChar (k := 0) (Nat.zero_le _) 0
  · exact (congrFun hsize c).trans (h.only c hc hcb)
  · exact h.next.trans_eq hnx.symm

theorem popBack_rep (h : Rep s b cap l) (hl : l ≠ []) :
    ∃ s', s.popBack = some s' ∧ Rep s' b cap l.dropLast := by
  have hpos : 0 < l.length := List.length_pos_iff.mpr hl
  have hle := h.lay.n_le
  have hlen : l.dropLast.length = l.length - 1 := List.length_dropLast
  have hleft : s.Row ⟨b, 0⟩ (l.dropLast.map .byte) := by
    have := h.row.left.take (l.length - 1)
    rwa [← List.map_take, ← List.dropLast_eq_take] at this
  have hlay := h.lay.put_inside (k := l.dropLast.length) [.byte 0] (by
    rw [List.length_singleton]
    omega)
  obtain ⟨s', hs', hrep⟩ :=
    hlay.sized h.only h.next (row_text.mp (row_nul hleft)) (by omega)
  have hp : (⟨b, l.length⟩ : Ptr).plus (-1) = ⟨b, l.dropLast.length⟩ := by
    ext
    · rfl
    · simp only [Ptr.plus_off]
      omega
  refine ⟨s', ?_, hrep⟩
  rw [popBack, h.lay.endPtr]
  simp only [Option.bind_eq_bind, Option.bind_some]
  rw [hp, h.lay.writeChar (by omega), Option.bind_some, hlay.getSize, Option.bind_some, ← hlen]
  exact hs'

theorem shrinkToFit_rep (h : Rep s b cap l) :
    ∃ s' b' cap', s.shrinkToFit = some s' ∧ Rep s' b' cap' l ∧ min 23 cap ≤ cap' ∧
      cap' ≤ max 23 cap := by
  have hle := h.lay.n_le
  have hcap := h.lay.cap_lt
  obtain ⟨s', b', cap', hs', hrep, -, hmin, hmax⟩ :=
    setCapacity_rep h (n := l.length) (by omega) (.inr (.inl le_rfl))
  rw [List.take_length] at hrep
  refine ⟨s', b', cap', ?_, hrep, hmin, by omega⟩
  rw [shrinkToFit, h.lay.getSize]
  exact hs'

/-! ## Other characters -/

theorem setChar_rep (h : Rep s b cap l) (hi : i < l.length) (c : UInt8) :
    ∃ s', s.setChar i c = some s' ∧ Rep s' b cap (l.set i c) := by
  have hsplit : l = l.take i ++ ([l[i]] ++ l.drop (i + 1)) := by
    rw [List.singleton_append, List.getElem_cons_drop, List.take_append_drop]
  have hset : l.set i c = l.take i ++ ([c] ++ l.drop (i + 1)) :=
    List.set_eq_take_append_cons_drop.trans (if_pos hi)
  have hlen : (l.take i).length = i := List.length_take_of_le hi.le
  have hle := h.lay.n_le
  refine ⟨Storage.put s ⟨b, i⟩ [.byte c], ?_, ?_⟩
  · rw [setChar, h.lay.beginPtr]
    simp only [Option.bind_eq_bind, Option.bind_some]
    rw [plus_begin]
    exact h.lay.writeChar (by omega) c
  · rw [hsplit] at h
    have := h.over [c] rfl
    rwa [hlen, ← hset] at this

theorem fillN_eq (c : UInt8) (p : Ptr) :
    s.fillN p n c = s.copyTo (.chars (List.replicate n c)) p := by
  rw [fillN, copyTo, List.map_replicate]

/-- The range `cs` over the begin of the string, of which it may be a part. -/
theorem Rep.copyTo_begin (h : Rep s b cap l) (hsrc : src.Reads s cs) (hle : cs.length ≤ l.length) :
    ∃ s', s.copyTo src ⟨b, 0⟩ = some s' ∧ Rep s' b cap (cs ++ l.drop cs.length) := by
  have hsplit : l = [] ++ (l.take cs.length ++ l.drop cs.length) := by
    rw [List.nil_append, List.take_append_drop]
  have hlen : cs.length = (l.take cs.length).length := (List.length_take_of_le hle).symm
  rw [hsplit] at h
  exact ⟨_, h.copyTo_over hsrc hlen, h.over cs hlen⟩

theorem assign_rep (h : Rep s b cap l) (hsrc : src.Is b l cs) (hfit : cs.length < 2 ^ 62) :
    ∃ s' b' cap', s.assign src = some s' ∧ Rep s' b' cap' cs ∧
      Grows cap cap' cs.length := by
  have hreads := hsrc.reads h.lay h.row.left h.lay.n_le
  have hlen := hreads.length
  rw [assign, h.lay.getSize, h.lay.beginPtr]
  simp only [Option.bind_eq_bind, Option.bind_some, hlen]
  split_ifs with hle
  · obtain ⟨s₁, hs₁, hrep⟩ := h.copyTo_begin hreads hle
    have htotal : (cs ++ l.drop cs.length).length = l.length := by
      rw [List.length_append, List.length_drop]
      omega
    obtain ⟨s', hs', hrep'⟩ := erase_rep_take hrep (i := cs.length) (j := l.length) hle htotal.ge
    rw [List.take_left, ← htotal, List.drop_length, List.append_nil] at hrep'
    refine ⟨s', b, cap, ?_, hrep', .refl ..⟩
    rw [hs₁]
    exact hs'
  · cases hsrc with
    | own i n hin =>
      rw [List.length_take, List.length_drop] at hle
      omega
    | chars cs =>
      have htake : (cs.take l.length).length = l.length := List.length_take_of_le (by omega)
      obtain ⟨s₁, hs₁, hrep⟩ := h.copyTo_begin (Source.reads_chars (cs.take l.length)) htake.le
      rw [htake, List.drop_length, List.append_nil] at hrep
      have hcat : cs.take l.length ++ cs.drop l.length = cs := List.take_append_drop ..
      obtain ⟨s', b', cap', hs', hrep', hmax⟩ := append_rep hrep (.chars (cs.drop l.length)) (by
        rwa [hcat])
      rw [hcat] at hrep' hmax
      refine ⟨s', b', cap', ?_, hrep', hmax⟩
      rw [Source.take, hs₁]
      exact hs'

theorem resize_rep (h : Rep s b cap l) (n : ℕ) (c : UInt8) (hfit : n < 2 ^ 62)
    (hok : ¬ Cramped b cap n) :
    ∃ s' b' cap', s.resize n c = some s' ∧
      Rep s' b' cap' (l.take n ++ List.replicate (n - l.length) c) ∧ Grows cap cap' n := by
  rw [resize, h.lay.getSize]
  simp only [Option.bind_eq_bind, Option.bind_some]
  split_ifs with hlt hgt
  · obtain ⟨s', hs', hrep⟩ := erase_rep_take h hlt.le le_rfl
    refine ⟨s', b, cap, hs', ?_, .refl ..⟩
    rwa [List.drop_length, ← List.replicate_zero (a := c), ← Nat.sub_eq_zero_of_le hlt.le] at hrep
  · have hsum : l.length + (n - l.length) = n := by omega
    obtain ⟨s', b', cap', hs', hrep, hmax⟩ :=
      appendN_rep h (n - l.length) c (by rwa [hsum]) (by rwa [hsum])
    rw [hsum] at hmax
    refine ⟨s', b', cap', hs', ?_, hmax⟩
    rwa [List.take_of_length_le hgt.le]
  · have heq : n = l.length := by omega
    refine ⟨s, b, cap, rfl, ?_, .refl ..⟩
    rw [heq, List.take_length, Nat.sub_self, List.replicate_zero, List.append_nil]
    exact h

theorem assignN_rep (h : Rep s b cap l) (n : ℕ) (c : UInt8) (hfit : n < 2 ^ 62)
    (hok : ¬ Cramped b cap n) :
    ∃ s' b' cap', s.assignN n c = some s' ∧ Rep s' b' cap' (List.replicate n c) ∧
      Grows cap cap' n := by
  rw [assignN, h.lay.getSize, h.lay.beginPtr]
  simp only [Option.bind_eq_bind, Option.bind_some]
  split_ifs with hle
  · have hlen : (List.replicate n c).length = n := List.length_replicate
    obtain ⟨s₁, hs₁, hrep⟩ := h.copyTo_begin (Source.reads_chars (List.replicate n c)) (by omega)
    have htotal : (List.replicate n c ++ l.drop (List.replicate n c).length).length = l.length := by
      rw [List.length_append, List.length_drop, hlen]
      omega
    obtain ⟨s', hs', hrep'⟩ := erase_rep_take hrep (i := n) (j := l.length) hle htotal.ge
    rw [List.take_left' hlen, ← htotal, List.drop_length, List.append_nil] at hrep'
    refine ⟨s', b, cap, ?_, hrep', .refl ..⟩
    rw [fillN_eq, hs₁]
    exact hs'
  · have hlen : (List.replicate l.length c).length = l.length := List.length_replicate
    obtain ⟨s₁, hs₁, hrep⟩ :=
      h.copyTo_begin (Source.reads_chars (List.replicate l.length c)) hlen.le
    rw [hlen, List.drop_length, List.append_nil] at hrep
    have hsum : l.length + (n - l.length) = n := by omega
    obtain ⟨s', b', cap', hs', hrep', hmax⟩ := appendN_rep hrep (n - l.length) c
      (by rwa [hlen, hsum]) (by rwa [hlen, hsum])
    rw [hlen, hsum] at hmax
    rw [List.replicate_append_replicate, hsum] at hrep'
    refine ⟨s', b', cap', ?_, hrep', hmax⟩
    rw [fillN_eq, hs₁]
    exact hs'

end Dpp.BasicString
