import Dpp.String.Life

/-!
# Insertion

* `insertInPlace_rep`: the text behind the place of insertion is moved in two parts, so that the
  terminating `0` is in place before the size says so.
* `intoNewBlock_rep`: a new block with a range in place of some characters.
* **`insertChars_rep`**, **`insertOwn_rep`**: characters from elsewhere and a part of the string
  itself are inserted; the latter may leave a block that is smaller than the object.
-/

namespace Dpp.BasicString

open Lib

variable {s s' t : BasicString} {b cap n k : ℕ} {l l₁ l₂ l₃ cs ds ys : List UInt8} {src : Source}

/-! ## Where there is room -/

/-- A text that grows: characters behind it, the last of which is the `0`, and the new size. -/
theorem Lay.extend (h : Lay t b cap n) (honly : ∀ c, c ≠ 0 → c ≠ b → t.size c = none)
    (hnext : b < t.next) (hrow : t.Row ⟨b, 0⟩ (l.map .byte)) (hsrc : src.Reads t (ys ++ [0]))
    (hl : (l ++ ys).length ≤ cap) :
    ∃ s', ((t.copyTo src ⟨b, l.length⟩).bind fun t =>
      BasicString.setSize t (l ++ ys).length) = some s' ∧
      Rep s' b cap (l ++ ys) := by
  have hle : l.length + ys.length ≤ cap := by rwa [List.length_append] at hl
  have hcopy := copyTo_eq hsrc (h.liveRun (k := l.length) (m := (ys ++ [0]).length) (by
    rw [List.length_append, List.length_singleton]
    omega))
  obtain ⟨m, hm, -⟩ := h.put_text (k := l.length) (ys.map .byte) (by rwa [List.length_map])
  have hmap : ys.map Cell.byte ++ [.byte 0] = (ys ++ [0]).map .byte := by
    rw [List.map_append, List.map_singleton]
  rw [hmap] at hm
  have hrow' := row_cat hrow (ys ++ [0])
  rw [← List.append_assoc] at hrow'
  rw [hcopy]
  exact hm.sized honly hnext hrow' hl

/-- The end of the text and the `0` behind it are put behind the text. -/
theorem Rep.doubleEnd (h : Rep s b cap (l ++ ys))
    (hroom : (l ++ ys).length + (ys.length + 1) ≤ cap) :
    ∃ s', ((s.copyTo (.own ⟨b, l.length⟩ (ys.length + 1)) ⟨b, (l ++ ys ++ [0]).length⟩).bind
      fun t => BasicString.setSize t (l ++ ys ++ [0] ++ ys).length) = some s' ∧
      Rep s' b cap (l ++ ys ++ [0] ++ ys) := by
  have htext : s.Row ⟨b, 0⟩ ((l ++ ((ys ++ [0]) ++ [])).map .byte) := by
    simpa only [List.append_assoc, List.append_nil] using row_text.mp h.row
  have hreads : (Source.own ⟨b, l.length⟩ (ys ++ [0]).length).Reads s (ys ++ [0]) :=
    h.lay.own_reads _ _ _ htext (by
      rw [List.length_append] at hroom
      simp only [List.length_append, List.length_singleton]
      omega)
  rw [List.length_append, List.length_singleton] at hreads
  exact h.lay.extend h.only h.next (row_text.mp h.row) hreads (by
    simp only [List.length_append, List.length_singleton] at hroom ⊢
    omega)

/-- Then the rest of it moves up, and the new characters take its place. -/
theorem Rep.shiftOver (h : Rep s b cap (l₁ ++ (ds ++ ys) ++ [0] ++ ys))
    (hcs : ys.length + 1 = cs.length) :
    ∃ s', ((s.copyTo (.own ⟨b, l₁.length⟩ ds.length) (Ptr.plus ⟨b, l₁.length⟩ cs.length)).bind
      fun t => t.copyTo (.chars cs) ⟨b, l₁.length⟩) = some s' ∧
      Rep s' b cap (l₁ ++ (cs ++ (ds ++ ys))) := by
  have hle := h.lay.n_le
  simp only [List.length_append, List.length_singleton] at hle
  -- `P` is what the new characters overwrite, and `Q` what the moved ones do
  obtain ⟨P, Q, hPQ, hP⟩ : ∃ P Q, ds ++ ys ++ [0] = P ++ Q ∧ P.length = cs.length := by
    refine ⟨_, _, (List.take_append_drop cs.length _).symm, List.length_take_of_le ?_⟩
    simp only [List.length_append, List.length_singleton]
    omega
  have hQ : ds.length = Q.length := by
    have := congrArg List.length hPQ
    simp only [List.length_append, List.length_singleton] at this
    omega
  have htext : (l₁ ++ (ds ++ ys)) ++ [0] ++ ys = (l₁ ++ P) ++ (Q ++ ys) := by
    rw [List.append_assoc l₁, hPQ]
    simp only [List.append_assoc]
  have hup : (⟨b, l₁.length⟩ : Ptr).plus cs.length = ⟨b, (l₁ ++ P).length⟩ :=
    plus_length (by rw [List.length_append, hP])
  have hreads : (Source.own ⟨b, l₁.length⟩ ds.length).Reads s ds := by
    refine h.lay.own_reads _ _ (ys ++ [0] ++ ys ++ [0]) ?_ (by omega)
    simpa only [List.append_assoc] using row_text.mp h.row
  rw [htext] at h
  have hcopy := h.copyTo_over hreads hQ
  have h' := h.over ds hQ
  rw [List.append_assoc] at h'
  refine ⟨_, ?_, h'.over cs hP.symm⟩
  rw [hup, hcopy, Option.bind_some]
  exact h'.copyTo_over (Source.reads_chars cs) hP.symm

/-- Not more characters than there are behind the place: those move up, and the new ones take
their place. -/
theorem insertInPlace_few (h : Rep s b cap (l₁ ++ l₂)) (h0 : cs.length ≠ 0)
    (hle : cs.length ≤ l₂.length) (hroom : (l₁ ++ l₂).length + cs.length ≤ cap) :
    ∃ s', s.insertInPlace l₁.length (.chars cs) = some s' ∧ Rep s' b cap (l₁ ++ (cs ++ l₂)) := by
  -- `ds` moves to its new place in the second step, `ys` and the `0` behind it in the first
  obtain ⟨ds, ys, rfl, hys⟩ : ∃ ds ys, l₂ = ds ++ ys ∧ ys.length + 1 = cs.length := by
    refine ⟨l₂.take (l₂.length + 1 - cs.length), l₂.drop (l₂.length + 1 - cs.length),
      (List.take_append_drop ..).symm, ?_⟩
    rw [List.length_drop]
    omega
  have hends : Rep s b cap (l₁ ++ ds ++ ys) := by rwa [List.append_assoc]
  obtain ⟨s₁, hs₁, h₁⟩ := hends.doubleEnd (by rwa [List.append_assoc, hys])
  rw [List.append_assoc l₁ ds ys] at hs₁ h₁
  obtain ⟨s₂, hs₂, h₂⟩ := h₁.shiftOver hys
  obtain ⟨t, ht, hset⟩ := Option.bind_eq_some_iff.mp hs₁
  refine ⟨s₂, ?_, h₂⟩
  have hlen : (l₁ ++ (ds ++ ys)).length = l₁.length + ds.length + ys.length := by
    simp only [List.length_append, Nat.add_assoc]
  have hsize : (l₁ ++ (ds ++ ys)).length + cs.length =
      ((l₁ ++ (ds ++ ys)) ++ [0] ++ ys).length := by
    simp only [List.length_append, List.length_singleton]
    omega
  have hend : (⟨b, (l₁ ++ (ds ++ ys)).length⟩ : Ptr).plus (1 - cs.length) =
      ⟨b, (l₁ ++ ds).length⟩ := by
    ext
    · rfl
    · rw [Ptr.plus_off, hlen, List.length_append]
      push_cast
      omega
  have hpast : (⟨b, (l₁ ++ (ds ++ ys)).length⟩ : Ptr).plus 1 =
      ⟨b, ((l₁ ++ (ds ++ ys)) ++ [0]).length⟩ :=
    plus_length (j := 1) (by simp only [List.length_append, List.length_singleton])
  have hcount : (l₁ ++ (ds ++ ys)).length - l₁.length - cs.length + 1 = ds.length := by
    rw [List.length_append] at hle
    omega
  have hbehind : (Source.chars cs).length ≤ (l₁ ++ (ds ++ ys)).length - l₁.length := by
    rw [List.length_append, Nat.add_sub_cancel_left]
    exact hle
  rw [insertInPlace]
  simp only [Option.bind_eq_bind, h.lay.beginPtr, h.lay.getSize, h.lay.endPtr, Option.bind_some]
  rw [if_pos hbehind, Source.length, hend, hpast, ← hys, ht, Option.bind_some, hys, hsize, hset,
    Option.bind_some, plus_begin, hcount]
  exact hs₂

/-- More characters than there are behind the place: the last of the new ones are put behind the
text first. -/
theorem insertInPlace_many (h : Rep s b cap (l₁ ++ l₂)) (hlt : l₂.length < cs.length)
    (hroom : (l₁ ++ l₂).length + cs.length ≤ cap) :
    ∃ s', s.insertInPlace l₁.length (.chars cs) = some s' ∧ Rep s' b cap (l₁ ++ (cs ++ l₂)) := by
  obtain ⟨ds, ys, rfl, hds⟩ : ∃ ds ys, cs = ds ++ ys ∧ ds.length = l₂.length + 1 :=
    ⟨_, _, (List.take_append_drop (l₂.length + 1) cs).symm, List.length_take_of_le hlt⟩
  have hlen : (l₁ ++ l₂).length = l₁.length + l₂.length := List.length_append
  have hcs : (ds ++ ys).length = l₂.length + 1 + ys.length := by rw [List.length_append, hds]
  let s₁ : BasicString := Storage.put s ⟨b, ((l₁ ++ l₂) ++ [0]).length⟩ (ys.map .byte)
  have hlen₀ : ((l₁ ++ l₂) ++ [(0 : UInt8)]).length = l₁.length + l₂.length + 1 := by
    rw [List.length_append, hlen, List.length_singleton]
  have hlen₁ : ((l₁ ++ l₂) ++ [0] ++ ys).length = l₁.length + l₂.length + 1 + ys.length := by
    rw [List.length_append, hlen₀]
  have hcopy₁ : s.copyTo (.chars ys) ⟨b, ((l₁ ++ l₂) ++ [0]).length⟩ = some s₁ :=
    copyTo_eq (Source.reads_chars ys) (h.lay.liveRun (by omega))
  have hrow₁ : s₁.Row ⟨b, 0⟩ (((l₁ ++ l₂) ++ [0] ++ ys).map .byte) :=
    row_cat (row_text.mp h.row) ys
  have hlay₁ : Lay s₁ b cap (l₁ ++ l₂).length := h.lay.put_inside _ (by
    rw [List.length_map]
    omega)
  -- the size counts the new text, behind which there is no `0` yet
  obtain ⟨s₂, hs₂, hlay₂, hsize₂, hnext₂, hkeep₂, -⟩ :=
    hlay₁.setSize (m := ((l₁ ++ l₂) ++ [0] ++ ys).length) (by omega)
  have hrow₂ := hkeep₂ _ (by rw [List.length_map]; omega) hrow₁
  have hreads₂ : (Source.own ⟨b, l₁.length⟩ (l₂ ++ [0]).length).Reads s₂ (l₂ ++ [0]) := by
    refine hlay₂.own_reads _ _ ys ?_ ?_
    · simpa only [List.append_assoc] using hrow₂
    · rw [List.length_append, List.length_singleton]
      omega
  obtain ⟨s₃, hs₃, h₃⟩ := hlay₂.extend (fun c hc hcb => (congrFun hsize₂ c).trans (h.only c hc hcb))
    (h.next.trans_eq hnext₂.symm) hrow₂ hreads₂ (by
      rw [List.length_append, hlen₁]
      omega)
  have htext₃ : (l₁ ++ l₂) ++ [0] ++ ys ++ l₂ = l₁ ++ ((l₂ ++ [0]) ++ (ys ++ l₂)) := by
    simp only [List.append_assoc]
  rw [htext₃] at h₃
  have hover : ds.length = (l₂ ++ [(0 : UInt8)]).length := by
    rw [hds, List.length_append, List.length_singleton]
  have hcopy₄ := h₃.copyTo_over (Source.reads_chars ds) hover
  refine ⟨_, ?_, by simpa only [List.append_assoc] using h₃.over ds hover⟩
  obtain ⟨t, ht, hset⟩ := Option.bind_eq_some_iff.mp hs₃
  have hlen₃ : ((l₁ ++ l₂) ++ [0] ++ ys ++ l₂).length =
      ((l₁ ++ l₂) ++ [0] ++ ys).length + l₂.length := List.length_append
  have hpast : (⟨b, (l₁ ++ l₂).length⟩ : Ptr).plus 1 = ⟨b, ((l₁ ++ l₂) ++ [0]).length⟩ :=
    plus_length (j := 1) (by simp only [List.length_append, List.length_singleton])
  have hafter : (l₁ ++ l₂).length - l₁.length = l₂.length := by omega
  have hsize : (l₁ ++ l₂).length + ((ds ++ ys).length - l₂.length) =
      ((l₁ ++ l₂) ++ [0] ++ ys).length := by omega
  have hl₂ : l₂.length + 1 = (l₂ ++ [(0 : UInt8)]).length := hds.symm.trans hover
  rw [insertInPlace]
  simp only [Option.bind_eq_bind, h.lay.beginPtr, h.lay.getSize, h.lay.endPtr, Option.bind_some,
    Source.length, hafter]
  rw [if_neg (by omega), Source.drop, Source.take, hpast, List.drop_left' hds, List.take_left' hds,
    hcopy₁, Option.bind_some, hsize, hs₂, Option.bind_some, hlay₂.getSize, Option.bind_some,
    hlay₂.endPtr, Option.bind_some, plus_begin, hl₂, ht, Option.bind_some, ← hlen₃, hset,
    Option.bind_some]
  exact hcopy₄

/-! ## A new block -/

theorem intoNewBlock_rep (l₂ : List UInt8) (h : Rep s b cap (l₁ ++ (l₂ ++ l₃)))
    (hsrc : src.Is b (l₁ ++ (l₂ ++ l₃)) cs) (hk : 1 < k) (hk' : k < 2 ^ 63)
    (hfit : (l₁ ++ (cs ++ l₃)).length ≤ k) :
    ∃ s', s.intoNewBlock l₁.length (l₁.length + l₂.length) src k = some s' ∧
      Rep s' s.next k (l₁ ++ (cs ++ l₃)) := by
  have hfit' : l₁.length + cs.length + l₃.length ≤ k := by
    simpa only [List.length_append, Nat.add_assoc] using hfit
  have hlen : (l₁ ++ (l₂ ++ l₃)).length = l₁.length + l₂.length + l₃.length := by
    simp only [List.length_append, Nat.add_assoc]
  have hle := h.lay.n_le
  obtain ⟨h0, hb⟩ := h.next_ne
  let t₀ : BasicString := (s.doAllocate (k + 1)).1
  have hlay₀ : Lay t₀ b cap (l₁ ++ (l₂ ++ l₃)).length := h.lay_alloc (k + 1)
  have hrow₀ : t₀.Row ⟨b, 0⟩ ((l₁ ++ (l₂ ++ l₃)).map .byte) := h.row_alloc (k + 1)
  have hlive : ∀ i m, i + m ≤ k + 1 → t₀.LiveRun ⟨s.next, (i : ℕ)⟩ m :=
    fun _ _ hi => liveRun_alloc hi
  -- the string stays what it is while the new block fills
  let t₁ : BasicString := t₀.put ⟨s.next, 0⟩ (l₁.map .byte)
  let t₂ : BasicString := t₁.put ⟨s.next, l₁.length⟩ (cs.map .byte)
  let t₃ : BasicString := t₂.put ⟨s.next, (l₁ ++ cs).length⟩ (l₃.map .byte)
  have hlay₁ : Lay t₁ b cap (l₁ ++ (l₂ ++ l₃)).length := hlay₀.put_other h0
  have hlay₂ : Lay t₂ b cap (l₁ ++ (l₂ ++ l₃)).length := hlay₁.put_other h0
  have hrow₁ : t₁.Row ⟨b, 0⟩ ((l₁ ++ (l₂ ++ l₃)).map .byte) := hrow₀.put_base hb.symm
  have hrow₂ : t₂.Row ⟨b, 0⟩ ((l₁ ++ (l₂ ++ l₃)).map .byte) := hrow₁.put_base hb.symm
  have hreads₀ : (Source.own ⟨b, 0⟩ l₁.length).Reads t₀ l₁ :=
    hlay₀.own_reads [] _ _ hrow₀ (by rw [List.length_nil]; omega)
  have hreads₂ : (Source.own ⟨b, (l₁ ++ l₂).length⟩ l₃.length).Reads t₂ l₃ := by
    refine hlay₂.own_reads _ _ [] ?_ ?_
    · simpa only [List.append_assoc, List.append_nil] using hrow₂
    · rw [List.length_append]
      omega
  have hcopy₀ : t₀.copyTo (.own ⟨b, 0⟩ l₁.length) ⟨s.next, 0⟩ = some t₁ :=
    copyTo_eq hreads₀ (hlive 0 _ (by omega))
  have hcopy₁ : t₁.copyTo src ⟨s.next, l₁.length⟩ = some t₂ :=
    copyTo_eq (hsrc.reads hlay₁ hrow₁ hle) (hlive _ _ (by omega))
  have hcopy₂ : t₂.copyTo (.own ⟨b, (l₁ ++ l₂).length⟩ l₃.length) ⟨s.next, (l₁ ++ cs).length⟩ =
      some t₃ := copyTo_eq hreads₂ (hlive _ _ (by rw [List.length_append]; omega))
  have hrow₃ : t₃.Row ⟨s.next, 0⟩ ((l₁ ++ (cs ++ l₃)).map .byte) := by
    rw [← List.append_assoc]
    exact row_cat (row_cat Storage.row_put cs) l₃
  obtain ⟨s', hs', hrep⟩ := h.move (hlay₂.put_other h0) rfl rfl hrow₃ hk hk' hfit
  refine ⟨s', ?_, hrep⟩
  have hsrclen : src.length = cs.length := (hsrc.reads hlay₁ hrow₁ hle).length
  have hrest : (l₁ ++ (l₂ ++ l₃)).length - (l₁.length + l₂.length) = l₃.length := by omega
  have hcs : l₁.length + cs.length = (l₁ ++ cs).length := List.length_append.symm
  have htotal : (l₁ ++ cs).length + l₃.length = (l₁ ++ (cs ++ l₃)).length := by
    rw [← List.append_assoc]
    exact List.length_append.symm
  have hskip : l₁.length + l₂.length = (l₁ ++ l₂).length := List.length_append.symm
  rw [intoNewBlock]
  simp only [Option.bind_eq_bind, h.lay.beginPtr, h.lay.getSize, Option.bind_some, doAllocate_snd,
    hrest, hsrclen, hcs, htotal, plus_begin]
  rw [hcopy₀, Option.bind_some, hcopy₁, Option.bind_some, hskip, hcopy₂, Option.bind_some]
  exact hs'

/-! ## The insertions -/

/-- **Characters from elsewhere are inserted.** -/
theorem insertChars_rep (h : Rep s b cap (l₁ ++ l₂)) (cs : List UInt8)
    (hfit : (l₁ ++ (cs ++ l₂)).length < 2 ^ 62) :
    ∃ s' b' cap', s.insertChars l₁.length cs = some s' ∧ Rep s' b' cap' (l₁ ++ (cs ++ l₂)) ∧
      Grows cap cap' (l₁ ++ (cs ++ l₂)).length := by
  have hle := h.lay.n_le
  have hcap := h.lay.one_lt_cap
  have hlen : (l₁ ++ (cs ++ l₂)).length = (l₁ ++ l₂).length + cs.length := by
    simp only [List.length_append]
    omega
  rw [insertChars, h.lay.getSize, h.lay.capacity]
  simp only [Option.bind_eq_bind, Option.bind_some]
  split_ifs with h0 hroom
  · obtain rfl := List.length_eq_zero_iff.mp h0
    exact ⟨s, b, cap, rfl, h, .refl ..⟩
  · by_cases hfew : cs.length ≤ l₂.length
    · obtain ⟨s', hs', hrep⟩ := insertInPlace_few h h0 hfew (by omega)
      exact ⟨s', b, cap, hs', hrep, .refl ..⟩
    · obtain ⟨s', hs', hrep⟩ := insertInPlace_many h (Nat.lt_of_not_le hfew) (by omega)
      exact ⟨s', b, cap, hs', hrep, .refl ..⟩
  · have hover : cap < (l₁ ++ l₂).length + cs.length := by omega
    have hnew := newCapacity_eq hover
    obtain ⟨s', hs', hrep⟩ := intoNewBlock_rep [] h (.chars cs)
      (k := max ((l₁ ++ l₂).length + cs.length) (2 * cap)) (by omega) (by omega) (by
        rw [hlen]
        exact le_max_left ..)
    refine ⟨s', _, _, ?_, hrep, by omega, by omega⟩
    rw [hnew, ← hs', List.length_nil, Nat.add_zero]

/-- The capacity after `n` characters of a string of `m` are inserted into it: a block with room for
them is replaced by one without any other. -/
def OwnGrows (b cap b' cap' m n : ℕ) : Prop :=
  if b ≠ 0 ∧ n ≠ 0 ∧ m + n ≤ cap then b' ≠ 0 ∧ cap' = m + n else Grows cap cap' (m + n)

/-- **A part of the string itself is inserted.** -/
theorem insertOwn_rep (h : Rep s b cap (l₁ ++ l₂)) (hk : k + n ≤ (l₁ ++ l₂).length)
    (hfit : (l₁ ++ l₂).length + n < 2 ^ 62) :
    ∃ s' b' cap', s.insertOwn l₁.length k n = some s' ∧
      Rep s' b' cap' (l₁ ++ (((l₁ ++ l₂).drop k).take n ++ l₂)) ∧
      OwnGrows b cap b' cap' (l₁ ++ l₂).length n := by
  have hle := h.lay.n_le
  have hcap := h.lay.one_lt_cap
  have hcs : (((l₁ ++ l₂).drop k).take n).length = n := by
    rw [List.length_take, List.length_drop]
    omega
  have hlen : (l₁ ++ (((l₁ ++ l₂).drop k).take n ++ l₂)).length = (l₁ ++ l₂).length + n := by
    simp only [List.length_append] at hcs ⊢
    omega
  by_cases h0 : n = 0
  · subst h0
    refine ⟨s, b, cap, if_pos rfl, ?_, ?_⟩
    · rwa [List.take_zero, List.nil_append]
    · rw [OwnGrows, if_neg (by simp)]
      exact .refl ..
  rw [insertOwn, if_neg h0, h.lay.beginPtr, h.lay.isHeap]
  simp only [Option.bind_eq_bind, Option.bind_some, plus_begin, decide_eq_true_eq, h.lay.getSize,
    h.lay.capacity]
  have hsrc := Source.Is.own (b := b) k n hk
  by_cases hb : b = 0
  · have hreads : s.readChars ⟨b, k⟩ n = some (((l₁ ++ l₂).drop k).take n) :=
      readChars_of_reads (hsrc.reads h.lay h.row.left hle)
    obtain ⟨temp, bt, htemp, hrept⟩ := rangeInitialize_rep (((l₁ ++ l₂).drop k).take n) (by omega)
    obtain ⟨s', b', cap', hs', hrep, hgrows⟩ :=
      insertChars_rep h (((l₁ ++ l₂).drop k).take n) (by omega)
    refine ⟨s', b', cap', ?_, hrep, ?_⟩
    · rw [if_neg (not_not.mpr hb), hreads, Option.bind_some, htemp, Option.bind_some,
        hrept.contents, Option.bind_some]
      exact hs'
    · rw [OwnGrows, if_neg (fun hno => hno.1 hb), ← hlen]
      exact hgrows
  · rw [if_pos hb]
    by_cases hroom : n ≤ cap - (l₁ ++ l₂).length
    · obtain ⟨s', hs', hrep⟩ := intoNewBlock_rep [] h hsrc
        (k := (l₁ ++ l₂).length + n) (by omega) (by omega) hlen.le
      refine ⟨s', _, _, ?_, hrep, ?_⟩
      · rw [if_pos hroom, ← hs', List.length_nil, Nat.add_zero]
      · rw [OwnGrows, if_pos ⟨hb, h0, by omega⟩]
        exact ⟨h.next_ne.1, rfl⟩
    · have hover : cap < (l₁ ++ l₂).length + n := by omega
      have hnew := newCapacity_eq hover
      obtain ⟨s', hs', hrep⟩ := intoNewBlock_rep [] h hsrc
        (k := max ((l₁ ++ l₂).length + n) (2 * cap)) (by omega) (by omega) (by omega)
      refine ⟨s', _, _, ?_, hrep, ?_⟩
      · rw [if_neg hroom, hnew, ← hs', List.length_nil, Nat.add_zero]
      · rw [OwnGrows, if_neg (by omega)]
        exact ⟨by omega, by omega⟩

/-! ## A block that is smaller than the object -/

/-- A long string is cut to `m` characters, `n` of them from `k` on are inserted at `i`, and one
more is pushed. -/
def cutInsertPush (cs : List UInt8) (m i k n : ℕ) (c : UInt8) : Option BasicString := do
  let s ← rangeInitialize cs
  let s ← s.resize m 0
  let s ← s.insertOwn i k n
  s.pushBack c

theorem Lay.ne_zero (h : Lay s b cap n) (hcap : 23 < cap) : b ≠ 0 := fun hb =>
  hcap.ne' (Lay.cap_sso (hb ▸ h))

/-- **After up to 11 characters, one of them inserted, pushing another one is undefined**: the
insertion leaves a full block that is smaller than the object. In all other cases the string holds
what it should. -/
theorem cutInsertPush_iff (cs : List UInt8) {m i : ℕ} (hcs : 23 < cs.length)
    (hfit : cs.length < 2 ^ 60) (hm : m ≤ cs.length) (hi : i ≤ m) (hk : k + n ≤ m) (c : UInt8) :
    if n ≠ 0 ∧ m + n ≤ 11 then cutInsertPush cs m i k n c = none
    else ∃ s b cap, cutInsertPush cs m i k n c = some s ∧
      Rep s b cap ((cs.take m).take i ++ (((cs.take m).drop k).take n ++ (cs.take m).drop i) ++
        [c]) := by
  obtain ⟨s₁, b₁, hs₁, h₁⟩ := rangeInitialize_rep cs (by omega)
  have hroomy : ¬ Cramped b₁ (max 23 cs.length) m := fun hno => by
    have := hno.2.1
    omega
  obtain ⟨s₂, b₂, cap₂, hs₂, h₂, hge₂, -⟩ := resize_rep h₁ m 0 (by omega) hroomy
  rw [Nat.sub_eq_zero_of_le hm, List.replicate_zero, List.append_nil] at h₂
  have hl : (cs.take m).length = m := List.length_take_of_le hm
  have hi' : ((cs.take m).take i).length = i := List.length_take_of_le (by rwa [hl])
  rw [← List.take_append_drop i (cs.take m)] at h₂
  obtain ⟨s₃, b₃, cap₃, hs₃, h₃, hcap₃⟩ := insertOwn_rep h₂ (k := k) (n := n)
    (by rw [List.take_append_drop, hl]; exact hk) (by rw [List.take_append_drop, hl]; omega)
  rw [List.take_append_drop, hl, OwnGrows] at hcap₃
  rw [List.take_append_drop, hi'] at *
  generalize hl₃ : (cs.take m).take i ++ (((cs.take m).drop k).take n ++ (cs.take m).drop i) = l₃
    at *
  have hlen₃ : l₃.length = m + n := by
    rw [← hl₃]
    simp only [List.length_append, List.length_take, List.length_drop]
    omega
  have hb₂ : b₂ ≠ 0 := h₂.lay.ne_zero (by omega)
  have hprog : cutInsertPush cs m i k n c = s₃.appendN 1 c := by
    rw [cutInsertPush, hs₁]
    simp only [Option.bind_eq_bind, Option.bind_some, hs₂, hs₃, pushBack]
  have hpush := appendN_iff h₃ 1 c (by omega)
  have hcramped : Cramped b₃ cap₃ (l₃.length + 1) ↔ n ≠ 0 ∧ m + n ≤ 11 := by
    rw [Cramped, hlen₃]
    split_ifs at hcap₃ with hc
    · obtain ⟨hb₃, rfl⟩ := hcap₃
      omega
    · obtain ⟨hge₃, -⟩ := hcap₃
      omega
  rw [hprog]
  by_cases hbad : n ≠ 0 ∧ m + n ≤ 11
  · rw [if_pos (hcramped.mpr hbad)] at hpush
    rwa [if_pos hbad]
  · rw [if_neg (fun hno => hbad (hcramped.mp hno))] at hpush
    rw [if_neg hbad]
    exact hpush

theorem cutInsertPush_none : cutInsertPush (List.replicate 24 97) 5 0 0 3 98 = none :=
  cutInsertPush_iff (List.replicate 24 97) (m := 5) (i := 0) (k := 0) (n := 3) (by decide)
    (by decide) (by decide) (by decide) (by decide) 98

end Dpp.BasicString
