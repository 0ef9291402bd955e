import Dpp.String.Insert

/-!
# Replacement

* `insertChar_rep`: one character is inserted by steps of its own.
* `replaceChars_rep`: characters from elsewhere in place of some of the string.
* `replaceOwn_fewer`, `replaceOwn_apart`, `replaceOwn_overlap`: a part of the string itself in
  place of another one; where the two overlap and the string grows, always in a new block.
* **`rounds_capacity`**: a string that keeps its characters can double its capacity in each round
  of such replacements.
-/

namespace Dpp.BasicString

open Lib

variable {s s' t : BasicString} {b cap n k i j : ℕ} {l l₁ l₂ l₃ cs : List UInt8} {src : Source}

/-! ## One character -/

/-- One more character, where there is room: the `0` is written before the size says so. -/
theorem insertInternal_inPlace (h : Rep s b cap (l₁ ++ l₂)) (c : UInt8)
    (hroom : (l₁ ++ l₂).length + 1 ≤ cap) :
    ∃ s', s.insertInternal l₁.length c = some s' ∧ Rep s' b cap (l₁ ++ ([c] ++ l₂)) := by
  have hlen : (l₁ ++ l₂).length = l₁.length + l₂.length := List.length_append
  have hlen' : (l₁ ++ ([c] ++ l₂)).length = (l₁ ++ l₂).length + 1 := by
    simp only [List.length_append, List.length_singleton]
    omega
  have hrest : (l₁ ++ l₂).length - l₁.length = l₂.length := by omega
  obtain ⟨x, ys, hxs⟩ : ∃ x ys, l₂ ++ [0] = x :: ys := List.exists_cons_of_ne_nil (by simp)
  have hys : l₂.length = ys.length := by
    have := congrArg List.length hxs
    simpa using this
  have htext : s.Row ⟨b, 0⟩ (((l₁ ++ [x]) ++ (ys ++ [])).map .byte) := by
    have := row_text.mp h.row
    rw [List.append_assoc, hxs] at this
    simpa using this
  have hreads : (Source.own ⟨b, l₁.length⟩ l₂.length).Reads s l₂ := by
    refine h.lay.own_reads _ _ [0] ?_ (by omega)
    simpa only [List.append_assoc] using row_text.mp h.row
  have hup : (⟨b, l₁.length⟩ : Ptr).plus 1 = ⟨b, (l₁ ++ [x]).length⟩ :=
    plus_length (j := 1) (by rw [List.length_append, List.length_singleton])
  let s₁ : BasicString := Storage.put s ⟨b, (l₁ ++ [x]).length⟩ (l₂.map .byte)
  have hl₁ : (l₁ ++ [x]).length = l₁.length + 1 := List.length_append
  have hcopy : s.copyTo (.own ⟨b, l₁.length⟩ l₂.length) ⟨b, (l₁ ++ [x]).length⟩ = some s₁ :=
    copyTo_eq hreads (h.lay.liveRun (by omega))
  have hlay₁ : Lay s₁ b cap (l₁ ++ l₂).length := h.lay.put_inside _ (by
    rw [List.length_map]
    omega)
  have hrow₁ : s₁.Row ⟨b, 0⟩ (((l₁ ++ [x]) ++ (l₂ ++ [])).map .byte) := row_over htext hys
  rw [List.append_nil] at hrow₁
  have hlen₁ : ((l₁ ++ [x]) ++ l₂).length = (l₁ ++ l₂).length + 1 := by
    rw [List.length_append, hl₁]
    omega
  let s₂ : BasicString := Storage.put s₁ ⟨b, ((l₁ ++ [x]) ++ l₂).length⟩ [.byte 0]
  have hpast : (⟨b, (l₁ ++ l₂).length⟩ : Ptr).plus 1 = ⟨b, ((l₁ ++ [x]) ++ l₂).length⟩ :=
    plus_length (j := 1) hlen₁.symm
  have hnul : s₁.writeChar ⟨b, ((l₁ ++ [x]) ++ l₂).length⟩ 0 = some s₂ :=
    hlay₁.writeChar (by omega) 0
  obtain ⟨m, hlay₂, -⟩ := hlay₁.put_nul (k := ((l₁ ++ [x]) ++ l₂).length) (by omega)
  have hrow₂ : s₂.Row ⟨b, 0⟩ ((l₁ ++ ([x] ++ (l₂ ++ [0]))).map .byte) := by
    have happend : l₁ ++ ([x] ++ (l₂ ++ [0])) = ((l₁ ++ [x]) ++ l₂) ++ [0] := by
      simp only [List.append_assoc]
    rw [happend]
    exact row_text.mp (row_nul hrow₁)
  let s₃ : BasicString := Storage.put s₂ ⟨b, l₁.length⟩ ([c].map .byte)
  have hchar : s₂.writeChar ⟨b, l₁.length⟩ c = some s₃ := hlay₂.writeChar (by omega) c
  have hlay₃ : Lay s₃ b cap m := hlay₂.put_inside _ (by
    rw [List.length_map, List.length_singleton]
    omega)
  have hrow₃ : s₃.Row ⟨b, 0⟩ (((l₁ ++ ([c] ++ l₂)) ++ [0]).map .byte) := by
    have hover : ([c] : List UInt8).length = [x].length := rfl
    simpa only [List.append_assoc] using row_over hrow₂ hover
  obtain ⟨s', hs', hrep⟩ := hlay₃.sized h.only h.next hrow₃ (by omega)
  refine ⟨s', ?_, hrep⟩
  rw [insertInternal]
  simp only [Option.bind_eq_bind, h.lay.getSize, h.lay.capacity, h.lay.beginPtr, Option.bind_some,
    plus_begin, hrest]
  rw [if_pos hroom, hup, hcopy, Option.bind_some, hlay₁.endPtr, Option.bind_some, hpast, hnul,
    Option.bind_some, hchar, Option.bind_some, ← hlen']
  exact hs'

theorem insertInternal_rep (h : Rep s b cap (l₁ ++ l₂)) (c : UInt8)
    (hfit : (l₁ ++ l₂).length < 2 ^ 61) :
    ∃ s' b' cap', s.insertInternal l₁.length c = some s' ∧ Rep s' b' cap' (l₁ ++ ([c] ++ l₂)) ∧
      Grows cap cap' (l₁ ++ ([c] ++ l₂)).length := by
  have hle := h.lay.n_le
  have hcap := h.lay.one_lt_cap
  have hlen' : (l₁ ++ ([c] ++ l₂)).length = (l₁ ++ l₂).length + 1 := by
    simp only [List.length_append, List.length_singleton]
    omega
  by_cases hroom : (l₁ ++ l₂).length + 1 ≤ cap
  · obtain ⟨s', hs', hrep⟩ := insertInternal_inPlace h c hroom
    exact ⟨s', b, cap, hs', hrep, .refl ..⟩
  · have hfull : cap = (l₁ ++ l₂).length := by omega
    obtain ⟨s', hs', hrep⟩ := intoNewBlock_rep [] h (.chars [c]) (k := getNewCapacity cap 1)
      (by rw [getNewCapacity]; omega) (by rw [getNewCapacity]; omega) (by
        rw [hlen', getNewCapacity]
        omega)
    refine ⟨s', _, _, ?_, hrep, ?_, ?_⟩
    · rw [insertInternal]
      simp only [Option.bind_eq_bind, h.lay.getSize, h.lay.capacity, h.lay.beginPtr,
        Option.bind_some]
      rw [if_neg hroom]
      exact hs'
    · rw [getNewCapacity]
      omega
    · rw [getNewCapacity]
      omega

theorem insertChar_rep (h : Rep s b cap (l₁ ++ l₂)) (c : UInt8)
    (hfit : (l₁ ++ l₂).length < 2 ^ 61) (hok : ¬ Cramped b cap ((l₁ ++ l₂).length + 1)) :
    ∃ s' b' cap', s.insertChar l₁.length c = some s' ∧ Rep s' b' cap' (l₁ ++ ([c] ++ l₂)) ∧
      Grows cap cap' (l₁ ++ ([c] ++ l₂)).length := by
  rw [insertChar, h.lay.getSize]
  simp only [Option.bind_eq_bind, Option.bind_some]
  split_ifs with hend
  · obtain rfl : l₂ = [] := by
      rw [List.length_append] at hend
      exact List.length_eq_zero_iff.mp (by omega)
    rw [List.append_nil] at h hfit hok
    obtain ⟨s', b', cap', hs', hrep, hg⟩ := appendN_rep h 1 c (by omega) hok
    refine ⟨s', b', cap', hs', hrep, ?_⟩
    rwa [List.append_nil, List.length_append]
  · exact insertInternal_rep h c hfit

/-! ## Characters for others -/

/-- No more characters than they replace: the rest is erased. -/
theorem replace_fewer (h : Rep s b cap (l₁ ++ (l₂ ++ l₃))) (hsrc : src.Reads s cs)
    (hle : cs.length ≤ l₂.length) :
    ∃ s', ((s.copyTo src ⟨b, l₁.length⟩).bind fun s =>
        s.erase (l₁.length + cs.length) (l₁.length + l₂.length)) = some s' ∧
      Rep s' b cap (l₁ ++ (cs ++ l₃)) := by
  obtain ⟨xs, ys, rfl, hxs⟩ : ∃ xs ys, l₂ = xs ++ ys ∧ cs.length = xs.length :=
    ⟨_, _, (List.take_append_drop cs.length l₂).symm, (List.length_take_of_le hle).symm⟩
  rw [List.append_assoc] at h
  have hrep := h.over cs hxs
  rw [← List.append_assoc] at hrep
  obtain ⟨s', hs', hrep'⟩ := erase_rep hrep
  refine ⟨s', ?_, by rwa [List.append_assoc] at hrep'⟩
  rw [h.copyTo_over hsrc hxs, Option.bind_some, ← hs']
  refine congrArg₂ (BasicString.erase _) List.length_append.symm ?_
  simp only [List.length_append]
  omega

/-- **Characters from elsewhere in place of some of the string.** -/
theorem replaceChars_rep (h : Rep s b cap (l₁ ++ (l₂ ++ l₃))) (cs : List UInt8)
    (hfit : (l₁ ++ (cs ++ l₃)).length < 2 ^ 62) :
    ∃ s' b' cap', s.replaceChars l₁.length (l₁.length + l₂.length) cs = some s' ∧
      Rep s' b' cap' (l₁ ++ (cs ++ l₃)) ∧ Grows cap cap' (l₁ ++ (cs ++ l₃)).length := by
  rw [replaceChars, h.lay.beginPtr]
  simp only [Option.bind_eq_bind, Option.bind_some, plus_begin, Nat.add_sub_cancel_left]
  split_ifs with hle
  · obtain ⟨s', hs', hrep⟩ := replace_fewer h (Source.reads_chars cs) hle
    exact ⟨s', b, cap, hs', hrep, .refl ..⟩
  · obtain ⟨xs, ys, rfl, hxs⟩ : ∃ xs ys, cs = xs ++ ys ∧ xs.length = l₂.length :=
      ⟨_, _, (List.take_append_drop l₂.length cs).symm, List.length_take_of_le (by omega)⟩
    have hrep := h.over xs hxs
    have hshape : l₁ ++ (xs ++ ys ++ l₃) = (l₁ ++ xs) ++ (ys ++ l₃) := by
      simp only [List.append_assoc]
    rw [← List.append_assoc] at hrep
    rw [hshape] at hfit ⊢
    obtain ⟨s', b', cap', hs', hrep', hg⟩ := insertChars_rep hrep ys hfit
    refine ⟨s', b', cap', ?_, hrep', hg⟩
    rw [List.take_left' hxs, List.drop_left' hxs, h.copyTo_over (Source.reads_chars xs) hxs,
      Option.bind_some, ← hs', List.length_append, hxs]

/-! ## A part of the string for another -/

theorem replaceOwn_fewer (h : Rep s b cap (l₁ ++ (l₂ ++ l₃)))
    (hk : k + n ≤ (l₁ ++ (l₂ ++ l₃)).length) (hle : n ≤ l₂.length) :
    ∃ s', s.replaceOwn l₁.length (l₁.length + l₂.length) k n = some s' ∧
      Rep s' b cap (l₁ ++ (((l₁ ++ (l₂ ++ l₃)).drop k).take n ++ l₃)) := by
  have hcs : (((l₁ ++ (l₂ ++ l₃)).drop k).take n).length = n := by
    rw [List.length_take, List.length_drop]
    omega
  have hreads := (Source.Is.own (b := b) k n hk).reads h.lay h.row.left h.lay.n_le
  obtain ⟨s', hs', hrep⟩ := replace_fewer h hreads (by omega)
  refine ⟨s', ?_, hrep⟩
  rw [replaceOwn, h.lay.beginPtr]
  simp only [Option.bind_eq_bind, Option.bind_some, plus_begin, Nat.add_sub_cancel_left]
  rw [if_pos hle, ← hs', hcs]

/-- A range before or behind what is replaced is the same after the first copy. -/
theorem apart_eq {xs : List UInt8} (hxs : xs.length = l₂.length)
    (hk : k + n ≤ (l₁ ++ (l₂ ++ l₃)).length) (hn : l₂.length ≤ n)
    (hapart : l₁.length + l₂.length ≤ k ∨ k + n ≤ l₁.length) :
    ((l₁ ++ (xs ++ l₃)).drop (k + l₂.length)).take (n - l₂.length) =
      (((l₁ ++ (l₂ ++ l₃)).drop k).take n).drop l₂.length := by
  rw [List.drop_take, List.drop_drop]
  rcases hapart with hbehind | hbefore
  · obtain ⟨d, rfl⟩ := Nat.exists_eq_add_of_le hbehind
    have hdrop : ∀ ys : List UInt8, ys.length = l₂.length → (l₁ ++ (ys ++ l₃)).drop
        (l₁.length + l₂.length + d + l₂.length) = l₃.drop (d + l₂.length) := by
      intro ys hys
      rw [← List.append_assoc, show l₁.length + l₂.length + d + l₂.length =
        (l₁ ++ ys).length + (d + l₂.length) by rw [List.length_append, hys]; omega,
        List.drop_append]
      simp
    rw [hdrop xs hxs, hdrop l₂ rfl]
  · rw [List.drop_append_of_le_length (by omega), List.drop_append_of_le_length (by omega),
      List.take_append_of_le_length (by rw [List.length_drop]; omega),
      List.take_append_of_le_length (by rw [List.length_drop]; omega)]

/-- More characters than they replace, from before or from behind: the rest is inserted. -/
theorem replaceOwn_apart (h : Rep s b cap (l₁ ++ (l₂ ++ l₃)))
    (hk : k + n ≤ (l₁ ++ (l₂ ++ l₃)).length) (hlt : l₂.length < n)
    (hapart : l₁.length + l₂.length < k ∨ k + n ≤ l₁.length)
    (hfit : (l₁ ++ (l₂ ++ l₃)).length + n < 2 ^ 62) :
    ∃ s' b' cap', s.replaceOwn l₁.length (l₁.length + l₂.length) k n = some s' ∧
      Rep s' b' cap' (l₁ ++ (((l₁ ++ (l₂ ++ l₃)).drop k).take n ++ l₃)) ∧
      OwnGrows b cap b' cap' (l₁ ++ (l₂ ++ l₃)).length (n - l₂.length) := by
  have hcs : (((l₁ ++ (l₂ ++ l₃)).drop k).take n).length = n := by
    rw [List.length_take, List.length_drop]
    omega
  obtain ⟨xs, ys, hsplit, hxs⟩ : ∃ xs ys,
      ((l₁ ++ (l₂ ++ l₃)).drop k).take n = xs ++ ys ∧ xs.length = l₂.length :=
    ⟨_, _, (List.take_append_drop l₂.length _).symm, List.length_take_of_le (by omega)⟩
  -- the first copy reads as many characters as it replaces
  have hfirst : ((l₁ ++ (l₂ ++ l₃)).drop k).take l₂.length = xs := by
    have := congrArg (List.take l₂.length) hsplit
    rwa [List.take_take, Nat.min_eq_left hlt.le, List.take_left' hxs] at this
  have hreads : (Source.own ⟨b, k⟩ l₂.length).Reads s xs := by
    rw [← hfirst]
    exact (Source.Is.own (b := b) k l₂.length (by omega)).reads h.lay h.row.left h.lay.n_le
  have hrep := h.over xs hxs
  have hsame : (l₁ ++ (xs ++ l₃)).length = (l₁ ++ (l₂ ++ l₃)).length := by
    simp only [List.length_append, hxs]
  have hrest : ((l₁ ++ xs ++ l₃).drop (k + l₂.length)).take (n - l₂.length) = ys := by
    rw [List.append_assoc, apart_eq hxs hk hlt.le (hapart.imp_left Nat.le_of_lt), hsplit,
      List.drop_left' hxs]
  rw [← List.append_assoc] at hrep
  obtain ⟨s', b', cap', hs', hrep', hg⟩ := insertOwn_rep hrep (k := k + l₂.length)
    (n := n - l₂.length) (by rw [List.append_assoc, hsame]; omega)
    (by rw [List.append_assoc, hsame]; omega)
  rw [List.append_assoc, hsame] at hg
  rw [hrest, List.append_assoc, ← List.append_assoc xs, ← hsplit] at hrep'
  refine ⟨s', b', cap', ?_, hrep', hg⟩
  rw [replaceOwn, h.lay.beginPtr]
  simp only [Option.bind_eq_bind, Option.bind_some, plus_begin, Nat.add_sub_cancel_left]
  rw [if_neg (by omega), if_pos hapart, h.copyTo_over hreads hxs, Option.bind_some, ← hs',
    List.length_append, hxs]

/-- More characters than they replace, some of which they replace: a new block of at least twice
the capacity, even if there is room. -/
theorem replaceOwn_overlap (h : Rep s b cap (l₁ ++ (l₂ ++ l₃)))
    (hk : k + n ≤ (l₁ ++ (l₂ ++ l₃)).length) (hlt : l₂.length < n)
    (hover : ¬ (l₁.length + l₂.length < k ∨ k + n ≤ l₁.length)) (hcap : 2 * cap < 2 ^ 63)
    (hfit : (l₁ ++ (l₂ ++ l₃)).length + n < 2 ^ 63) :
    ∃ s' b' cap', s.replaceOwn l₁.length (l₁.length + l₂.length) k n = some s' ∧
      Rep s' b' cap' (l₁ ++ (((l₁ ++ (l₂ ++ l₃)).drop k).take n ++ l₃)) ∧
      cap' = max ((l₁ ++ (l₂ ++ l₃)).length + (n - l₂.length)) (2 * cap) := by
  have h1 := h.lay.one_lt_cap
  have hcs : (((l₁ ++ (l₂ ++ l₃)).drop k).take n).length = n := by
    rw [List.length_take, List.length_drop]
    omega
  have hnew : getNewCapacity cap ((l₁ ++ (l₂ ++ l₃)).length + (n - l₂.length) - cap) =
      max ((l₁ ++ (l₂ ++ l₃)).length + (n - l₂.length)) (2 * cap) := by
    rw [getNewCapacity]
    omega
  obtain ⟨s', hs', hrep⟩ := intoNewBlock_rep l₂ h (.own k n hk)
    (k := max ((l₁ ++ (l₂ ++ l₃)).length + (n - l₂.length)) (2 * cap)) (by omega) (by omega) (by
      simp only [List.length_append, hcs]
      omega)
  refine ⟨s', _, _, ?_, hrep, rfl⟩
  rw [replaceOwn, h.lay.beginPtr]
  simp only [Option.bind_eq_bind, Option.bind_some, plus_begin, Nat.add_sub_cancel_left,
    h.lay.getSize, h.lay.capacity]
  rw [if_neg (by omega), if_neg hover, hnew]
  exact hs'

/-! ## Rounds of replacements -/

/-- In each round the character `i` is replaced by itself and the next one, which is then erased
again. -/
def rounds (i : ℕ) : ℕ → BasicString → Option BasicString
  | 0, s => some s
  | r + 1, s => do
    let s ← s.replaceOwn i (i + 1) i 2
    let s ← s.erase (i + 1) (i + 2)
    rounds i r s

theorem round_rep (h : Rep s b cap l) (hi : i + 1 < l.length) (hcap : 2 * cap < 2 ^ 63) :
    ∃ s₁ s₂ b', s.replaceOwn i (i + 1) i 2 = some s₁ ∧ s₁.erase (i + 1) (i + 2) = some s₂ ∧
      Rep s₂ b' (2 * cap) l := by
  have hle := h.lay.n_le
  have h1 := h.lay.one_lt_cap
  obtain ⟨l₁, x, y, l₃, rfl, hl₁⟩ :
      ∃ l₁ x y l₃, l = l₁ ++ ([x] ++ ([y] ++ l₃)) ∧ l₁.length = i := by
    refine ⟨l.take i, l[i], l[i + 1], l.drop (i + 2), ?_, List.length_take_of_le (by omega)⟩
    rw [List.singleton_append, List.singleton_append, List.getElem_cons_drop,
      List.getElem_cons_drop, List.take_append_drop]
  subst hl₁
  have hown : ((l₁ ++ ([x] ++ ([y] ++ l₃))).drop l₁.length).take 2 = [x, y] := by
    rw [List.drop_left]
    rfl
  have hlen : (l₁ ++ ([x] ++ ([y] ++ l₃))).length = l₁.length + l₃.length + 2 := by
    simp only [List.length_append, List.length_singleton]
    omega
  obtain ⟨s₁, b₁, cap₁, hs₁, h₁, hcap₁⟩ := replaceOwn_overlap h (k := l₁.length) (n := 2)
    (by omega) (by rw [List.length_singleton]; omega) (by rw [List.length_singleton]; omega) hcap
    (by omega)
  have hcap₁' : cap₁ = 2 * cap := by
    rw [hcap₁, List.length_singleton]
    omega
  rw [hown, hcap₁'] at h₁
  have hshape : l₁ ++ ([x, y] ++ ([y] ++ l₃)) = (l₁ ++ [x]) ++ ([y] ++ ([y] ++ l₃)) := by simp
  rw [hshape] at h₁
  obtain ⟨s₂, hs₂, h₂⟩ := erase_rep h₁
  rw [List.append_assoc] at h₂
  have hx : (l₁ ++ [x]).length = l₁.length + 1 := List.length_append
  rw [hx] at hs₂
  exact ⟨s₁, s₂, b₁, hs₁, hs₂, h₂⟩

/-- **A string can keep its characters and double its capacity in every round**: the capacity is
not bounded by what its sizes need. -/
theorem rounds_capacity (h : Rep s b cap l) (hi : i + 1 < l.length) (r : ℕ)
    (hfit : 2 ^ r * cap < 2 ^ 63) :
    ∃ s' b', rounds i r s = some s' ∧ Rep s' b' (2 ^ r * cap) l := by
  induction r generalizing s b cap with
  | zero => exact ⟨s, b, rfl, by rwa [pow_zero, Nat.one_mul]⟩
  | succ r ih =>
    have hpow : 2 ^ (r + 1) * cap = 2 ^ r * (2 * cap) := by rw [pow_succ, Nat.mul_assoc]
    have hcap : 2 * cap < 2 ^ 63 := by
      have : 2 * cap ≤ 2 ^ r * (2 * cap) := Nat.le_mul_of_pos_left _ (Nat.two_pow_pos r)
      omega
    obtain ⟨s₁, s₂, b₂, hs₁, hs₂, h₂⟩ := round_rep h hi hcap
    obtain ⟨s', b', hs', hrep⟩ := ih h₂ (by omega)
    refine ⟨s', b', ?_, by rwa [hpow]⟩
    rw [rounds, hs₁]
    simp only [Option.bind_eq_bind, Option.bind_some, hs₂]
    exact hs'

theorem rounds_ten : ∃ s s' b, rangeInitialize [97, 98] = some s ∧ rounds 0 10 s = some s' ∧
    Rep s' b 23552 [97, 98] := by
  obtain ⟨s, b, hs, hrep⟩ := rangeInitialize_rep [97, 98] (by decide)
  obtain ⟨s', b', hs', hrep'⟩ := rounds_capacity hrep (i := 0) (by decide) 10 (by decide)
  exact ⟨s, s', b', hs, hs', hrep'⟩

end Dpp.BasicString
