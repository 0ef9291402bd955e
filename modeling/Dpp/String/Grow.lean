import Dpp.String.Layout

/-!
# Strings that grow

* `Lay.sized`, `finish`: the end of a change in place; `switch`: the end of a move into a new block.
* `append_rep`, `appendN_rep`, `reserve_rep`: the operations that may need a new block keep the
  list they should.
* **`setCapacity_rep`**, **`setCapacity_iff`**: `set_capacity` cuts the list off, except that from
  the heap layout a capacity between the size and 23 changes the size.
-/

namespace Dpp.BasicString

open Lib

variable {s s' t : BasicString} {b b' cap n m k : ℕ} {xs ys : List Cell} {l cs : List UInt8}
  {src : Source}

/-! ## The ends of the operations -/

theorem plus_length {a i j : ℕ} (h : i + j = n) : (⟨a, i⟩ : Ptr).plus j = ⟨a, n⟩ := by
  show (⟨a, (i : ℤ) + j⟩ : Ptr) = ⟨a, n⟩
  rw [← h, Nat.cast_add]

theorem plus_begin (a i : ℕ) : (⟨a, 0⟩ : Ptr).plus i = ⟨a, i⟩ := plus_length (Nat.zero_add i)

theorem plus_chars (a : ℕ) (l : List UInt8) :
    (⟨a, 0⟩ : Ptr).plus (l.map Cell.byte).length = ⟨a, l.length⟩ := by
  rw [List.length_map]
  exact plus_length (Nat.zero_add _)

theorem row_text {a : ℕ} : s.Row ⟨a, 0⟩ (l.map .byte ++ [.byte 0]) ↔
    s.Row ⟨a, 0⟩ ((l ++ [0]).map .byte) := by
  rw [List.map_append, List.map_singleton]

/-- Characters behind characters. -/
theorem row_cat {a : ℕ} (hrow : s.Row ⟨a, 0⟩ (l.map .byte)) (cs : List UInt8) :
    (s.put ⟨a, l.length⟩ (cs.map .byte)).Row ⟨a, 0⟩ ((l ++ cs).map .byte) := by
  have := hrow.put_end (cs.map .byte)
  rwa [plus_chars, ← List.map_append] at this

theorem row_nul {a : ℕ} (hrow : s.Row ⟨a, 0⟩ (l.map .byte)) :
    (s.put ⟨a, l.length⟩ [.byte 0]).Row ⟨a, 0⟩ (l.map .byte ++ [.byte 0]) := by
  have := hrow.put_end [.byte 0]
  rwa [plus_chars] at this

/-- The size that fits the text makes it the string. -/
theorem Lay.sized (h : Lay t b cap n) (honly : ∀ c, c ≠ 0 → c ≠ b → t.size c = none)
    (hnext : b < t.next) (hrow : t.Row ⟨b, 0⟩ ((l ++ [0]).map .byte)) (hl : l.length ≤ cap) :
    ∃ s', t.setSize l.length = some s' ∧ Rep s' b cap l := by
  obtain ⟨s', hs', hlay, hsize, hnx, -, hkeep⟩ := h.setSize hl
  refine ⟨s', hs', hlay, hkeep _ (List.length_map ..) (row_text.mpr hrow), fun c h0 hb => ?_, ?_⟩
  · rw [hsize]
    exact honly c h0 hb
  · rw [hnx]
    exact hnext

/-- The characters are in place: the terminating `0` and the size make them the string. -/
theorem finish (h : Lay s b cap n) (honly : ∀ c, c ≠ 0 → c ≠ b → s.size c = none)
    (hnext : b < s.next) (hrow : s.Row ⟨b, 0⟩ (l.map .byte)) (hl : l.length ≤ cap) :
    ∃ s', ((s.writeChar ⟨b, l.length⟩ 0).bind fun s => setSize s l.length) = some s' ∧
      Rep s' b cap l := by
  obtain ⟨m, hm, -⟩ := h.put_nul hl
  rw [h.writeChar hl]
  exact hm.sized honly hnext (row_text.mp (row_nul hrow)) hl

/-- The storage without the block of a heap layout. -/
def freed (t : BasicString) (b : ℕ) : BasicString :=
  if b = 0 then t else { t with size := Function.update t.size b none }

@[simp] theorem freed_obj : (freed t b).obj = t.obj := by
  rw [freed]
  split_ifs <;> rfl

@[simp] theorem freed_next : (freed t b).next = t.next := by
  rw [freed]
  split_ifs <;> rfl

theorem freed_size {c : ℕ} (h : c = 0 ∨ c ≠ b) : (freed t b).size c = t.size c := by
  rw [freed]
  split_ifs with hb
  · rfl
  · refine Function.update_of_ne ?_ ..
    rcases h with rfl | h
    · exact Ne.symm hb
    · exact h

theorem freed_none {c : ℕ} (hc : c ≠ 0) (h : c = b) : (freed t b).size c = none := by
  rw [freed, if_neg (h ▸ hc), h]
  exact Function.update_self ..

theorem deallocateSelf_eq (h : Lay t b cap n) : deallocateSelf t = some (freed t b) := by
  by_cases hb : b = 0
  · simp [deallocateSelf, h.isHeap, hb, freed]
  · have hfree : t.doFree ⟨b, 0⟩ = some { t with size := Function.update t.size b none } :=
      Storage.freeTrivial_eq h.block
    simpa [deallocateSelf, h.isHeap, hb, h.beginPtr, freed] using hfree

/-- The block of a heap layout is freed, and the object refers to a new one. -/
theorem switch (h : Lay t b cap n) (hb' : b' ≠ 0) (hbb : b' ≠ b)
    (hsize : t.size b' = some (k + 1)) (honly : ∀ c, c ≠ 0 → c ≠ b → c ≠ b' → t.size c = none)
    (hnext : b' < t.next) (hrow : t.Row ⟨b', 0⟩ (l.map .byte ++ [.byte 0])) (hk : 1 < k)
    (hk' : k < 2 ^ 63) (hl : l.length ≤ k) :
    ∃ s', ((deallocateSelf t).bind fun t => setHeapLayout t b' k l.length) = some s' ∧
      Rep s' b' k l := by
  have h0 : (freed t b).size 0 = some 24 := (freed_size (.inl rfl)).trans h.object
  obtain ⟨s', hs', hlay, hsz, hnx', hrow'⟩ := setHeapLayout_eq h0 hb'
    ((freed_size (.inr hbb)).trans hsize) hk hk' hl
  rw [deallocateSelf_eq h]
  refine ⟨s', hs', hlay, hrow' _ (hrow.congr fun i _ => by rw [freed_obj]), fun c hc hcb => ?_, ?_⟩
  · rw [hsz]
    by_cases hcb' : c = b
    · exact freed_none hc hcb'
    · exact (freed_size (.inr hcb')).trans (honly c hc hcb' hcb)
  · rw [hnx', freed_next]
    exact hnext

/-! ## A new block -/

theorem Rep.next_ne (h : Rep s b cap l) : s.next ≠ 0 ∧ s.next ≠ b :=
  ⟨Nat.ne_zero_of_lt h.next, h.next.ne'⟩

/-- An allocation leaves the object and its block alone. -/
theorem Rep.lay_alloc (h : Rep s b cap l) (n : ℕ) :
    Lay (s.doAllocate n).1 b cap l.length := by
  obtain ⟨h0, hb⟩ := h.next_ne
  have hobj : ∀ q : Ptr, q.base ≠ s.next → (s.doAllocate n).1.obj q = s.obj q :=
    fun q hq => if_neg hq
  have hrow : ∀ i xs, s.Row ⟨0, i⟩ xs → Storage.Row (s.doAllocate n).1 ⟨0, i⟩ xs :=
    fun i xs hr => hr.congr fun _ _ => hobj _ h0.symm
  refine ⟨?_, ?_, ?_⟩
  · cases h.lay.head with
    | sso hn hr => exact .sso hn ((hobj _ h0.symm).trans hr)
    | heap hb hc hcap hn hp hs hw =>
      exact .heap hb hc hcap hn (hrow _ _ hp) (hrow _ _ hs) (hrow _ _ hw)
  · exact (Storage.alloc_size_of_ne h0.symm).trans h.lay.object
  · exact (Storage.alloc_size_of_ne hb.symm).trans h.lay.block

theorem Rep.row_alloc (h : Rep s b cap l) (n : ℕ) :
    Storage.Row (s.doAllocate n).1 ⟨b, 0⟩ (l.map .byte) :=
  h.row.left.congr fun _ _ => if_neg h.next_ne.2.symm

/-- The characters of a new block, their `0`, and the change to it. -/
theorem Rep.move (h : Rep s b cap l) {t : BasicString} (hlay : Lay t b cap l.length)
    (hsize : t.size = (s.doAllocate (k + 1)).1.size) (hnext : t.next = s.next + 1)
    (hrow : t.Row ⟨s.next, 0⟩ (cs.map .byte)) (hk : 1 < k) (hk' : k < 2 ^ 63)
    (hl : cs.length ≤ k) :
    ∃ s', ((t.writeChar ⟨s.next, cs.length⟩ 0).bind fun t => (deallocateSelf t).bind fun t =>
      setHeapLayout t s.next k cs.length) = some s' ∧ Rep s' s.next k cs := by
  obtain ⟨h0, hb⟩ := h.next_ne
  have hblock : t.size s.next = some (k + 1) := by
    rw [hsize]
    exact Storage.alloc_size_self
  have hw : t.writeChar ⟨s.next, cs.length⟩ 0 = some (t.put ⟨s.next, cs.length⟩ [.byte 0]) := by
    refine Storage.write_eq (Storage.liveRun_of_size hblock ?_)
    rw [List.length_singleton]
    omega
  rw [hw]
  refine switch (hlay.put_other h0) h0 hb hblock (fun c hc hcb hcn => ?_) ?_ (row_nul hrow) hk
    hk' hl
  · rw [Storage.put_size, hsize]
    exact (Storage.alloc_size_of_ne hcn).trans (h.only c hc hcb)
  · rw [Storage.put_next, hnext]
    omega

@[simp] theorem doAllocate_snd (n : ℕ) : (s.doAllocate n).2 = s.next := rfl

theorem liveRun_alloc (h : k + m ≤ n) : Storage.LiveRun (s.doAllocate n).1 ⟨s.next, k⟩ m :=
  Storage.liveRun_of_size Storage.alloc_size_self h

/-- The characters of the string at the begin of a new block. -/
theorem Rep.copy_alloc (h : Rep s b cap l) (hl : l.length ≤ n) :
    (s.doAllocate n).1.copyTo (.own ⟨b, 0⟩ l.length) ⟨s.next, 0⟩ =
      some (Storage.put (s.doAllocate n).1 ⟨s.next, 0⟩ (l.map .byte)) :=
  copyTo_eq ((source_own_all b l).reads (h.lay_alloc n) (h.row_alloc n) h.lay.n_le)
    (liveRun_alloc (k := 0) (by omega))

theorem toNewBlock_rep (h : Rep s b cap l) (hn : 1 < n) (hn' : n < 2 ^ 63) (hl : l.length ≤ n) :
    ∃ s', s.toNewBlock n = some s' ∧ Rep s' s.next n l := by
  have hlay := h.lay_alloc (n + 1)
  obtain ⟨s', hs', hrep⟩ := h.move (hlay.put_other h.next_ne.1) rfl rfl Storage.row_put hn hn' hl
  refine ⟨s', ?_, hrep⟩
  rw [toNewBlock]
  simp only [Option.bind_eq_bind, hlay.getSize, Option.bind_some, hlay.beginPtr, doAllocate_snd]
  rw [h.copy_alloc (n := n + 1) (by omega)]
  exact hs'

/-- The capacity never shrinks, and a new one is at most twice the `n` characters it is for. -/
def Grows (cap cap' n : ℕ) : Prop := cap ≤ cap' ∧ cap' ≤ max cap (2 * n)

theorem Grows.refl (cap n : ℕ) : Grows cap cap n := ⟨le_rfl, le_max_left ..⟩

/-- Room for more characters at the end. -/
theorem append_rep (h : Rep s b cap l) (hsrc : src.Is b l cs) (hfit : (l ++ cs).length < 2 ^ 62) :
    ∃ s' b' cap', s.append src = some s' ∧ Rep s' b' cap' (l ++ cs) ∧
      Grows cap cap' (l ++ cs).length := by
  have hlen : src.length = cs.length := (hsrc.reads h.lay h.row.left h.lay.n_le).length
  have hcat : l.length + cs.length = (l ++ cs).length := List.length_append.symm
  by_cases hcs : cs.length = 0
  · obtain rfl := List.length_eq_zero_iff.mp hcs
    refine ⟨s, b, cap, if_pos hlen, ?_, .refl ..⟩
    rw [List.append_nil]
    exact h
  rw [append, if_neg (by rwa [hlen]), h.lay.getSize, h.lay.capacity]
  simp only [Option.bind_eq_bind, Option.bind_some, doAllocate_snd]
  rw [hlen, hcat]
  split_ifs with hroom
  · -- a new block, of at least twice the capacity
    have hcap := h.lay.one_lt_cap
    generalize hk : getNewCapacity cap ((l ++ cs).length - cap) = k
    rw [getNewCapacity] at hk
    let t : BasicString := Storage.put (s.doAllocate (k + 1)).1 ⟨s.next, 0⟩ (l.map .byte)
    have hlay : Lay t b cap l.length := (h.lay_alloc (k + 1)).put_other h.next_ne.1
    have hrow : t.Row ⟨b, 0⟩ (l.map .byte) := (h.row_alloc (k + 1)).put_base h.next_ne.2.symm
    have hcopy := copyTo_eq (hsrc.reads hlay hrow h.lay.n_le)
      (liveRun_alloc (s := s) (k := l.length) (n := k + 1) (m := cs.length) (by omega))
    obtain ⟨s', hs', hrep⟩ := h.move (hlay.put_other h.next_ne.1) rfl rfl
      (row_cat Storage.row_put cs) (by omega) (by omega) (by omega)
    refine ⟨s', s.next, k, ?_, hrep, by omega, by omega⟩
    rw [(h.lay_alloc (k + 1)).beginPtr, Option.bind_some, h.copy_alloc (n := k + 1) (by omega),
      Option.bind_some, hcopy]
    exact hs'
  · have hin : l.length + (cs.map Cell.byte).length ≤ cap := by
      rw [List.length_map]
      omega
    have hcopy := copyTo_eq (hsrc.reads h.lay h.row.left h.lay.n_le)
      (h.lay.liveRun (k := l.length) (m := cs.length) (by omega))
    obtain ⟨s', hs', hrep⟩ := finish (h.lay.put_inside _ hin) h.only h.next (row_cat h.row.left cs)
      (by omega)
    refine ⟨s', b, cap, ?_, hrep, .refl ..⟩
    rw [h.lay.endPtr, Option.bind_some, hcopy, Option.bind_some, plus_length hcat]
    exact hs'

/-! ## Back into the object -/

/-- The empty string in an object without a block. -/
theorem resetToSSO_rep (h0 : s.size 0 = some 24) (honly : ∀ c, c ≠ 0 → s.size c = none)
    (hnext : 0 < s.next) : ∃ s', s.resetToSSO = some s' ∧ Rep s' 0 23 [] := by
  let s₁ : BasicString := s.put ⟨0, 0⟩ [.byte 0]
  let s₂ : BasicString := s₁.put ⟨0, 23⟩ [.byte 23]
  have h1 : s.writeChar ⟨0, 0⟩ 0 = some s₁ := writeChar_object h0 (i := 0) (by omega) 0
  have h2 : s₁.setSSOSize 0 = some s₂ := writeChar_object (s := s₁) h0 (i := 23) (by omega) 23
  refine ⟨s₂, ?_, ⟨.sso (by decide) (Storage.row_singleton.mp Storage.row_put), h0, h0⟩, ?_,
    fun c hc _ => honly c hc, hnext⟩
  · rw [resetToSSO, h1]
    exact h2
  · exact (Storage.row_put (s := s)).put_before (by decide)

theorem layout_rep : ∃ s, layout = some s ∧ Rep s 0 23 [] := by
  refine resetToSSO_rep Storage.alloc_size_self (fun c hc => ?_) ?_
  · exact Storage.alloc_size_of_ne hc
  · exact Nat.zero_lt_one

/-- `set_capacity` of a size that is smaller cuts the characters off. -/
theorem Rep.truncate_rep (h : Rep s b cap l) (n : ℕ) :
    ∃ s', s.truncate n = some s' ∧ Rep s' b cap (l.take n) ∧ s'.next = s.next := by
  rw [truncate]
  simp only [Option.bind_eq_bind, h.lay.getSize, Option.bind_some]
  split_ifs with hn
  · have hle := h.lay.n_le
    have htake : (l.take n).length = n := by
      rw [List.length_take]
      omega
    obtain ⟨s₁, hs₁, hlay, hsize, hnx, hrow, -⟩ := h.lay.setSize (m := n) (by omega)
    have hrow' : s₁.Row ⟨b, 0⟩ ((l.take n).map .byte) := by
      refine hrow _ (by rw [List.length_map]; omega) ?_
      rw [List.map_take]
      exact h.row.left.take n
    obtain ⟨m, hm, hmn⟩ := hlay.put_nul (k := n) (by omega)
    rw [hmn rfl] at hm
    refine ⟨Storage.put s₁ ⟨b, n⟩ [.byte 0], ?_, ⟨?_, ?_, ?_, ?_⟩, hnx⟩
    · rw [hs₁, Option.bind_some, hlay.endPtr, Option.bind_some]
      exact hlay.writeChar (by omega) 0
    · rwa [htake]
    · have := row_nul hrow'
      rwa [htake] at this
    · intro c hc hcb
      exact (congrFun hsize c).trans (h.only c hc hcb)
    · exact h.next.trans_eq hnx.symm
  · refine ⟨s, rfl, ?_, rfl⟩
    rw [List.take_of_length_le (by omega)]
    exact h

/-- The object after its layout is set to `n` characters in it, and the block is freed. -/
def intoObject (t : BasicString) (b n : ℕ) : BasicString :=
  { Storage.put (Storage.put t ⟨0, 23⟩ [.byte (UInt8.ofNat (23 - n))]) ⟨0, n⟩ [.byte 0] with
    size := Function.update t.size b none }

theorem intoObject_remaining (hn : n ≤ 23) :
    (intoObject t b n).obj ⟨0, 23⟩ = some (.byte (UInt8.ofNat (23 - n))) := by
  by_cases h : n = 23
  · subst h
    exact Storage.row_singleton.mp Storage.row_put
  · refine (Storage.put_obj_of_ge ?_).trans (Storage.row_singleton.mp Storage.row_put)
    show ((n : ℕ) : ℤ) + 1 ≤ 23
    omega

theorem heapToSSO_eq (h : Rep s b cap l) (hn : n ≤ 23)
    (hcopy : s.copyTo (.own ⟨b, 0⟩ n) ⟨0, 0⟩ = some t) (ht : t.size = s.size) :
    s.heapToSSO n = some (intoObject t b n) := by
  have h0 : t.size 0 = some 24 := (congrFun ht 0).trans h.lay.object
  let t₁ : BasicString := t.put ⟨0, 23⟩ [.byte (UInt8.ofNat (23 - n))]
  have h1 : t.setSSOSize n = some t₁ := by
    rw [setSSOSize, remaining_eq hn]
    exact writeChar_object h0 (i := 23) (by omega) _
  have hread : t₁.getSSOSize = some n := by
    have hobj : t₁.obj ⟨0, 23⟩ = some (.byte (UInt8.ofNat (23 - n))) :=
      Storage.row_singleton.mp Storage.row_put
    have hlive : t₁.Live ⟨0, 23⟩ := live_object h0 (by omega) (by omega)
    have hsub : ∀ n < 24, 23 - (UInt8.ofNat (23 - n)).toNat = n := by decide
    simpa [getSSOSize, readChar_eq hlive hobj, ssoCapacity] using hsub n (by omega)
  have h2 : t₁.writeChar ⟨0, n⟩ 0 = some (t₁.put ⟨0, n⟩ [.byte 0]) :=
    writeChar_object (s := t₁) h0 (by omega) 0
  rw [heapToSSO]
  simp only [Option.bind_eq_bind, h.lay.beginPtr, Option.bind_some, hcopy, h1, hread, h2]
  refine Storage.freeTrivial_eq (n := cap + 1) ?_
  exact (congrFun ht b).trans h.lay.block

/-- A heap layout of few characters moves into the object. -/
theorem heapToSSO_rep (h : Rep s b cap l) (hb : b ≠ 0) (hl : l.length ≤ 23) :
    ∃ s', s.heapToSSO l.length = some s' ∧ Rep s' 0 23 l := by
  have hcopy : s.copyTo (.own ⟨b, 0⟩ l.length) ⟨0, 0⟩ =
      some (Storage.put s ⟨0, 0⟩ (l.map .byte)) :=
    copyTo_eq ((source_own_all b l).reads h.lay h.row.left h.lay.n_le)
      (Storage.liveRun_of_size (i := 0) h.lay.object (by omega))
  refine ⟨_, heapToSSO_eq h hl hcopy rfl, ⟨.sso hl (intoObject_remaining hl), ?_, ?_⟩, ?_,
    fun c hc hcb => ?_, ?_⟩
  · exact (Function.update_of_ne (Ne.symm hb) ..).trans h.lay.object
  · exact (Function.update_of_ne (Ne.symm hb) ..).trans h.lay.object
  · refine row_nul ((Storage.row_put (s := s)).put_before ?_)
    show (0 : ℤ) + (l.map Cell.byte).length ≤ 23
    rw [List.length_map]
    omega
  · by_cases hcb' : c = b
    · subst hcb'
      exact Function.update_self ..
    · exact (Function.update_of_ne hcb' ..).trans (h.only c hc hcb')
  · exact Nat.pos_of_ne_zero h.next_ne.1

/-- However many characters are asked for, this is the size afterwards. -/
theorem heapToSSO_getSize (h : Rep s b cap l) (hb : b ≠ 0) (hn : n ≤ 23)
    (hs : s.heapToSSO n = some s') : s'.getSize = some n := by
  have hs₀ := hs
  rw [heapToSSO] at hs₀
  simp only [Option.bind_eq_bind, h.lay.beginPtr, Option.bind_some] at hs₀
  obtain ⟨t, hcopy, -⟩ := Option.bind_eq_some_iff.mp hs₀
  have ht : t.size = s.size := by
    obtain ⟨xs, -, hw⟩ := Option.bind_eq_some_iff.mp hcopy
    rw [Storage.write] at hw
    split_ifs at hw
    cases hw
    rfl
  obtain rfl : intoObject t b n = s' :=
    Option.some.inj ((heapToSSO_eq h hn hcopy ht).symm.trans hs)
  have h0 : (intoObject t b n).size 0 = some 24 :=
    (Function.update_of_ne (Ne.symm hb) ..).trans ((congrFun ht 0).trans h.lay.object)
  have hread : (intoObject t b n).readChar ⟨0, 23⟩ = some (UInt8.ofNat (23 - n)) :=
    readChar_eq (live_object h0 (by omega) (by omega)) (intoObject_remaining hn)
  have hsub : ∀ n < 24, 23 - (UInt8.ofNat (23 - n)).toNat = n ∧
      ¬ 128 ≤ (UInt8.ofNat (23 - n)).toNat := by decide
  obtain ⟨hsize, hheap⟩ := hsub n (by omega)
  simp only [getSize, BasicString.isHeap, getSSOSize, hread, Option.map_some, Option.bind_eq_bind,
    Option.bind_some, decide_eq_true_eq, ssoCapacity]
  rw [if_neg hheap, hsize]

/-! ## Capacity -/

/-- `set_capacity`, where the size does not get in the way: the characters up to `n` stay, and
there is room for `n`. -/
theorem setCapacity_rep (h : Rep s b cap l) (hn : n < 2 ^ 63)
    (hok : b = 0 ∨ n ≤ l.length ∨ 23 < n ∨ n = cap) :
    ∃ s' b' cap', s.setCapacity n = some s' ∧ Rep s' b' cap' (l.take n) ∧ n ≤ cap' ∧
      min 23 cap ≤ cap' ∧ cap' ≤ max 23 (max cap n) := by
  obtain ⟨s₁, hs₁, hrep, -⟩ := h.truncate_rep n
  have htake : (l.take n).length = min n l.length := List.length_take
  have hsso : b = 0 → cap = 23 := fun hb => Lay.cap_sso (hb ▸ h.lay)
  rw [setCapacity]
  simp only [Option.bind_eq_bind, hs₁, Option.bind_some, hrep.lay.capacity, hrep.lay.isHeap,
    decide_eq_true_eq]
  split_ifs with hch h0 hle
  · obtain rfl := h0
    have hobj : (freed s₁ b).size 0 = some 24 := (freed_size (.inl rfl)).trans hrep.lay.object
    have honly : ∀ c, c ≠ 0 → (freed s₁ b).size c = none := by
      intro c hc
      by_cases hcb : c = b
      · exact freed_none hc hcb
      · exact (freed_size (.inr hcb)).trans (hrep.only c hc hcb)
    obtain ⟨s', hs', hrep'⟩ := resetToSSO_rep hobj honly (by
      rw [freed_next]
      exact Nat.zero_lt_of_lt hrep.next)
    refine ⟨s', 0, 23, ?_, hrep', Nat.zero_le _, by omega, by omega⟩
    rw [deallocateSelf_eq hrep.lay]
    exact hs'
  · -- a heap layout, since an object has room for 23 characters
    rw [ssoCapacity] at hle
    have hb : b ≠ 0 := by
      rcases hch with hch | hch
      · exact hch.2
      · omega
    obtain ⟨s', hs', hrep'⟩ := heapToSSO_rep hrep hb (by omega)
    refine ⟨s', 0, 23, ?_, hrep', hle, by omega, by omega⟩
    rw [← hs', htake, Nat.min_eq_left (by omega)]
  · rw [ssoCapacity] at hle
    obtain ⟨s', hs', hrep'⟩ := toNewBlock_rep hrep (by omega) hn (by omega)
    exact ⟨s', _, n, hs', hrep', le_rfl, by omega, by omega⟩
  · exact ⟨s₁, b, cap, rfl, hrep, by omega, by omega, by omega⟩

/-- A heap layout that `set_capacity` moves into the object. -/
theorem setCapacity_eq (h : Rep s b cap l) (hb : b ≠ 0) (hlt : l.length < n) (hle : n ≤ 23)
    (hne : n ≠ cap) : s.setCapacity n = s.heapToSSO n := by
  have htrunc : s.truncate n = some s := by
    rw [truncate, h.lay.getSize]
    exact if_neg (by omega)
  rw [setCapacity]
  simp only [Option.bind_eq_bind, htrunc, Option.bind_some, h.lay.capacity, h.lay.isHeap,
    decide_eq_true_eq]
  have hmove : n < cap ∧ b ≠ 0 ∨ cap < n := by omega
  rw [if_pos hmove, if_neg (by omega), if_pos (by rwa [ssoCapacity])]

/-- **`set_capacity(n)` keeps the characters up to `n` exactly if** it does not move a heap layout
into the object with room for more than its characters: then what was asked for is the size
afterwards. -/
theorem setCapacity_iff (h : Rep s b cap l) (hn : n < 2 ^ 63) :
    (∃ s' b' cap', s.setCapacity n = some s' ∧ Rep s' b' cap' (l.take n)) ↔
      ¬ (b ≠ 0 ∧ l.length < n ∧ n ≤ 23 ∧ n ≠ cap) := by
  refine ⟨fun ⟨s', b', cap', hs', hrep⟩ ⟨hb, hlt, hle, hne⟩ => ?_, fun hok => ?_⟩
  · rw [setCapacity_eq h hb hlt hle hne] at hs'
    have hsize := heapToSSO_getSize h hb hle hs'
    rw [hrep.lay.getSize, List.take_of_length_le hlt.le] at hsize
    exact hlt.ne (Option.some.inj hsize)
  · obtain ⟨s', b', cap', hs', hrep, -⟩ := setCapacity_rep h hn (by omega)
    exact ⟨s', b', cap', hs', hrep⟩

/-- A string that has a block and is cut to 5 characters does not keep them. -/
theorem setCapacity_five : ∃ s₁ s₂ s₃, layout = some s₁ ∧
    s₁.append (.chars (List.replicate 30 97)) = some s₂ ∧ s₂.truncate 5 = some s₃ ∧
    ¬ ∃ s' b' cap', s₃.setCapacity 10 = some s' ∧ Rep s' b' cap' (List.replicate 5 97) := by
  obtain ⟨s₁, hs₁, h₁⟩ := layout_rep
  obtain ⟨s₂, b, cap, hs₂, h₂, -⟩ := append_rep h₁ (.chars (List.replicate 30 97)) (by decide)
  obtain ⟨s₃, hs₃, h₃, -⟩ := h₂.truncate_rep 5
  have hcap : 30 ≤ cap := h₂.lay.n_le
  have hb : b ≠ 0 := fun hb => by
    have hsso : cap = 23 := Lay.cap_sso (hb ▸ h₂.lay)
    omega
  refine ⟨s₁, s₂, s₃, hs₁, hs₂, hs₃, fun hkept => ?_⟩
  exact (setCapacity_iff h₃ (by decide)).mp hkept ⟨hb, by decide, by decide, by omega⟩

theorem reserve_rep (h : Rep s b cap l) (hn : n < 2 ^ 63) (hok : b = 0 ∨ n ≤ cap ∨ 23 < n) :
    ∃ s' b' cap', s.reserve n = some s' ∧ Rep s' b' cap' l ∧ max cap n ≤ cap' ∧
      cap' ≤ max cap n := by
  have hle := h.lay.n_le
  have hsso : b = 0 → cap = 23 := fun hb => Lay.cap_sso (hb ▸ h.lay)
  rw [reserve, h.lay.getSize, h.lay.capacity]
  simp only [Option.bind_eq_bind, Option.bind_some]
  split_ifs with hlt
  · have hn' : max n l.length = n := by omega
    rw [hn']
    obtain ⟨s', b', cap', hs', hrep, hge, -, hmax⟩ := setCapacity_rep h hn (by omega)
    rw [List.take_of_length_le (by omega)] at hrep
    exact ⟨s', b', cap', hs', hrep, by omega, by omega⟩
  · exact ⟨s, b, cap, rfl, h, by omega, le_max_left ..⟩

/-- A small block is read beyond its end when more room is asked for. -/
theorem reserve_none (h : Rep s b cap l) (hb : b ≠ 0) (hlt : cap + 1 < n) (hle : n ≤ 23) :
    s.reserve n = none := by
  have hn := h.lay.n_le
  have hread : s.readRun ⟨b, 0⟩ n = none := by
    by_contra hne
    obtain ⟨xs, hxs⟩ := Option.ne_none_iff_exists'.mp hne
    have hend := (Storage.liveRun_of_readRun hxs (by omega)).2
    rw [h.lay.block, Option.getD_some] at hend
    dsimp only at hend
    omega
  have hmax : max n l.length = n := by omega
  rw [reserve]
  simp only [Option.bind_eq_bind, h.lay.getSize, h.lay.capacity, Option.bind_some, hmax]
  rw [if_pos (by omega), setCapacity_eq h hb (by omega) hle (by omega), heapToSSO]
  simp only [Option.bind_eq_bind, h.lay.beginPtr, Option.bind_some, copyTo, hread,
    Option.bind_none]

/-- What `append(n, c)` does once there is room. -/
theorem fillEnd_rep (h : Rep s b cap l) (c : UInt8) (hn : l.length + n ≤ cap) :
    ∃ s', (s.endPtr.bind fun p => (s.fillN p n c).bind fun s =>
        (s.writeChar (p.plus n) 0).bind fun s => s.setSize (l.length + n)) = some s' ∧
      Rep s' b cap (l ++ List.replicate n c) := by
  have hlen : (l ++ List.replicate n c).length = l.length + n := by
    rw [List.length_append, List.length_replicate]
  have hfill : s.fillN ⟨b, l.length⟩ n c =
      some (Storage.put s ⟨b, l.length⟩ ((List.replicate n c).map .byte)) := by
    rw [fillN, List.map_replicate]
    refine Storage.write_eq (h.lay.liveRun ?_)
    rw [List.length_replicate]
    omega
  have hin : l.length + ((List.replicate n c).map Cell.byte).length ≤ cap := by
    rw [List.length_map, List.length_replicate]
    exact hn
  obtain ⟨s', hs', hrep⟩ := finish (h.lay.put_inside _ hin) h.only h.next
    (row_cat h.row.left (List.replicate n c)) (by omega)
  refine ⟨s', ?_, hrep⟩
  rw [h.lay.endPtr, Option.bind_some, hfill, Option.bind_some, plus_length rfl, ← hlen]
  exact hs'

/-- The block that `append(n, c)` asks for would fit into the object. -/
def Cramped (b cap size : ℕ) : Prop := b ≠ 0 ∧ cap < size ∧ max size (2 * cap) ≤ 23

instance (b cap size : ℕ) : Decidable (Cramped b cap size) := by
  unfold Cramped
  infer_instance

theorem newCapacity_eq (h : cap < n) : getNewCapacity cap (n - cap) = max n (2 * cap) := by
  rw [getNewCapacity]
  omega

theorem appendN_rep (h : Rep s b cap l) (n : ℕ) (c : UInt8) (hfit : l.length + n < 2 ^ 62)
    (hok : ¬ Cramped b cap (l.length + n)) :
    ∃ s' b' cap', s.appendN n c = some s' ∧ Rep s' b' cap' (l ++ List.replicate n c) ∧
      Grows cap cap' (l.length + n) := by
  by_cases h0 : n = 0
  · subst h0
    refine ⟨s, b, cap, rfl, ?_, .refl ..⟩
    rw [List.replicate_zero, List.append_nil]
    exact h
  rw [appendN, if_neg h0, h.lay.getSize, h.lay.capacity]
  simp only [Option.bind_eq_bind, Option.bind_some]
  split_ifs with hlt
  · rw [newCapacity_eq hlt]
    have hb : b = 0 ∨ 23 < max (l.length + n) (2 * cap) := by
      by_contra hno
      exact hok ⟨by omega, hlt, by omega⟩
    obtain ⟨s₁, b₁, cap₁, hs₁, hrep, hge, hmax⟩ :=
      reserve_rep h (n := max (l.length + n) (2 * cap)) (by omega) (by omega)
    obtain ⟨s', hs', hrep'⟩ := fillEnd_rep hrep c (n := n) (by omega)
    refine ⟨s', b₁, cap₁, ?_, hrep', by omega, by omega⟩
    rw [hs₁]
    exact hs'
  · obtain ⟨s', hs', hrep'⟩ := fillEnd_rep h c (n := n) (by omega)
    exact ⟨s', b, cap, hs', hrep', .refl ..⟩

/-- **`append(n, c)` appends, except that it reads beyond a block that is smaller than the object**
and too small for the new characters, where the one to replace it would fit into the object. -/
theorem appendN_iff (h : Rep s b cap l) (n : ℕ) (c : UInt8) (hfit : l.length + n < 2 ^ 62) :
    if Cramped b cap (l.length + n) then s.appendN n c = none
    else ∃ s' b' cap', s.appendN n c = some s' ∧ Rep s' b' cap' (l ++ List.replicate n c) := by
  split_ifs with hbad
  · obtain ⟨hb, hlt, hle⟩ := hbad
    have hcap := h.lay.one_lt_cap
    have hn := h.lay.n_le
    have hres := reserve_none h hb (n := max (l.length + n) (2 * cap)) (by omega) hle
    rw [appendN, if_neg (by omega), h.lay.getSize, h.lay.capacity]
    simp only [Option.bind_eq_bind, Option.bind_some]
    rw [if_pos hlt, newCapacity_eq hlt, hres]
    rfl
  · obtain ⟨s', b', cap', hs', hrep, -⟩ := appendN_rep h n c hfit hbad
    exact ⟨s', b', cap', hs', hrep⟩

end Dpp.BasicString
