import Dpp.Malloc.Steps

/-!
# Blocks as large as asked for

`malloc` adds the header to the size and `calloc` multiplies in 64 bits, and neither checks.

* `InOwnBlock`: every live pointer lies behind the header of a block of its own.
* `Enough`: a call that returns a pointer has the bytes asked for behind it, and writes only there
  and in the header.
* **`enough_iff_representable`**: so it is along a run exactly if no call gets a block for a size
  that does not fit.
-/

namespace Dpp.Malloc

open Lib

/-- The live pointers and their blocks. -/
structure InOwnBlock (s : State) : Prop where
  apart : s.heap.blocks.Pairwise Block.Apart
  block : ∀ p ∈ s.live, ∃ b ∈ s.heap.blocks, p = b.addr + 16 ∧
    s.heap.tags p = kcrtPoolDefaultTag ∧ (s.heap.size p).toNat + 16 = b.len

/-- The bytes a call asks for. -/
def requested : Action → ℕ
  | .malloc size _ => size.toNat
  | .calloc nmemb size _ => nmemb.toNat * size.toNat
  | .realloc _ newSize _ => newSize.toNat
  | .free _ | .store .. => 0

/-- A call that has left `r` has returned `NULL` or a pointer to `n` bytes. -/
def Gives (n : ℕ) (r : Heap × Call) : Prop :=
  r.2.ptr ≠ 0 → ∃ b ∈ r.1.blocks, r.2.ptr = b.addr + 16 ∧ n + 16 ≤ b.len ∧
    ∀ w ∈ r.2.writes, w.Within b.toSpan

def Enough (s : State) (a : Action) : Prop := ∀ r, s.call a = some r → Gives (requested a) r

/-- The call gets no block, or what it asks for and the header fit into a `size_t`. -/
def Representable (_ : State) : Action → Prop
  | .malloc size pool => pool = none ∨ size.toNat + 16 < 2 ^ 64
  | .calloc nmemb size pool => pool = none ∨ nmemb.toNat * size.toNat + 16 < 2 ^ 64
  | .realloc _ newSize pool => pool = none ∨ newSize.toNat + 16 < 2 ^ 64
  | .free _ | .store .. => True

variable {s s' : State} {a : Action} {r : Heap × Call}

theorem Representable.unwrapped (h : Representable s a) : Unwrapped s a := by
  cases a with
  | malloc size pool => exact h
  | calloc nmemb size pool =>
    refine h.imp_right fun hp => ?_
    unfold Fits
    rw [BitVec.toNat_mul, Nat.mod_eq_of_lt (by omega)]
    exact hp
  | realloc ptr newSize pool => exact h
  | free ptr => trivial
  | store addr byte => trivial

/-! ## Enough -/

theorem gives_of_null {n : ℕ} (h : r.2.ptr = 0) : Gives n r := fun hn => absurd h hn

section Malloc

variable {h : Heap} {size : SizeT} {x n : ℕ}

theorem newBlock_writes (hs : Fits size) (w : Span)
    (hw : w ∈ Heap.newBlockWrites x size) :
    w.Within (Heap.newBlock x size).toSpan := by
  have hl := Heap.newBlock_len hs x
  simp only [Heap.newBlockWrites, List.mem_cons, List.not_mem_nil, or_false] at hw
  unfold Span.Within
  rw [hl, Heap.newBlock_addr]
  rcases hw with rfl | rfl | rfl
  · exact ⟨le_refl _, by rw [hl, Heap.newBlock_addr]⟩
  · exact ⟨le_refl _, by simp only; omega⟩
  · exact ⟨by simp only; omega, by simp only; omega⟩

theorem gives_malloc {pool : Option ℕ} (hs : pool = none ∨ Fits size) :
    Gives size.toNat (h.malloc size pool) := by
  cases pool with
  | none => exact gives_of_null rfl
  | some x =>
    rcases hs with hs | hs
    · cases hs
    · intro _
      exact ⟨Heap.newBlock x size, List.mem_cons_self, rfl, (Heap.newBlock_len hs x).ge,
        newBlock_writes hs⟩

/-- The block behind a new pointer is the new block. -/
theorem len_of_gives {ws : List Span} {fs : List ℕ} {bs : List Block} {m : Mem}
    (hp : h.PoolMay (size + sizeofMallocHeader) (some x))
    (hb : ∀ b ∈ bs, b ∈ Heap.newBlock x size :: h.blocks)
    (hg : Gives n ({ mem := m, blocks := bs }, ⟨getMallocAddress x, ws, fs⟩)) :
    n + 16 < 2 ^ 64 := by
  obtain ⟨b, hm, ha, hl, -⟩ := hg (getMallocAddress_ne_zero x)
  have hx : x = b.addr := getMallocAddress_inj.mp ha
  have hb : b = Heap.newBlock x size := by
    rcases List.mem_cons.mp (hb b hm) with hb | hb
    · exact hb
    · exact absurd hx (hp.2.2 b hb).2
  have : b.len < 2 ^ 64 := by
    rw [hb]
    exact (size + sizeofMallocHeader).isLt
  omega

end Malloc

theorem Good.gives_realloc (hg : Good s) {ptr : ℕ} {newSize : SizeT} {pool : Option ℕ}
    (hs : pool = none ∨ Fits newSize) (hp : s.Passable ptr)
    (hm : s.heap.PoolMay (newSize + sizeofMallocHeader) pool)
    (h : s.heap.realloc ptr newSize pool = some r) : Gives newSize.toNat r := by
  obtain ⟨t, ht, hc⟩ := hg.tidy.realloc_cases (hg.passable hp) hs hm
  obtain rfl : t = r := Option.some.inj (ht.symm.trans h)
  cases hc with
  | malloc => exact gives_malloc hs
  | free b hb hn => exact gives_of_null rfl
  | keep b hb hn hle =>
    refine fun _ => ⟨b, hb, rfl, ?_, fun w hw => absurd hw List.not_mem_nil⟩
    rw [← (hg.tidy.headed b hb).size]
    exact Nat.add_le_add_right hle 16
  | fail b hb hn hp => exact gives_of_null rfl
  | move b hb x hx hlt =>
    subst hx
    have hs : Fits newSize := hs.resolve_left (Option.some_ne_none x)
    have hl := Heap.newBlock_len hs x
    refine fun _ => ⟨Heap.newBlock x newSize,
      List.mem_filter.mpr ⟨List.mem_cons_self, decide_eq_true (hm.2.2 b hb).2⟩, rfl, hl.ge,
      fun w hw => ?_⟩
    rcases List.mem_append.mp hw with hw | hw
    · exact newBlock_writes hs w hw
    · -- `memcpy` writes the old size, which is less
      obtain rfl := List.mem_singleton.mp hw
      unfold Span.Within
      rw [hl, getMallocAddress_eq]
      refine ⟨Nat.le_add_right _ _, ?_⟩
      simp only [Heap.newBlock_addr]
      bv_omega

theorem Good.gives_free (hg : Good s) {ptr n : ℕ} (hp : s.Passable ptr)
    (h : s.heap.free ptr = some r) : Gives n r := by
  rcases hg.passable hp with rfl | ⟨b, hb, rfl⟩
  · exact gives_of_null (by cases h; rfl)
  · rw [hg.tidy.free_eq hb] at h
    exact gives_of_null (by cases h; rfl)

theorem gives_calloc {h : Heap} {nmemb size : SizeT} {pool : Option ℕ}
    (hs : pool = none ∨ nmemb.toNat * size.toNat + 16 < 2 ^ 64) :
    Gives (nmemb.toNat * size.toNat) (h.malloc (nmemb * size) pool) := by
  cases pool with
  | none => exact gives_of_null rfl
  | some x =>
    have hlt := hs.resolve_left (Option.some_ne_none x)
    have hm : (nmemb * size).toNat = nmemb.toNat * size.toNat := by
      rw [BitVec.toNat_mul, Nat.mod_eq_of_lt (by omega)]
    rw [← hm] at hlt ⊢
    exact gives_malloc (.inr hlt)

theorem Good.enough (hg : Good s) (hr : Representable s a) : Enough s a := by
  intro r h
  cases called_of_call h with
  | malloc hp => exact gives_malloc hr
  | calloc hp => exact gives_calloc hr
  | realloc hptr hp h => exact hg.gives_realloc hr hptr hp h
  | free hptr h => exact hg.gives_free hptr h
  | store hs => exact gives_of_null rfl

/-! ## And no more -/

theorem free_blocks {h : Heap} {ptr : ℕ} (hf : h.free ptr = some r) {b : Block}
    (hb : b ∈ r.1.blocks) : b ∈ h.blocks := by
  unfold Heap.free Heap.exFreePool at hf
  split_ifs at hf
  · cases hf
    exact hb
  · cases hf
    exact (List.mem_filter.mp hb).1
  · cases hf

/-- `realloc` past the recorded size, with a block from the pool that may be too short. -/
theorem Good.fits_of_move (hg : Good s) {b : Block} {newSize : SizeT} {x n : ℕ}
    (hb : b ∈ s.heap.blocks) (hn : newSize ≠ 0)
    (hlt : ¬ newSize ≤ s.heap.size (getMallocAddress b.addr))
    (hp : s.heap.PoolMay (newSize + sizeofMallocHeader) (some x))
    (h : s.heap.realloc (getMallocAddress b.addr) newSize (some x) = some r) (hr : Gives n r) :
    n + 16 < 2 ^ 64 := by
  unfold Heap.realloc at h
  rw [if_neg (getMallocAddress_ne_zero _), if_neg hn, (hg.tidy.headed b hb).getMallocSize,
    Option.bind_some, if_neg hlt] at h
  replace h := (if_pos (getMallocAddress_ne_zero x)).symm.trans h
  obtain ⟨t, ht, rfl⟩ := Option.map_eq_some_iff.mp h
  exact len_of_gives hp (fun c hc => free_blocks ht hc) hr

/-- A `realloc` that gives enough has asked for what fits. -/
theorem Good.fits_of_realloc (hg : Good s) {ptr x : ℕ} {newSize : SizeT} (hptr : s.Passable ptr)
    (hp : s.heap.PoolMay (newSize + sizeofMallocHeader) (some x))
    (h : s.heap.realloc ptr newSize (some x) = some r) (hr : Gives newSize.toNat r) :
    newSize.toNat + 16 < 2 ^ 64 := by
  rcases hg.passable hptr with rfl | ⟨b, hb, rfl⟩
  · rw [Heap.realloc_null] at h
    cases h
    exact len_of_gives hp (fun _ hb => hb) hr
  · by_cases hn : newSize = 0
    · rw [hn]
      decide
    by_cases hle : newSize ≤ s.heap.size (getMallocAddress b.addr)
    · have := (hg.tidy.headed b hb).fits
      unfold Fits at this
      bv_omega
    · exact hg.fits_of_move hb hn hle hp h hr

theorem Good.representable (hg : Good s) (he : Enough s a) (h : s.call a = some r) :
    Representable s a := by
  have hr := he r h
  cases called_of_call h with
  | @malloc size pool hp =>
    cases pool with
    | none => exact .inl rfl
    | some x => exact .inr (len_of_gives hp (fun _ hb => hb) hr)
  | @calloc nmemb size pool hp =>
    cases pool with
    | none => exact .inl rfl
    | some x => exact .inr (len_of_gives hp (fun _ hb => hb) hr)
  | @realloc ptr newSize pool _ hptr hp h =>
    cases pool with
    | none => exact .inl rfl
    | some x => exact .inr (hg.fits_of_realloc hptr hp h hr)
  | free hptr h => trivial
  | store hs => trivial

theorem Good.inOwnBlock (hg : Good s) : InOwnBlock s := by
  refine ⟨hg.tidy.apart, fun p hp => ?_⟩
  obtain ⟨b, hb, rfl⟩ := (hg.live p).mp hp
  exact ⟨b, hb, rfl, (hg.tidy.headed b hb).tags, (hg.tidy.headed b hb).size⟩

/-- **Every live pointer has its own headed block and every call gives as much as asked for,
exactly if** no call of the run gets a block for a size that does not fit. -/
theorem enough_iff_representable (m : Mem) (as : List Action) :
    (system.Always InOwnBlock (.initial m) as ∧ system.Meets Enough (.initial m) as) ↔
      system.Meets Representable (.initial m) as := by
  have hk : system.Keeps Representable Good :=
    fun s a s' hg hr h => good_keeps s a s' hg hr.unwrapped h
  have hc : ∀ s a s', Good s → Enough s a → system.step s a = some s' → Representable s a := by
    intro s a s' hg he h
    obtain ⟨r, hr, -⟩ := Option.map_eq_some_iff.mp h
    exact hg.representable he hr
  constructor
  · intro h
    have hk' : system.Keeps Enough Good :=
      fun s a s' hg he h => hk s a s' hg (hc s a s' hg he h) h
    exact hk'.meets hc (good_initial m) h.2
  · intro h
    exact ⟨(hk.always (good_initial m) h).mono fun _ => Good.inOwnBlock,
      hk.meets (fun s a s' hg hr _ => hg.enough hr) (good_initial m) h⟩

/-- **`malloc` of 2 ^ 64 - 8 bytes** gets a block of eight. -/
theorem not_enough_malloc : ¬ ∀ m as,
    system.Always InOwnBlock (.initial m) as ∧ system.Meets Enough (.initial m) as := by
  intro h
  have hm := (h (fun _ => 0) [.malloc 0xFFFFFFFFFFFFFFF8 (some 4096)]).2
  have hp : (State.initial fun _ => 0).heap.PoolMay
      (0xFFFFFFFFFFFFFFF8 + sizeofMallocHeader) (some 4096) :=
    ⟨by decide, by decide, fun b hb => absurd hb List.not_mem_nil⟩
  have hc := call_malloc hp
  have he := (hm _ (congrArg (Option.map _) hc)).1 _ hc
  have hlt := len_of_gives hp (fun _ hb => hb) he
  exact absurd hlt (by decide)

end Dpp.Malloc
