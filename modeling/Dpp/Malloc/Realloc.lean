import Dpp.Malloc.Steps

/-!
# What `realloc` keeps

* `ReallocOk`: `realloc` of a live pointer or `NULL` frees, fails without a trace, or gives enough
  bytes with the old contents first and zeroes after them; the other blocks stay as they are.
* **`realloc_ok_of_unwrapped`**: so it does in every heap that unwrapped calls have led to.
-/

namespace Dpp.Malloc

open Lib

/-- The size recorded for a pointer; none is for `NULL`. -/
def Heap.oldSize (h : Heap) (ptr : ℕ) : ℕ := if ptr = 0 then 0 else (h.size ptr).toNat

/-- The call that has left `r` has freed `ptr`, once, and nothing else. -/
structure Freed (s : State) (ptr : ℕ) (r : Heap × Call) : Prop where
  once : r.2.frees = [ptr]
  live : ptr ∉ (s.after r).live
  block : ∀ b ∈ r.1.blocks, b.addr + 16 ≠ ptr

/-- The call that has left `r` has left the heap and the live pointers as they were. -/
structure Untouched (s : State) (r : Heap × Call) : Prop where
  heap : r.1 = s.heap
  live : (s.after r).live = s.live
  frees : r.2.frees = []

/-- `realloc(ptr, newSize)` has left `r`. -/
structure ReallocOk (s : State) (ptr : ℕ) (newSize : SizeT) (r : Heap × Call) : Prop where
  zero : ptr ≠ 0 → newSize = 0 → r.2.ptr = 0 ∧ Freed s ptr r
  failed : ptr = 0 ∨ newSize ≠ 0 → r.2.ptr = 0 → Untouched s r
  enough : r.2.ptr ≠ 0 → r.2.ptr ∈ (s.after r).live ∧
    ∃ b ∈ r.1.blocks, r.2.ptr = b.addr + 16 ∧ newSize.toNat + 16 ≤ b.len
  contents : r.2.ptr ≠ 0 → ∀ i < min (s.heap.oldSize ptr) newSize.toNat,
    r.1.mem (r.2.ptr + i) = s.heap.mem (ptr + i)
  zeroed : r.2.ptr ≠ 0 → ∀ i, s.heap.oldSize ptr ≤ i → i < newSize.toNat →
    r.1.mem (r.2.ptr + i) = 0
  moved : ptr ≠ 0 → r.2.ptr ≠ 0 → r.2.ptr ≠ ptr → Freed s ptr r
  kept : ptr ≠ 0 → r.2.ptr = ptr → r.2.frees = []
  others : ∀ p ∈ s.live, p ≠ ptr → p ∈ (s.after r).live ∧
    ∀ b ∈ s.heap.blocks, p = b.addr + 16 → b ∈ r.1.blocks ∧ ∀ x ∈ b.toSpan, r.1.mem x = s.heap.mem x

namespace Heap

variable {h : Heap} {b c : Block} {a x : ℕ} {newSize : SizeT}

/-- The old blocks keep their bytes when `b` moves. -/
theorem moved_mem (hs : Fits newSize) (hp : h.PoolMay (newSize + sizeofMallocHeader) (some a))
    (hlt : ¬ newSize ≤ h.size (getMallocAddress b.addr)) (hc : c ∈ h.blocks) (hx : x ∈ c.toSpan) :
    (h.moved b a newSize).mem x = h.mem x := by
  have hn : x ∉ (newBlock a newSize).toSpan := (newBlock_apart hp hc).symm.not_mem hx
  have ho : x < a + 16 ∨ a + (newBlock a newSize).len ≤ x := by
    rw [Span.mem_iff] at hn
    simp only [newBlock_addr] at hn
    omega
  calc (h.moved b a newSize).mem x
      = (h.malloc newSize (some a)).1.mem x := copy_of_not_usable hs (by bv_omega) ho
    _ = h.mem x := malloc_mem_of_mem hs hp hc hx

theorem moved_contents (ht : h.Tidy) (hb : b ∈ h.blocks) (hs : Fits newSize)
    (hp : h.PoolMay (newSize + sizeofMallocHeader) (some a)) {i : ℕ}
    (hi : i < (h.size (getMallocAddress b.addr)).toNat) :
    (h.moved b a newSize).mem (getMallocAddress a + i) = h.mem (getMallocAddress b.addr + i) := by
  have hl := (ht.headed b hb).size
  have hx : getMallocAddress b.addr + i ∈ b.toSpan := by
    rw [Span.mem_iff, getMallocAddress_eq]
    omega
  calc (h.moved b a newSize).mem (getMallocAddress a + i)
      = (h.malloc newSize (some a)).1.mem (getMallocAddress b.addr + i) := Mem.copy_add i hi
    _ = h.mem (getMallocAddress b.addr + i) := malloc_mem_of_mem hs hp hb hx

theorem malloc_zeroed (hs : Fits newSize) {i : ℕ} (hi : i < newSize.toNat) :
    (h.malloc newSize (some a)).1.mem (getMallocAddress a + i) = 0 := by
  rw [malloc_some, getMallocAddress_eq]
  refine initBlock_usable (by omega) ?_
  rw [toNat_add_header hs]
  omega

theorem moved_zeroed (hs : Fits newSize) {i : ℕ}
    (hl : (h.size (getMallocAddress b.addr)).toNat ≤ i) (hi : i < newSize.toNat) :
    (h.moved b a newSize).mem (getMallocAddress a + i) = 0 := by
  rw [← malloc_zeroed (h := h) (a := a) hs hi]
  refine Mem.copy_of_not_mem ?_
  rw [Span.mem_iff]
  simp only
  omega

end Heap

variable {s : State} {ptr : ℕ} {newSize : SizeT} {pool : Option ℕ} {r : Heap × Call}

theorem untouched_of_none (c : Call) (hf : c.frees = []) (hp : c.ptr = 0) :
    Untouched s (s.heap, c) := by
  refine ⟨rfl, ?_, hf⟩
  unfold State.after
  simp [hf, hp]

/-- What is freed is the block of `ptr`. -/
theorem Good.freed (hg : Good s) (he : Effect s r) (h1 : r.2.frees = [ptr])
    : Freed s ptr r := by
  have hl : ptr ∉ (s.after r).live := by
    rw [State.mem_after, h1]
    simp
  refine ⟨h1, hl, fun b hb ha => hl ?_⟩
  rw [he.live hg]
  exact ⟨b, hb, ha⟩

/-- The other blocks after `realloc`: they are still there, with their bytes. -/
theorem Good.others (hg : Good s) (he : Effect s r)
    (hb : ∀ b ∈ s.heap.blocks, getMallocAddress b.addr ≠ ptr →
      b ∈ r.1.blocks ∧ ∀ x ∈ b.toSpan, r.1.mem x = s.heap.mem x) :
    ∀ p ∈ s.live, p ≠ ptr → p ∈ (s.after r).live ∧ ∀ b ∈ s.heap.blocks, p = b.addr + 16 →
      b ∈ r.1.blocks ∧ ∀ x ∈ b.toSpan, r.1.mem x = s.heap.mem x := by
  intro p hp hne
  obtain ⟨b, hm, rfl⟩ := (hg.live p).mp hp
  refine ⟨(he.live hg _).mpr ⟨b, (hb b hm hne).1, rfl⟩, fun c hc ha => hb c hc ?_⟩
  rw [getMallocAddress_eq, ← ha]
  exact hne

theorem Good.realloc_null_ok (hg : Good s) (hs : Fits newSize)
    (hm : s.heap.PoolMay (newSize + sizeofMallocHeader) pool) :
    ReallocOk s 0 newSize (s.heap.malloc newSize pool) := by
  cases pool with
  | none =>
    have hu : Untouched s (s.heap, {}) := untouched_of_none _ rfl rfl
    refine ⟨fun h => absurd rfl h, fun _ _ => hu, fun h => absurd rfl h, fun h => absurd rfl h,
      fun h => absurd rfl h, fun h => absurd rfl h, fun h => absurd rfl h, fun p hp _ => ?_⟩
    exact ⟨hu.live ▸ hp, fun b hb _ => ⟨hb, fun _ _ => rfl⟩⟩
  | some a =>
    have he : Effect s (s.heap.malloc newSize (some a)) := .alloc newSize a hs hm
    have hb : Heap.newBlock a newSize ∈ (s.heap.malloc newSize (some a)).1.blocks :=
      List.mem_cons_self
    refine ⟨fun h => absurd rfl h, fun _ h => absurd h (getMallocAddress_ne_zero a), fun _ => ?_,
      fun _ i hi => ?_, fun _ i _ hi => Heap.malloc_zeroed hs hi, fun h => absurd rfl h,
      fun h => absurd rfl h, hg.others he fun b hb _ => ?_⟩
    · exact ⟨(he.live hg _).mpr ⟨_, hb, rfl⟩, _, hb, rfl, (Heap.newBlock_len hs a).ge⟩
    · simp [Heap.oldSize] at hi
    · exact ⟨List.mem_cons_of_mem _ hb, fun x hx => Heap.malloc_mem_of_mem hs hm hb hx⟩

theorem Good.freed_ok (hg : Good s) {b : Block} (hb : b ∈ s.heap.blocks) :
    ReallocOk s (getMallocAddress b.addr) 0
      ({ s.heap with blocks := s.heap.blocks.filter (·.addr ≠ b.addr) },
        { frees := [getMallocAddress b.addr] }) := by
  have hz := getMallocAddress_ne_zero b.addr
  have he := Effect.free (s := s) b hb
  refine ⟨fun _ _ => ⟨rfl, hg.freed he rfl⟩, fun h _ => absurd h (not_or.mpr ⟨hz, not_not.mpr rfl⟩),
    fun h => absurd rfl h, fun h => absurd rfl h, fun h => absurd rfl h,
    fun _ h => absurd rfl h, fun _ h => absurd h.symm hz, hg.others he fun c hc hne => ?_⟩
  refine ⟨List.mem_filter.mpr ⟨hc, decide_eq_true fun ha => hne ?_⟩, fun _ _ => rfl⟩
  rw [ha]

theorem Good.kept_ok (hg : Good s) {b : Block} (hb : b ∈ s.heap.blocks) (hn : newSize ≠ 0)
    (hle : newSize ≤ s.heap.size (getMallocAddress b.addr)) :
    ReallocOk s (getMallocAddress b.addr) newSize (s.heap, { ptr := getMallocAddress b.addr }) := by
  have hz := getMallocAddress_ne_zero b.addr
  have hl := (hg.tidy.headed b hb).size
  have he := Effect.none (s := s) { ptr := getMallocAddress b.addr } rfl (.inr (hg.address_mem hb))
  have ho : s.heap.oldSize (getMallocAddress b.addr) = _ := if_neg hz
  refine ⟨fun _ h => absurd h hn, fun _ h => absurd h hz, fun _ => ?_, fun _ _ _ => rfl,
    fun _ i hi hlt => ?_, fun _ _ h => absurd rfl h, fun _ _ => rfl,
    hg.others he fun c hc _ => ⟨hc, fun _ _ => rfl⟩⟩
  · exact ⟨(he.live hg _).mpr ⟨b, hb, rfl⟩, b, hb, rfl, by bv_omega⟩
  · rw [ho] at hi
    bv_omega

theorem Good.failed_ok (hg : Good s) (b : Block) (hn : newSize ≠ 0) :
    ReallocOk s (getMallocAddress b.addr) newSize (s.heap, {}) := by
  have he := Effect.none (s := s) {} rfl (.inl rfl)
  refine ⟨fun _ h => absurd h hn, fun _ _ => untouched_of_none _ rfl rfl, fun h => absurd rfl h,
    fun h => absurd rfl h, fun h => absurd rfl h, fun _ h => absurd rfl h,
    fun _ h => absurd h.symm (getMallocAddress_ne_zero b.addr), ?_⟩
  exact hg.others he fun c hc _ => ⟨hc, fun _ _ => rfl⟩

theorem Good.moved_ok (hg : Good s) {b : Block} {a : ℕ} {c : Call} (hb : b ∈ s.heap.blocks)
    (hs : Fits newSize) (hm : s.heap.PoolMay (newSize + sizeofMallocHeader) (some a))
    (hlt : ¬ newSize ≤ s.heap.size (getMallocAddress b.addr)) (hptr : c.ptr = getMallocAddress a)
    (hf : c.frees = [getMallocAddress b.addr]) (he : Effect s (s.heap.moved b a newSize, c)) :
    ReallocOk s (getMallocAddress b.addr) newSize (s.heap.moved b a newSize, c) := by
  have hza := getMallocAddress_ne_zero a
  have ho : s.heap.oldSize (getMallocAddress b.addr) = _ := if_neg (getMallocAddress_ne_zero b.addr)
  have hne : a ≠ b.addr := (hm.2.2 b hb).2
  have hn : Heap.newBlock a newSize ∈ (s.heap.moved b a newSize).blocks :=
    List.mem_filter.mpr ⟨List.mem_cons_self, decide_eq_true hne⟩
  refine ⟨fun _ h => ?_, fun _ h => absurd (hptr.symm.trans h) hza, fun _ => ?_, fun _ i hi => ?_,
    fun _ i hi hlt => ?_, fun _ _ _ => hg.freed he hf, fun _ h => ?_,
    hg.others he fun d hd hdb => ?_⟩
  · exact absurd (h ▸ Nat.zero_le _) hlt
  · exact ⟨(he.live hg _).mpr ⟨_, hn, hptr.symm⟩, _, hn, hptr, (Heap.newBlock_len hs a).ge⟩
  · rw [ho] at hi
    rw [hptr]
    exact Heap.moved_contents hg.tidy hb hs hm (lt_of_lt_of_le hi (min_le_left _ _))
  · rw [hptr]
    exact Heap.moved_zeroed hs (ho ▸ hi) hlt
  · exact absurd (getMallocAddress_inj.mp (hptr.symm.trans h)) hne
  · refine ⟨List.mem_filter.mpr ⟨List.mem_cons_of_mem _ hd, decide_eq_true fun ha => hdb ?_⟩,
      fun x hx => Heap.moved_mem hs hm hlt hd hx⟩
    rw [ha]

/-- `realloc` in a heap in order. -/
theorem Good.realloc_ok (hg : Good s) (hp : s.Passable ptr) (hs : Fits newSize)
    (hm : s.heap.PoolMay (newSize + sizeofMallocHeader) pool) :
    ∃ r, s.heap.realloc ptr newSize pool = some r ∧ ReallocOk s ptr newSize r := by
  obtain ⟨r, hr, hc⟩ := hg.tidy.realloc_cases (hg.passable hp) (.inr hs) hm
  have he := hg.effect_realloc (.inr hs) hp hm hr
  refine ⟨r, hr, ?_⟩
  cases hc with
  | malloc => exact hg.realloc_null_ok hs hm
  | free b hb hn => exact hn ▸ hg.freed_ok hb
  | keep b hb hn hle => exact hg.kept_ok hb hn hle
  | fail b hb hn hnone => exact hg.failed_ok b hn
  | move b hb a ha hlt =>
    subst ha
    exact hg.moved_ok hb hs hm hlt rfl rfl he

/-- **`realloc` after any calls that have not wrapped around** preserves the data and fails
cleanly. -/
theorem realloc_ok_of_unwrapped (m : Mem) (as : List Action)
    (hu : system.Meets Unwrapped (.initial m) as) (he : system.exec (.initial m) as = some s)
    (hp : s.Passable ptr) (hs : newSize.toNat + 16 ≤ 2 ^ 64 - 1)
    (hm : s.heap.PoolMay (newSize + sizeofMallocHeader) pool) :
    ∃ r, s.heap.realloc ptr newSize pool = some r ∧ ReallocOk s ptr newSize r := by
  have hg : Good s := (good_keeps.always (good_initial m) hu).last he
  exact hg.realloc_ok hp (by unfold Fits; omega) hm

section Runs

theorem poolMay_initial {m : Mem} {n : SizeT} (hn : 4096 + n.toNat ≤ 2 ^ 64) :
    (State.initial m).heap.PoolMay n (some 4096) :=
  ⟨by decide, hn, fun b hb => absurd hb List.not_mem_nil⟩

theorem passable_malloc {m : Mem} {size : SizeT} :
    ((State.initial m).after ((State.initial m).heap.malloc size (some 4096))).Passable 4112 := by
  refine .inr (State.mem_after.mpr ⟨.inr ⟨getMallocAddress_ne_zero 4096, rfl⟩, ?_⟩)
  exact List.not_mem_nil

/-- A block of 100 bytes grows to 200 and moves. -/
theorem realloc_ok_of_unwrapped_grow :
    let s := (State.initial fun _ => 0).after
      ((State.initial fun _ => 0).heap.malloc 100 (some 4096))
    ∃ r, s.heap.realloc 4112 200 (some 8192) = some r ∧ ReallocOk s 4112 200 r := by
  refine realloc_ok_of_unwrapped (fun _ => 0) [.malloc 100 (some 4096)]
    (fun _ _ => ⟨.inr (by decide), trivial⟩) (exec_malloc (poolMay_initial (by decide)))
    passable_malloc (by decide) ⟨by decide, by decide, fun b hb => ?_⟩
  obtain rfl := List.mem_singleton.mp hb
  exact ⟨.inr (by decide), by decide⟩

/-- **After `malloc` of 2 ^ 64 - 8 bytes** `realloc` gives the same eight bytes for a hundred. -/
theorem not_realloc_ok_wrapped :
    ¬ ∀ m as s ptr (newSize : SizeT) pool, system.exec (.initial m) as = some s → s.Passable ptr →
      newSize.toNat + 16 ≤ 2 ^ 64 - 1 → s.heap.PoolMay (newSize + sizeofMallocHeader) pool →
      ∃ r, s.heap.realloc ptr newSize pool = some r ∧ ReallocOk s ptr newSize r := by
  intro h
  have hle : (100 : SizeT) ≤ ((State.initial fun _ => 0).heap.malloc 0xFFFFFFFFFFFFFFF8
      (some 4096)).1.size (getMallocAddress 4096) := by
    rw [Heap.malloc_size]
    decide
  obtain ⟨r, hr, hok⟩ := h (fun _ => 0) [.malloc 0xFFFFFFFFFFFFFFF8 (some 4096)] _
    (getMallocAddress 4096) 100 none (exec_malloc (poolMay_initial (by decide))) passable_malloc
    (by decide) trivial
  cases hr.symm.trans
    (Heap.realloc_le (getMallocAddress_ne_zero _) (by decide) Heap.malloc_tags hle)
  obtain ⟨-, b, hb, -, hlen⟩ := hok.enough (getMallocAddress_ne_zero _)
  obtain rfl := List.mem_singleton.mp hb
  exact absurd hlen (by decide)

end Runs

end Dpp.Malloc
