import Dpp.Malloc.Model
import Mathlib.Data.List.Pairwise

/-!
# The blocks of the heap

A call whose size fits under the header keeps every block headed: its tag is there and its `Size`
and the header are as long as the block.

* `Heap.Headed`: the header of one block.
* `Good`: the blocks are apart and headed, and the live pointers point into them.
* **`Good.step`**: a step that does not wrap around keeps it.
-/

namespace Dpp.Malloc

open Lib

@[simp] theorem getMallocHeader_getMallocAddress (a : ℕ) :
    getMallocHeader (getMallocAddress a) = a := by
  unfold getMallocHeader getMallocAddress
  omega

@[simp] theorem sizeofMallocHeader_toNat : sizeofMallocHeader.toNat = 16 := rfl

theorem getMallocAddress_eq (a : ℕ) : getMallocAddress a = a + 16 := rfl

theorem getMallocAddress_ne_zero (a : ℕ) : getMallocAddress a ≠ 0 := by
  rw [getMallocAddress_eq]
  omega

theorem getMallocAddress_inj {a b : ℕ} : getMallocAddress a = getMallocAddress b ↔ a = b := by
  rw [getMallocAddress_eq, getMallocAddress_eq]
  omega

/-- The size and the header fit into a `size_t`. -/
def Fits (size : SizeT) : Prop := size.toNat + 16 < 2 ^ 64

instance (size : SizeT) : Decidable (Fits size) := inferInstanceAs (Decidable (_ < _))

theorem toNat_add_header {size : SizeT} (hs : Fits size) :
    (size + sizeofMallocHeader).toNat = size.toNat + 16 := by
  rw [BitVec.toNat_add]
  exact Nat.mod_eq_of_lt hs

/-! ## What `malloc` writes -/

section InitBlock

variable {m : Mem} {a x : ℕ} {n size : SizeT}

theorem initBlock_of_not_mem (hn : 16 ≤ n.toNat) (h : x ∉ Span.mk a n.toNat) :
    initBlock m a n size x = m x := by
  rw [Span.mem_iff] at h
  unfold initBlock Mem.writeLE Mem.fill
  rw [Mem.put_of_not_mem, Mem.put_of_not_mem, Mem.put_of_not_mem h]
  all_goals
    rw [Span.mem_iff]
    simp only at h ⊢
    omega

/-- The bytes after the header are zero. -/
theorem initBlock_usable (hl : a + 16 ≤ x) (hr : x < a + n.toNat) :
    initBlock m a n size x = 0 := by
  unfold initBlock Mem.writeLE Mem.fill
  rw [Mem.put_of_not_mem, Mem.put_of_not_mem, Mem.put_of_mem (by omega) hr]
  all_goals
    rw [Span.mem_iff]
    simp only
    omega

theorem initBlock_tags : (initBlock m a n size).readLE a 4 = kcrtPoolDefaultTag := by
  unfold initBlock
  rw [Mem.writeLE, Mem.readLE_put_of_apart (.inl (by simp only; omega)), Mem.readLE_writeLE]
  decide

theorem initBlock_size : (initBlock m a n size).readLE (a + 8) 8 = size.toNat := by
  unfold initBlock
  rw [Mem.readLE_writeLE]
  exact Nat.mod_eq_of_lt size.isLt

end InitBlock

/-! ## Headers -/

def Block.Apart (b c : Block) : Prop := b.toSpan.Apart c.toSpan

theorem Block.Apart.symm {b c : Block} (h : b.Apart c) : c.Apart b := Span.Apart.symm h

instance : Std.Symm Block.Apart := ⟨fun _ _ h => h.symm⟩

namespace Heap

/-- The header of `b` carries the tag and the size of the rest of `b`. -/
structure Headed (h : Heap) (b : Block) : Prop where
  tags : h.tags (getMallocAddress b.addr) = kcrtPoolDefaultTag
  size : (h.size (getMallocAddress b.addr)).toNat + 16 = b.len
  len_lt : b.len < 2 ^ 64

variable {h h' : Heap} {b : Block} {ptr : ℕ}

theorem tags_congr (hm : ∀ x ∈ Span.mk b.addr 16, h'.mem x = h.mem x) :
    h'.tags (getMallocAddress b.addr) = h.tags (getMallocAddress b.addr) := by
  unfold tags
  rw [getMallocHeader_getMallocAddress]
  exact Mem.readLE_of_within hm ⟨le_refl _, by simp only; omega⟩

theorem size_congr (hm : ∀ x ∈ Span.mk b.addr 16, h'.mem x = h.mem x) :
    h'.size (getMallocAddress b.addr) = h.size (getMallocAddress b.addr) := by
  unfold size
  rw [getMallocHeader_getMallocAddress]
  congr 1
  exact Mem.readLE_of_within hm ⟨by simp only; omega, by simp only; omega⟩

namespace Headed

/-- A header that is left alone. -/
theorem congr (hb : h.Headed b) (hm : ∀ x ∈ Span.mk b.addr 16, h'.mem x = h.mem x) :
    h'.Headed b :=
  ⟨(tags_congr hm).trans hb.tags, by rw [size_congr hm]; exact hb.size, hb.len_lt⟩

theorem fits (hb : h.Headed b) : Fits (h.size (getMallocAddress b.addr)) := by
  have := hb.len_lt
  unfold Fits
  rw [hb.size]
  exact this

theorem getMallocSize (hb : h.Headed b) :
    h.getMallocSize (getMallocAddress b.addr) = some (h.size (getMallocAddress b.addr)) := by
  unfold Heap.getMallocSize
  rw [if_neg (not_not.mpr hb.tags)]

end Headed

/-! ## The heap between two calls -/

/-- The blocks do not overlap, and every one of them is headed. -/
structure Tidy (h : Heap) : Prop where
  apart : h.blocks.Pairwise Block.Apart
  headed : ∀ b ∈ h.blocks, h.Headed b

/-- The block `malloc` adds. -/
def newBlock (a : ℕ) (size : SizeT) : Block where
  addr := a
  len := (size + sizeofMallocHeader).toNat
  paged := pageSize < size + sizeofMallocHeader

/-- What `malloc` writes: the whole block, then the tag and the size. -/
def newBlockWrites (a : ℕ) (size : SizeT) : List Span :=
  [(newBlock a size).toSpan, ⟨a, 4⟩, ⟨a + 8, 8⟩]

theorem malloc_some (h : Heap) (size : SizeT) (a : ℕ) :
    h.malloc size (some a) =
      ({ mem := initBlock h.mem a (size + sizeofMallocHeader) size
         blocks := newBlock a size :: h.blocks },
        { ptr := getMallocAddress a, writes := newBlockWrites a size }) := rfl

@[simp] theorem newBlock_addr (a : ℕ) (size : SizeT) : (newBlock a size).addr = a := rfl

theorem newBlock_len {size : SizeT} (hs : Fits size) (a : ℕ) :
    (newBlock a size).len = size.toNat + 16 := toNat_add_header hs

namespace Tidy

/-- The memory may change anywhere but in the headers. -/
theorem write (ht : h.Tidy) {m : Mem}
    (hm : ∀ b ∈ h.blocks, ∀ x ∈ Span.mk b.addr 16, m x = h.mem x) : Heap.Tidy { h with mem := m } :=
  ⟨ht.apart, fun b hb => (ht.headed b hb).congr (hm b hb)⟩

theorem filter (ht : h.Tidy) (p : Block → Bool) :
    Heap.Tidy { h with blocks := h.blocks.filter p } :=
  ⟨ht.apart.filter p, fun b hb => (ht.headed b (List.mem_filter.mp hb).1).congr fun _ _ => rfl⟩

end Tidy

/-! ## `malloc` -/

section Malloc

variable {size : SizeT} {a x : ℕ}

theorem newBlock_apart (hp : h.PoolMay (size + sizeofMallocHeader) (some a)) (hb : b ∈ h.blocks) :
    (newBlock a size).Apart b := (hp.2.2 b hb).1

/-- A new block that fits is all the memory `malloc` changes. -/
theorem malloc_mem_of_not_mem (hs : Fits size) (hx : x ∉ (newBlock a size).toSpan) :
    (h.malloc size (some a)).1.mem x = h.mem x := by
  refine initBlock_of_not_mem ?_ hx
  rw [toNat_add_header hs]
  omega

theorem malloc_mem_of_mem (hs : Fits size) (hp : h.PoolMay (size + sizeofMallocHeader) (some a))
    (hb : b ∈ h.blocks) (hx : x ∈ b.toSpan) : (h.malloc size (some a)).1.mem x = h.mem x :=
  malloc_mem_of_not_mem hs ((newBlock_apart hp hb).symm.not_mem hx)

/-- The tag `malloc` records. -/
theorem malloc_tags :
    (h.malloc size (some a)).1.tags (getMallocAddress a) = kcrtPoolDefaultTag := by
  unfold tags
  rw [getMallocHeader_getMallocAddress, malloc_some, initBlock_tags]

/-- The size `malloc` records. -/
theorem malloc_size : (h.malloc size (some a)).1.size (getMallocAddress a) = size := by
  unfold Heap.size
  rw [getMallocHeader_getMallocAddress, malloc_some, initBlock_size]
  simp

theorem malloc_headed (hs : Fits size) :
    (h.malloc size (some a)).1.Headed (newBlock a size) :=
  ⟨malloc_tags, by rw [newBlock_addr, malloc_size, newBlock_len hs],
    (size + sizeofMallocHeader).isLt⟩

theorem Tidy.malloc (ht : h.Tidy) (hs : Fits size)
    (hp : h.PoolMay (size + sizeofMallocHeader) (some a)) : (h.malloc size (some a)).1.Tidy := by
  refine ⟨List.pairwise_cons.mpr ⟨fun b hb => newBlock_apart hp hb, ht.apart⟩, fun b hb => ?_⟩
  rcases List.mem_cons.mp hb with rfl | hb
  · exact malloc_headed hs
  · refine (ht.headed b hb).congr fun x hx => malloc_mem_of_mem hs hp hb ?_
    have := (ht.headed b hb).size
    rw [Span.mem_iff] at hx ⊢
    simp only at hx
    omega

end Malloc

/-! ## `free` -/

theorem Tidy.free_eq (ht : h.Tidy) (hb : b ∈ h.blocks) :
    h.free (getMallocAddress b.addr) =
      some ({ h with blocks := h.blocks.filter (·.addr ≠ b.addr) },
        { frees := [getMallocAddress b.addr] }) := by
  unfold free exFreePool
  rw [if_neg (getMallocAddress_ne_zero _), if_neg (not_not.mpr (ht.headed b hb).tags),
    getMallocHeader_getMallocAddress, if_pos ⟨b, hb, rfl⟩]
  rfl

/-! ## `realloc` -/

section Realloc

variable {newSize : SizeT} {a x : ℕ} {pool : Option ℕ}

/-- The heap after `realloc` has moved `b` to `a`. -/
def moved (h : Heap) (b : Block) (a : ℕ) (newSize : SizeT) : Heap where
  mem := (h.malloc newSize (some a)).1.mem.copy (getMallocAddress a) (getMallocAddress b.addr)
    (h.size (getMallocAddress b.addr)).toNat
  blocks := (newBlock a newSize :: h.blocks).filter (·.addr ≠ b.addr)

theorem realloc_null : h.realloc 0 newSize pool = some (h.malloc newSize pool) := by
  unfold realloc
  rw [if_pos rfl]

theorem realloc_zero :
    h.realloc (getMallocAddress b.addr) 0 pool = h.free (getMallocAddress b.addr) := by
  unfold realloc
  rw [if_neg (getMallocAddress_ne_zero _), if_pos rfl]

/-- The recorded size is large enough. -/
theorem realloc_le (hz : ptr ≠ 0) (hn : newSize ≠ 0) (ht : h.tags ptr = kcrtPoolDefaultTag)
    (hle : newSize ≤ h.size ptr) : h.realloc ptr newSize pool = some (h, { ptr }) := by
  unfold realloc getMallocSize
  rw [if_neg hz, if_neg hn, if_neg (not_not.mpr ht), Option.bind_some, if_pos hle]

theorem Tidy.realloc_none (ht : h.Tidy) (hb : b ∈ h.blocks) (hn : newSize ≠ 0)
    (hlt : ¬ newSize ≤ h.size (getMallocAddress b.addr)) :
    h.realloc (getMallocAddress b.addr) newSize none = some (h, {}) := by
  unfold realloc
  rw [if_neg (getMallocAddress_ne_zero _), if_neg hn, (ht.headed b hb).getMallocSize,
    Option.bind_some, if_neg hlt]
  rfl

/-- The copy stays between the header and the end of the new block. -/
theorem copy_of_not_usable {m : Mem} {s n : ℕ} (hs : Fits newSize) (hn : n ≤ newSize.toNat)
    (hx : x < a + 16 ∨ a + (newBlock a newSize).len ≤ x) :
    m.copy (getMallocAddress a) s n x = m x := by
  refine Mem.copy_of_not_mem ?_
  rw [newBlock_len hs] at hx
  rw [Span.mem_iff, getMallocAddress_eq]
  simp only
  omega

theorem Tidy.copied (ht : h.Tidy) (hs : Fits newSize)
    (hp : h.PoolMay (newSize + sizeofMallocHeader) (some a)) {s n : ℕ} (hn : n ≤ newSize.toNat) :
    Heap.Tidy { (h.malloc newSize (some a)).1 with
      mem := (h.malloc newSize (some a)).1.mem.copy (getMallocAddress a) s n } := by
  have hm := ht.malloc hs hp
  refine hm.write fun c hc x hx => copy_of_not_usable hs hn ?_
  rw [Span.mem_iff] at hx
  simp only at hx
  rcases List.mem_cons.mp hc with rfl | hc
  · exact .inl hx.2
  · have hsz := (ht.headed c hc).size
    have hap : Span.Apart (newBlock a newSize).toSpan c.toSpan := newBlock_apart hp hc
    unfold Span.Apart at hap
    change a + _ ≤ c.addr ∨ c.addr + c.len ≤ a at hap
    omega

theorem Tidy.realloc_move (ht : h.Tidy) (hb : b ∈ h.blocks) (hs : Fits newSize)
    (hp : h.PoolMay (newSize + sizeofMallocHeader) (some a))
    (hlt : ¬ newSize ≤ h.size (getMallocAddress b.addr)) :
    h.realloc (getMallocAddress b.addr) newSize (some a) =
      some (h.moved b a newSize,
        { ptr := getMallocAddress a
          writes := newBlockWrites a newSize ++
            [⟨getMallocAddress a, (h.size (getMallocAddress b.addr)).toNat⟩]
          frees := [getMallocAddress b.addr] }) := by
  have hn : newSize ≠ 0 := by
    rintro rfl
    exact hlt (Nat.zero_le _)
  have hc := ht.copied hs hp (s := getMallocAddress b.addr)
    (n := (h.size (getMallocAddress b.addr)).toNat) (by bv_omega)
  unfold realloc
  rw [if_neg (getMallocAddress_ne_zero _), if_neg hn, (ht.headed b hb).getMallocSize,
    Option.bind_some, if_neg hlt]
  refine (if_pos (getMallocAddress_ne_zero a)).trans ?_
  unfold moveTo
  simp only
  rw [malloc_some] at hc ⊢
  rw [hc.free_eq (List.mem_cons_of_mem _ hb)]
  rfl

theorem Tidy.moved (ht : h.Tidy) (hs : Fits newSize)
    (hp : h.PoolMay (newSize + sizeofMallocHeader) (some a))
    (hlt : ¬ newSize ≤ h.size (getMallocAddress b.addr)) : (h.moved b a newSize).Tidy :=
  (ht.copied hs hp (by bv_omega)).filter _

/-- How `realloc` of a pointer ends in a heap in order, path by path. -/
inductive Reallocates (h : Heap) (newSize : SizeT) (pool : Option ℕ) : ℕ → Heap × Call → Prop
  | malloc : Reallocates h newSize pool 0 (h.malloc newSize pool)
  | free (b : Block) (hb : b ∈ h.blocks) (hn : newSize = 0) :
      Reallocates h newSize pool (getMallocAddress b.addr)
        ({ h with blocks := h.blocks.filter (·.addr ≠ b.addr) },
          { frees := [getMallocAddress b.addr] })
  | keep (b : Block) (hb : b ∈ h.blocks) (hn : newSize ≠ 0)
      (hle : newSize ≤ h.size (getMallocAddress b.addr)) :
      Reallocates h newSize pool (getMallocAddress b.addr) (h, { ptr := getMallocAddress b.addr })
  | fail (b : Block) (hb : b ∈ h.blocks) (hn : newSize ≠ 0) (hp : pool = none) :
      Reallocates h newSize pool (getMallocAddress b.addr) (h, {})
  | move (b : Block) (hb : b ∈ h.blocks) (a : ℕ) (hp : pool = some a)
      (hlt : ¬ newSize ≤ h.size (getMallocAddress b.addr)) :
      Reallocates h newSize pool (getMallocAddress b.addr)
        (h.moved b a newSize,
          { ptr := getMallocAddress a
            writes := newBlockWrites a newSize ++
              [⟨getMallocAddress a, (h.size (getMallocAddress b.addr)).toNat⟩]
            frees := [getMallocAddress b.addr] })

/-- **What `realloc` does** when the size fits or there is no block. -/
theorem Tidy.realloc_cases (ht : h.Tidy)
    (hptr : ptr = 0 ∨ ∃ b ∈ h.blocks, getMallocAddress b.addr = ptr)
    (hs : pool = none ∨ Fits newSize) (hp : h.PoolMay (newSize + sizeofMallocHeader) pool) :
    ∃ r, h.realloc ptr newSize pool = some r ∧ h.Reallocates newSize pool ptr r := by
  rcases hptr with rfl | ⟨b, hb, rfl⟩
  · exact ⟨_, realloc_null, .malloc⟩
  by_cases hn : newSize = 0
  · subst hn
    rw [realloc_zero, ht.free_eq hb]
    exact ⟨_, rfl, .free b hb rfl⟩
  by_cases hle : newSize ≤ h.size (getMallocAddress b.addr)
  · exact ⟨_, realloc_le (getMallocAddress_ne_zero _) hn (ht.headed b hb).tags hle,
      .keep b hb hn hle⟩
  cases pool with
  | none => exact ⟨_, ht.realloc_none hb hn hle, .fail b hb hn rfl⟩
  | some a =>
    have hs : Fits newSize := hs.resolve_left (Option.some_ne_none a)
    exact ⟨_, ht.realloc_move hb hs hp hle, .move b hb a rfl hle⟩

end Realloc

end Heap

end Dpp.Malloc
