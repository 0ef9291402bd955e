import Dpp.Lib.Align
import Dpp.Malloc.Sizes
import Mathlib.Algebra.Ring.Divisibility.Basic

/-!
# Aligned allocations

The operator `new[]` that EASTL calls with an alignment and an offset drops both.

* `Heap.newArrayAligned`, `Heap.deleteArray`: the operators.
* `Asserted`: what `allocate_memory` asserts of the pointer; **`asserted_iff`**: the pointer less
  the offset is a multiple of the alignment.
* `Served`: the pointer is aligned, has its bytes and can be deleted.
* **`serves_iff_suits`**: so it is in every heap exactly if the alignment divides the distance of
  the addresses the pool gives blocks at, and the offset that of the first pointer.
-/

namespace Dpp.Malloc

open Lib

/-- A power of two. -/
structure Alignment where
  toSizeT : SizeT
  exists_pow : ∃ k, toSizeT.toNat = 2 ^ k

namespace Heap

/-- `operator new[](size, alignment, alignmentOffset, ...)`. -/
def newArrayAligned (h : Heap) (size _alignment _alignmentOffset : SizeT) (pool : Option ℕ) :
    Heap × Call := h.malloc size pool

/-- `operator delete[]`. -/
def deleteArray (h : Heap) (ptr : ℕ) : Option (Heap × Call) := h.free ptr

end Heap

/-- What `allocate_memory` asserts of its `result`. -/
def Asserted (result : ℕ) (alignment alignmentOffset : SizeT) : Prop :=
  let resultMinusOffset := BitVec.ofNat 64 result - alignmentOffset
  resultMinusOffset &&& ~~~(alignment - 1) = resultMinusOffset

/-- The distance of the addresses at which the pool gives blocks of `n` bytes. -/
def granularity (n : SizeT) : ℕ := if n < pageSize then 16 else pageSize.toNat

/-- The pool gives blocks at such addresses. -/
def PoolAligned (n : SizeT) (pool : Option ℕ) : Prop := ∀ a ∈ pool, granularity n ∣ a

/-- What the caller gets for `size` bytes. -/
structure Served (size alignment offset : SizeT) (r : Heap × Call) : Prop where
  aligned : ((r.2.ptr : ℤ) - offset.toNat) % alignment.toNat = 0
  asserted : Asserted r.2.ptr alignment offset
  usable : Gives size.toNat r
  tags : r.1.tags r.2.ptr = kcrtPoolDefaultTag
  deletable : (r.1.deleteArray r.2.ptr).isSome

/-- In every heap, whatever block the pool gives. -/
def Serves (size : SizeT) (alignment : Alignment) (offset : SizeT) : Prop :=
  ∀ (h : Heap) (pool : Option ℕ), h.PoolMay (size + sizeofMallocHeader) pool →
    PoolAligned (size + sizeofMallocHeader) pool →
      let r := h.newArrayAligned size alignment.toSizeT offset pool
      r.2.ptr ≠ 0 → Served size alignment.toSizeT offset r

/-- There is room for the block at the `k`-th address. -/
def Room (k : ℕ) (n : SizeT) : Prop := k * granularity n + n.toNat ≤ 2 ^ 64

/-- The header fits; the first pointer is aligned, and the others are as far apart as the alignment
needs. -/
structure Suits (size : SizeT) (alignment : Alignment) (offset : SizeT) : Prop where
  fits : Fits size
  first : Room 1 (size + sizeofMallocHeader) →
    (alignment.toSizeT.toNat : ℤ) ∣ granularity (size + sizeofMallocHeader) + 16 - offset.toNat
  next : Room 2 (size + sizeofMallocHeader) →
    alignment.toSizeT.toNat ∣ granularity (size + sizeofMallocHeader)

/-! ## The assertion -/

theorem Alignment.dvd (alignment : Alignment) : alignment.toSizeT.toNat ∣ 2 ^ 64 := by
  obtain ⟨k, hk⟩ := alignment.exists_pow
  have hlt : 2 ^ k < 2 ^ 64 := hk ▸ alignment.toSizeT.isLt
  rw [hk]
  exact Nat.pow_dvd_pow 2 ((Nat.pow_lt_pow_iff_right Nat.one_lt_two).mp hlt).le

/-- **`allocate_memory` asserts** that the alignment divides the pointer less the offset. -/
theorem asserted_iff {ptr : ℕ} (alignment : Alignment) {offset : SizeT} :
    Asserted ptr alignment.toSizeT offset ↔
      (alignment.toSizeT.toNat : ℤ) ∣ ptr - offset.toNat := by
  obtain ⟨k, hk⟩ := alignment.exists_pow
  have hmod : ((ptr % 2 ^ 64 : ℕ) : ℤ) = ptr - (2 ^ 64 : ℕ) * (ptr / 2 ^ 64 : ℕ) := by
    have := Nat.mod_add_div ptr (2 ^ 64)
    omega
  have hsub : ((ptr % 2 ^ 64 : ℕ) : ℤ) - offset.toNat =
      ptr - offset.toNat - (2 ^ 64 : ℕ) * (ptr / 2 ^ 64 : ℕ) := by
    rw [hmod]
    ring
  have hwrap : (alignment.toSizeT.toNat : ℤ) ∣ (2 ^ 64 : ℕ) * (ptr / 2 ^ 64 : ℕ) :=
    Dvd.dvd.mul_right (Int.natCast_dvd_natCast.mpr alignment.dvd) _
  refine (and_not_pred_eq_iff hk).trans ?_
  rw [← hk, dvd_toNat_sub_iff alignment.dvd, BitVec.toNat_ofNat, hsub]
  exact dvd_sub_left hwrap

/-! ## The addresses -/

variable {size offset : SizeT} {alignment : Alignment} {n : SizeT}

theorem granularity_pos (n : SizeT) : 0 < granularity n := by
  unfold granularity
  split_ifs <;> decide

/-- The pool of an empty heap gives what has room. -/
theorem poolMay_empty {m : Mem} {a : ℕ} (ha : a ≠ 0) (hr : a + n.toNat ≤ 2 ^ 64) :
    Heap.PoolMay { mem := m } n (some a) := ⟨ha, hr, fun _ hb => absurd hb List.not_mem_nil⟩

/-- What a block at `a` leads to. -/
theorem Serves.served (h : Serves size alignment offset) {a : ℕ} (ha : a ≠ 0)
    (hr : a + (size + sizeofMallocHeader).toNat ≤ 2 ^ 64)
    (hg : granularity (size + sizeofMallocHeader) ∣ a) :
    Served size alignment.toSizeT offset (Heap.malloc { mem := fun _ => 0 } size (some a)) := by
  refine h { mem := fun _ => 0 } (some a) (poolMay_empty ha hr) ?_ (getMallocAddress_ne_zero a)
  rintro b ⟨⟩
  exact hg

/-- A size that wraps around gets a block that is too short. -/
theorem Serves.fits (h : Serves size alignment offset) : Fits size := by
  by_contra hn
  have hwrap : (size + sizeofMallocHeader).toNat < 16 := by
    unfold Fits at hn
    have := size.isLt
    rw [BitVec.toNat_add, sizeofMallocHeader_toNat]
    omega
  have hg : granularity (size + sizeofMallocHeader) = 16 :=
    if_pos (BitVec.lt_def.mpr (hwrap.trans (by decide)))
  have hserved := h.served (a := 16) (by decide) (by omega) (hg ▸ dvd_rfl)
  exact hn (len_of_gives (poolMay_empty (m := fun _ => 0) (by decide) (by omega))
    (fun _ hb => hb) hserved.usable)

theorem served_malloc {h : Heap} {a : ℕ} (hs : Fits size)
    (hd : (alignment.toSizeT.toNat : ℤ) ∣ (a + 16 : ℕ) - offset.toNat) :
    Served size alignment.toSizeT offset (h.malloc size (some a)) := by
  have htags : (h.malloc size (some a)).1.tags (getMallocAddress a) = kcrtPoolDefaultTag :=
    Heap.malloc_tags
  have hfree : ((h.malloc size (some a)).1.free (getMallocAddress a)).isSome := by
    unfold Heap.free Heap.exFreePool
    rw [if_neg (getMallocAddress_ne_zero a), if_neg (not_not.mpr htags),
      if_pos ⟨Heap.newBlock a size, List.mem_cons_self, (getMallocHeader_getMallocAddress a).symm⟩]
    rfl
  exact ⟨Int.emod_eq_zero_of_dvd hd, (asserted_iff alignment).mpr hd, gives_malloc (.inr hs),
    htags, hfree⟩

/-- **The operator serves its callers exactly if** the size, the alignment and the offset suit the
header and the pool. -/
theorem serves_iff_suits (size : SizeT) (alignment : Alignment) (offset : SizeT) :
    Serves size alignment offset ↔ Suits size alignment offset := by
  have hmul := forall_mul_add_iff (g := granularity (size + sizeofMallocHeader))
    (n := (size + sizeofMallocHeader).toNat) (N := 2 ^ 64) (c := 16 - offset.toNat)
    (d := alignment.toSizeT.toNat)
  have hassoc : ∀ z : ℤ, z + (16 - offset.toNat) = z + 16 - offset.toNat := fun z => by ring
  simp only [hassoc, Int.natCast_dvd_natCast] at hmul
  constructor
  · intro h
    obtain ⟨hfirst, hnext⟩ := hmul.mp fun q hq hr => by
      have ha : q * granularity (size + sizeofMallocHeader) ≠ 0 :=
        (Nat.mul_pos hq (granularity_pos _)).ne'
      exact Int.dvd_of_emod_eq_zero (h.served ha hr (Nat.dvd_mul_left ..)).aligned
    exact ⟨h.fits, hfirst, hnext⟩
  · rintro ⟨hfits, hfirst, hnext⟩ h pool hp hg r hne
    cases pool with
    | none => exact absurd rfl hne
    | some a =>
      obtain ⟨q, rfl⟩ := hg a rfl
      rw [Nat.mul_comm] at hp
      have hq : 0 < q := Nat.pos_of_ne_zero fun hz => hp.1 (by rw [hz, Nat.zero_mul])
      have hd := hmul.mpr ⟨hfirst, hnext⟩ q hq hp.2.1
      rw [Nat.mul_comm] at hd
      exact served_malloc hfits hd

/-- With more than one address to choose from, the alignment divides their distance, and the offset
is the size of the header modulo the alignment. -/
theorem suits_iff_of_room (hs : Fits size) (hr : Room 2 (size + sizeofMallocHeader)) :
    Suits size alignment offset ↔
      alignment.toSizeT.toNat ∣ granularity (size + sizeofMallocHeader) ∧
        (alignment.toSizeT.toNat : ℤ) ∣ 16 - offset.toNat := by
  have hfirst : Room 1 (size + sizeofMallocHeader) := by
    unfold Room at hr ⊢
    omega
  have hassoc : (granularity (size + sizeofMallocHeader) : ℤ) + 16 - offset.toNat =
      granularity (size + sizeofMallocHeader) + (16 - offset.toNat) := by ring
  constructor
  · intro h
    have hnext := h.next hr
    have hd := h.first hfirst
    rw [hassoc] at hd
    exact ⟨hnext, (Int.dvd_add_right (Int.natCast_dvd_natCast.mpr hnext)).mp hd⟩
  · rintro ⟨hnext, hd⟩
    refine ⟨hs, fun _ => ?_, fun _ => hnext⟩
    rw [hassoc]
    exact Int.dvd_add (Int.natCast_dvd_natCast.mpr hnext) hd

/-- **32 bytes on a boundary of 32**: the pointer is 16 behind one. -/
theorem not_serves_32 : ¬ ∀ size alignment offset, Serves size alignment offset := by
  intro h
  have hserved := (h 32 ⟨32, 5, rfl⟩ 0).served (a := 0x1000) (by decide) (by decide) (by decide)
  exact absurd hserved.aligned (by decide)

end Dpp.Malloc
