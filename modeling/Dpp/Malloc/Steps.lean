import Dpp.Malloc.Blocks

/-!
# Sequences of calls

* `Unwrapped`: the call gets no block, or its size and the header fit into a `size_t`.
* `Good`: the blocks are in order and the live pointers are the ones into them.
* `Good.call_cases`: what an unwrapped call does; **`good_keeps`**: it keeps `Good`.
-/

namespace Dpp.Malloc

open Lib

/-- No block is given for a size that wraps around when the header is added. -/
def Unwrapped (_ : State) : Action → Prop
  | .malloc size pool => pool = none ∨ Fits size
  | .calloc nmemb size pool => pool = none ∨ Fits (nmemb * size)
  | .realloc _ newSize pool => pool = none ∨ Fits newSize
  | .free _ | .store .. => True

structure Good (s : State) : Prop where
  tidy : s.heap.Tidy
  live : ∀ p, p ∈ s.live ↔ ∃ b ∈ s.heap.blocks, getMallocAddress b.addr = p

variable {s s' : State} {a : Action} {r : Heap × Call}

theorem Good.address_mem (hg : Good s) {b : Block} (hb : b ∈ s.heap.blocks) :
    getMallocAddress b.addr ∈ s.live := (hg.live _).mpr ⟨b, hb, rfl⟩

/-- A pointer that may be passed is `NULL` or the address of a block. -/
theorem Good.passable (hg : Good s) {ptr : ℕ} (hp : s.Passable ptr) :
    ptr = 0 ∨ ∃ b ∈ s.heap.blocks, getMallocAddress b.addr = ptr :=
  hp.imp_right (hg.live ptr).mp

/-- The calls that may be made, one by one. -/
inductive Called (s : State) : Action → Heap × Call → Prop
  | malloc {size : SizeT} {pool : Option ℕ}
      (hp : s.heap.PoolMay (size + sizeofMallocHeader) pool) :
      Called s (.malloc size pool) (s.heap.malloc size pool)
  | calloc {nmemb size : SizeT} {pool : Option ℕ}
      (hp : s.heap.PoolMay (nmemb * size + sizeofMallocHeader) pool) :
      Called s (.calloc nmemb size pool) (s.heap.malloc (nmemb * size) pool)
  | realloc {ptr : ℕ} {newSize : SizeT} {pool : Option ℕ} {r : Heap × Call}
      (hptr : s.Passable ptr) (hp : s.heap.PoolMay (newSize + sizeofMallocHeader) pool)
      (h : s.heap.realloc ptr newSize pool = some r) : Called s (.realloc ptr newSize pool) r
  | free {ptr : ℕ} {r : Heap × Call} (hptr : s.Passable ptr) (h : s.heap.free ptr = some r) :
      Called s (.free ptr) r
  | store {addr : ℕ} {byte : UInt8} (hs : s.Storable addr) : Called s (.store addr byte)
      ({ s.heap with mem := Function.update s.heap.mem addr byte }, {})

theorem called_of_call (h : s.call a = some r) : Called s a r := by
  cases a with
  | malloc size pool | calloc nmemb size pool | store addr byte =>
    simp only [State.call, Option.ite_none_right_eq_some, Option.some.injEq] at h
    obtain ⟨hp, rfl⟩ := h
    constructor
    exact hp
  | realloc ptr newSize pool =>
    simp only [State.call, Option.ite_none_right_eq_some] at h
    exact .realloc h.1.1 h.1.2 h.2
  | free ptr =>
    simp only [State.call, Option.ite_none_right_eq_some] at h
    exact .free h.1 h.2

/-- What a call can do to a heap in order. -/
inductive Effect (s : State) : Heap × Call → Prop
  | none (c : Call) (hf : c.frees = []) (hp : c.ptr = 0 ∨ c.ptr ∈ s.live) : Effect s (s.heap, c)
  | alloc (size : SizeT) (a : ℕ) (hs : Fits size)
      (hp : s.heap.PoolMay (size + sizeofMallocHeader) (some a)) :
      Effect s (s.heap.malloc size (some a))
  | free (b : Block) (hb : b ∈ s.heap.blocks) :
      Effect s ({ s.heap with blocks := s.heap.blocks.filter (·.addr ≠ b.addr) },
        { frees := [getMallocAddress b.addr] })
  | move (b : Block) (newSize : SizeT) (a : ℕ) (writes : List Span) (hb : b ∈ s.heap.blocks)
      (hs : Fits newSize) (hp : s.heap.PoolMay (newSize + sizeofMallocHeader) (some a))
      (hlt : ¬ newSize ≤ s.heap.size (getMallocAddress b.addr)) :
      Effect s (s.heap.moved b a newSize,
        { ptr := getMallocAddress a, writes, frees := [getMallocAddress b.addr] })
  | store (m : Mem) (hm : ∀ b ∈ s.heap.blocks, ∀ x ∈ Span.mk b.addr 16, m x = s.heap.mem x) :
      Effect s ({ s.heap with mem := m }, {})

theorem call_malloc {size : SizeT} {pool : Option ℕ}
    (hp : s.heap.PoolMay (size + sizeofMallocHeader) pool) :
    s.call (.malloc size pool) = some (s.heap.malloc size pool) := if_pos hp

theorem exec_malloc {size : SizeT} {pool : Option ℕ}
    (hp : s.heap.PoolMay (size + sizeofMallocHeader) pool) :
    system.exec s [.malloc size pool] = some (s.after (s.heap.malloc size pool)) := by
  have h : system.step s (.malloc size pool) = some _ := congrArg (Option.map _) (call_malloc hp)
  rw [System.exec_cons, h]
  rfl

theorem effect_malloc {size : SizeT} {pool : Option ℕ} (hs : pool = none ∨ Fits size)
    (hp : s.heap.PoolMay (size + sizeofMallocHeader) pool) :
    Effect s (s.heap.malloc size pool) := by
  cases pool with
  | none => exact .none _ rfl (.inl rfl)
  | some a =>
    rcases hs with hs | hs
    · cases hs
    · exact .alloc size a hs hp

theorem Good.effect_free (hg : Good s) {ptr : ℕ} (hp : s.Passable ptr)
    (h : s.heap.free ptr = some r) : Effect s r := by
  rcases hg.passable hp with rfl | ⟨b, hb, rfl⟩
  · unfold Heap.free at h
    rw [if_pos rfl] at h
    cases h
    exact .none _ rfl (.inl rfl)
  · rw [hg.tidy.free_eq hb] at h
    cases h
    exact .free b hb

theorem Good.effect_realloc (hg : Good s) {ptr : ℕ} {newSize : SizeT} {pool : Option ℕ}
    (hs : pool = none ∨ Fits newSize) (hp : s.Passable ptr)
    (hm : s.heap.PoolMay (newSize + sizeofMallocHeader) pool)
    (h : s.heap.realloc ptr newSize pool = some r) : Effect s r := by
  obtain ⟨t, ht, hc⟩ := hg.tidy.realloc_cases (hg.passable hp) hs hm
  obtain rfl : t = r := Option.some.inj (ht.symm.trans h)
  cases hc with
  | malloc => exact effect_malloc hs hm
  | free b hb hn => exact .free b hb
  | keep b hb hn hle => exact .none _ rfl (.inr (hg.address_mem hb))
  | fail b hb hn hp => exact .none _ rfl (.inl rfl)
  | move b hb a ha hlt =>
    subst ha
    exact .move b newSize a _ hb (hs.resolve_left (Option.some_ne_none a)) hm hlt

/-- **What an unwrapped call does.** -/
theorem Good.call_cases (hg : Good s) (hu : Unwrapped s a) (h : s.call a = some r) :
    Effect s r := by
  cases called_of_call h with
  | malloc hp => exact effect_malloc hu hp
  | calloc hp => exact effect_malloc hu hp
  | realloc hptr hp h => exact hg.effect_realloc hu hptr hp h
  | free hptr h => exact hg.effect_free hptr h
  | @store addr byte hst =>
    refine .store _ fun b hb x hx => ?_
    -- a headed block is no shorter than its header
    have hlen := (hg.tidy.headed b hb).size
    have hne : x ≠ addr := by
      rintro rfl
      refine hst b hb ?_
      rw [Span.mem_iff] at hx ⊢
      simp only [sizeofMallocHeader_toNat] at hx ⊢
      omega
    exact Function.update_of_ne hne _ _

/-! ## The invariant -/

theorem Effect.tidy (he : Effect s r) (ht : s.heap.Tidy) : r.1.Tidy := by
  cases he with
  | none c hf hp => exact ht
  | alloc size a hs hp => exact ht.malloc hs hp
  | free b hb => exact ht.filter _
  | move b newSize a writes hb hs hp hlt => exact ht.moved hs hp hlt
  | store m hm => exact ht.write hm

theorem mem_filter_addr {h : Heap} {b : Block} {p : ℕ} :
    (∃ c ∈ h.blocks.filter (·.addr ≠ b.addr), getMallocAddress c.addr = p) ↔
      (∃ c ∈ h.blocks, getMallocAddress c.addr = p) ∧ p ≠ getMallocAddress b.addr := by
  constructor
  · rintro ⟨c, hc, rfl⟩
    obtain ⟨hc, hne⟩ := List.mem_filter.mp hc
    exact ⟨⟨c, hc, rfl⟩, fun he => of_decide_eq_true hne (getMallocAddress_inj.mp he)⟩
  · rintro ⟨⟨c, hc, rfl⟩, hne⟩
    refine ⟨c, List.mem_filter.mpr ⟨hc, decide_eq_true fun he => hne ?_⟩, rfl⟩
    rw [he]

theorem State.mem_after {p : ℕ} : p ∈ (s.after r).live ↔
    (p ∈ s.live ∨ r.2.ptr ≠ 0 ∧ p = r.2.ptr) ∧ p ∉ r.2.frees := by
  unfold State.after
  simp only [Finset.mem_filter]
  by_cases h : r.2.ptr = 0
  · simp [h]
  · simp [h, or_comm]

theorem exists_addr_cons {h : Heap} {a p : ℕ} {size : SizeT} :
    (∃ c ∈ Heap.newBlock a size :: h.blocks, getMallocAddress c.addr = p) ↔
      (∃ c ∈ h.blocks, getMallocAddress c.addr = p) ∨ p = getMallocAddress a := by
  rw [List.exists_mem_cons_iff, Heap.newBlock_addr, or_comm, eq_comm (a := p)]

theorem Effect.live (he : Effect s r) (hg : Good s) (p : ℕ) :
    p ∈ (s.after r).live ↔ ∃ b ∈ r.1.blocks, getMallocAddress b.addr = p := by
  rw [State.mem_after, hg.live p]
  cases he with
  | none c hf hp =>
    have hc : c.ptr ≠ 0 ∧ p = c.ptr → ∃ b ∈ s.heap.blocks, getMallocAddress b.addr = p := by
      rintro ⟨hn, rfl⟩
      exact (hg.live _).mp (hp.resolve_left hn)
    rw [hf]
    exact ⟨fun h => h.1.elim id hc, fun h => ⟨.inl h, List.not_mem_nil⟩⟩
  | alloc size a hs hp =>
    have hn := getMallocAddress_ne_zero a
    rw [Heap.malloc_some, exists_addr_cons]
    simp [hn]
  | free b hb =>
    rw [mem_filter_addr]
    simp
  | move b newSize a writes hb hs hp hlt =>
    have hn := getMallocAddress_ne_zero a
    have hm : (∃ c ∈ (s.heap.moved b a newSize).blocks, getMallocAddress c.addr = p) ↔ _ :=
      mem_filter_addr (h := { s.heap with blocks := Heap.newBlock a newSize :: s.heap.blocks })
    rw [hm, exists_addr_cons]
    simp [hn]
  | store m hm => simp

/-- **An unwrapped step keeps the heap in order.** -/
theorem good_keeps : system.Keeps Unwrapped Good := by
  intro s a s' hg hu h
  obtain ⟨r, hr, rfl⟩ := Option.map_eq_some_iff.mp h
  have he := hg.call_cases hu hr
  exact ⟨he.tidy hg.tidy, he.live hg⟩

theorem good_initial (m : Mem) : Good (.initial m) := by
  refine ⟨⟨.nil, fun b hb => absurd hb List.not_mem_nil⟩, fun p => ?_⟩
  simp [State.initial]

end Dpp.Malloc
