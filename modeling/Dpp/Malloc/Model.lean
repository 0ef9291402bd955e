import Dpp.CTypes
import Dpp.Lib.Bytes
import Dpp.Lib.System
import Mathlib.Data.Finset.Basic

/-!
# The heap

`malloc`, `calloc`, `realloc` and `free` over the kernel's pool. The pool decides where a block lies
and whether there is one; the program passes `NULL` or a pointer it was given and has not freed.

* `Heap`: the memory and the pool blocks in use; `Heap.malloc`, `Heap.calloc`, `Heap.realloc`,
  `Heap.free`.
* `Call`: what a call returns, the spans it writes and the pointers it frees.
* `State`, `Action`, `step`, `system`: any sequence of calls and of stores in between.
-/

namespace Dpp.Malloc

open Lib

/-- `sizeof(MALLOC_HEADER)`: `Tags` and `_Resv0`, four bytes each, then `Size`. -/
def sizeofMallocHeader : SizeT := 16

/-- `KCRT_POOL_DEFAULT_TAG`. -/
def kcrtPoolDefaultTag : ℕ := 0xDEADBEEF

/-- `PAGE_SIZE`. -/
def pageSize : SizeT := 0x1000

/-- `GET_MALLOC_HEADER`. -/
def getMallocHeader (ptr : ℕ) : ℕ := ptr - sizeofMallocHeader.toNat

/-- `GET_MALLOC_ADDRESS`. -/
def getMallocAddress (header : ℕ) : ℕ := header + sizeofMallocHeader.toNat

/-- A block `ExAllocatePoolWithTag` has given. -/
structure Block extends Span where
  paged : Bool

structure Heap where
  mem : Mem
  blocks : List Block := []

/-- What a call has done: the pointer it returns, the spans it has written, oldest first, and the
pointers it has freed. -/
structure Call where
  ptr : ℕ := 0
  writes : List Span := []
  frees : List ℕ := []

/-- What `malloc` writes at `mhdr`: `RtlZeroMemory`, `Tags` and `Size`. -/
def initBlock (m : Mem) (mhdr : ℕ) (newSize size : SizeT) : Mem :=
  ((m.fill mhdr newSize.toNat 0).writeLE mhdr 4 kcrtPoolDefaultTag).writeLE (mhdr + 8) 8 size.toNat

namespace Heap

variable (h : Heap)

/-- `ExAllocatePoolWithTag(n)` may give `pool`: `NULL`, or a fresh block of `n` bytes. -/
def PoolMay (n : SizeT) : Option ℕ → Prop
  | none => True
  | some a => a ≠ 0 ∧ a + n.toNat ≤ 2 ^ 64 ∧
      ∀ b ∈ h.blocks, (Span.mk a n.toNat).Apart b.toSpan ∧ a ≠ b.addr

instance (n : SizeT) : ∀ pool, Decidable (h.PoolMay n pool)
  | none => isTrue trivial
  | some _ => inferInstanceAs (Decidable (_ ∧ _ ∧ _))

/-- `ExFreePool`; on an address the pool has not given it does not return. -/
def exFreePool (a : ℕ) : Option Heap :=
  if ∃ b ∈ h.blocks, b.addr = a then some { h with blocks := h.blocks.filter (·.addr ≠ a) }
  else none

/-- `header->Tags`. -/
def tags (ptr : ℕ) : ℕ := h.mem.readLE (getMallocHeader ptr) 4

/-- `header->Size`. -/
def size (ptr : ℕ) : SizeT := BitVec.ofNat 64 (h.mem.readLE (getMallocHeader ptr + 8) 8)

/-- `GET_MALLOC_SIZE`; `KeBugCheckEx` does not return. -/
def getMallocSize (ptr : ℕ) : Option SizeT :=
  if h.tags ptr ≠ kcrtPoolDefaultTag then none else some (h.size ptr)

/-- `free`. -/
def free (ptr : ℕ) : Option (Heap × Call) :=
  if ptr = 0 then some (h, {})
  else if h.tags ptr ≠ kcrtPoolDefaultTag then none
  else (h.exFreePool (getMallocHeader ptr)).map (·, { frees := [ptr] })

/-- `malloc`; the pool gives `pool`. -/
def malloc (size : SizeT) (pool : Option ℕ) : Heap × Call :=
  let newSize := size + sizeofMallocHeader
  match pool with
  | none => (h, {})
  | some mhdr =>
    ({ mem := initBlock h.mem mhdr newSize size
       blocks := { addr := mhdr, len := newSize.toNat, paged := pageSize < newSize } :: h.blocks },
      { ptr := getMallocAddress mhdr
        writes := [⟨mhdr, newSize.toNat⟩, ⟨mhdr, 4⟩, ⟨mhdr + 8, 8⟩] })

/-- `calloc`. -/
def calloc (nmemb size : SizeT) (pool : Option ℕ) : Heap × Call := h.malloc (nmemb * size) pool

/-- The end of `realloc`: `memcpy`, `free` and the new pointer. -/
def moveTo (ptr : ℕ) (oldSize : SizeT) (c : Call) : Option (Heap × Call) :=
  let copied : Heap := { h with mem := h.mem.copy c.ptr ptr oldSize.toNat }
  (copied.free ptr).map fun r =>
    (r.1, { c with writes := c.writes ++ [⟨c.ptr, oldSize.toNat⟩], frees := r.2.frees })

/-- `realloc`. -/
def realloc (ptr : ℕ) (newSize : SizeT) (pool : Option ℕ) : Option (Heap × Call) :=
  if ptr = 0 then some (h.malloc newSize pool)
  else if newSize = 0 then h.free ptr
  else
    (h.getMallocSize ptr).bind fun oldSize =>
      if newSize ≤ oldSize then some (h, { ptr })
      else
        let r := h.malloc newSize pool
        if r.2.ptr ≠ 0 then r.1.moveTo ptr oldSize r.2 else some (r.1, {})

end Heap

/-! ## Sequences of calls -/

/-- The heap, and the pointers returned and not yet freed. -/
structure State where
  heap : Heap
  live : Finset ℕ := ∅

inductive Action
  | malloc (size : SizeT) (pool : Option ℕ)
  | calloc (nmemb size : SizeT) (pool : Option ℕ)
  | realloc (ptr : ℕ) (newSize : SizeT) (pool : Option ℕ)
  | free (ptr : ℕ)
  /-- The program writes to its memory, or somebody else to theirs. -/
  | store (addr : ℕ) (byte : UInt8)

/-- At the start of the driver; the memory may hold anything. -/
def State.initial (m : Mem) : State := { heap := { mem := m } }

namespace State

variable (s : State)

/-- `ptr` may be passed to `realloc` and `free`. -/
def Passable (ptr : ℕ) : Prop := ptr = 0 ∨ ptr ∈ s.live

/-- The byte lies in no header: outside the blocks, or in what their owners were given. -/
def Storable (addr : ℕ) : Prop :=
  ∀ b ∈ s.heap.blocks, addr ∉ Span.mk b.addr (min sizeofMallocHeader.toNat b.len)

instance (ptr : ℕ) : Decidable (s.Passable ptr) := inferInstanceAs (Decidable (_ ∨ _))

instance (addr : ℕ) : Decidable (s.Storable addr) :=
  inferInstanceAs (Decidable (∀ b ∈ s.heap.blocks, _))

/-- The heap a call leaves, and what the call has done. -/
def call : Action → Option (Heap × Call)
  | .malloc size pool =>
    if s.heap.PoolMay (size + sizeofMallocHeader) pool then some (s.heap.malloc size pool) else none
  | .calloc nmemb size pool =>
    if s.heap.PoolMay (nmemb * size + sizeofMallocHeader) pool then
      some (s.heap.calloc nmemb size pool)
    else none
  | .realloc ptr newSize pool =>
    if s.Passable ptr ∧ s.heap.PoolMay (newSize + sizeofMallocHeader) pool then
      s.heap.realloc ptr newSize pool
    else none
  | .free ptr => if s.Passable ptr then s.heap.free ptr else none
  | .store addr byte =>
    if s.Storable addr then
      some ({ s.heap with mem := Function.update s.heap.mem addr byte }, {})
    else none

/-- After a call that has left `r`. -/
def after (r : Heap × Call) : State where
  heap := r.1
  live := (if r.2.ptr = 0 then s.live else insert r.2.ptr s.live).filter (· ∉ r.2.frees)

end State

def step (s : State) (a : Action) : Option State := (s.call a).map s.after

def system : System State Action where
  init s := ∃ m, s = .initial m
  step := step

end Dpp.Malloc
