import Dpp.Deque.Iterator

/-!
# The deque

`eastl::deque` as far as the work queue and its callers use it. An operation is `none` where C++
leaves it undefined, and where storage would be released with an object in it. The storage a
deque has allocated is part of it, as no other deque owns any of it.

* `Deque`, `DequeBase`'s `doInit`, `doReallocPtrArray`, `doReallocSubarray`.
* `emplaceBack`, `emplaceFront`, `popFront`, `popBack`, `front`, `back`, `getItem`, `clear`.
* `uninitializedCopy`, `copy`: the loops that copy a range of another deque `x`.
* `insertEnd`, `eraseEnd`, `assign`: a range behind, off the end of and over a deque; `destruct`.
-/

namespace Dpp

open Lib Deque

/-- `deque<T, Allocator, k>`, with the storage it has allocated for subarrays and pointers. -/
structure Deque (T : Type) (k : ℕ) where
  items : Storage T := {}
  ptrs : Storage ℕ := {}
  mpPtrArray : ℕ := 0
  mnPtrArraySize : ℕ := 0
  mItBegin : DequeIterator
  mItEnd : DequeIterator

namespace Deque

variable {T : Type} {k : ℕ}

/-- `DequeBase::Side` -/
inductive Side
  | front
  | back
deriving DecidableEq

/-- `DoAllocateSubarray`, its address stored in the entry `pp` of the pointer array. -/
def allocateSubarray (d : Deque T k) (pp : Ptr) : Option (Deque T k) := do
  let ptrs ← d.ptrs.store pp d.items.next
  return { d with items := (d.items.alloc k).1, ptrs }

/-- `for(i = 0; i < n; ++i) pp[i * by] = DoAllocateSubarray();` -/
def allocateSubarrays (d : Deque T k) (pp : Ptr) (dir : ℤ) : ℕ → Option (Deque T k)
  | 0 => some d
  | n + 1 => do
    let d ← d.allocateSubarray pp
    d.allocateSubarrays (pp.plus dir) dir n

/-- `DoFreeSubarrays`, for `n` entries of the pointer array. -/
def freeSubarrays (d : Deque T k) (pBegin : Ptr) : ℕ → Option (Deque T k)
  | 0 => some d
  | n + 1 => do
    let a ← d.ptrs.read pBegin
    let items ← d.items.free a
    freeSubarrays { d with items } (pBegin.plus 1) n

/-- `DoInit(0)`, on which all constructors of an empty deque end. -/
def doInit : Option (Deque T k) := do
  let nNewPtrArraySize := 0 / k + 1
  let mnPtrArraySize := max 8 (nNewPtrArraySize + 2)
  let ptrs : Storage ℕ := {}
  let pPtrArrayBegin : Ptr := ⟨ptrs.next, ((mnPtrArraySize - nNewPtrArraySize) / 2 : ℕ)⟩
  let it : DequeIterator := ⟨⟨0, 0⟩, 0, ⟨0, 0⟩⟩
  let d : Deque T k := { ptrs := (ptrs.alloc mnPtrArraySize).1, mpPtrArray := ptrs.next,
                         mnPtrArraySize, mItBegin := it, mItEnd := it }
  let d ← d.allocateSubarrays pPtrArrayBegin 1 nNewPtrArraySize
  let mItBegin ← d.mItBegin.setSubarray d.ptrs pPtrArrayBegin
  let mItEnd ← d.mItEnd.setSubarray d.ptrs (pPtrArrayBegin.plus (nNewPtrArraySize - 1))
  return { d with mItBegin := mItBegin.setCurrent 0, mItEnd := mItEnd.setCurrent (0 % k : ℕ) }

/-- `nUnusedPtrCountAtFront` -/
def unusedFront (d : Deque T k) : ℕ := d.mItBegin.mpCurrentArrayPtr.off.toNat

/-- `nUsedPtrCount` -/
def usedCount (d : Deque T k) : ℕ :=
  (d.mItEnd.mpCurrentArrayPtr.off - d.mItBegin.mpCurrentArrayPtr.off).toNat + 1

/-- `nUnusedPtrCountAtBack` -/
def unusedBack (d : Deque T k) : ℕ := (d.mnPtrArraySize - d.unusedFront) - d.usedCount

/-- The last lines of `DoReallocPtrArray`. -/
def resetIterators (d : Deque T k) (pPtrArrayBegin : Ptr) (nUsedPtrCount : ℕ) :
    Option (Deque T k) := do
  let mItBegin ← d.mItBegin.setSubarray d.ptrs pPtrArrayBegin
  let mItEnd ← d.mItEnd.setSubarray d.ptrs (pPtrArrayBegin.plus (nUsedPtrCount - 1))
  return { d with mItBegin, mItEnd }

/-- How far `DoReallocPtrArray` moves the pointers into the unused ones of the other side. -/
def spread (nAdditionalCapacity nUnused : ℕ) : ℕ :=
  if nAdditionalCapacity < nUnused / 2 then nUnused / 2 else nAdditionalCapacity

/-- `DoReallocPtrArray` inside the array. -/
def movePointers (d : Deque T k) (pPtrArrayBegin : Ptr) : Option (Deque T k) := do
  let ptrs ← d.ptrs.memmove pPtrArrayBegin d.mItBegin.mpCurrentArrayPtr d.usedCount
  resetIterators { d with ptrs } pPtrArrayBegin d.usedCount

/-- `DoReallocPtrArray` with a new array of `size` entries. -/
def reallocPointers (d : Deque T k) (size lead : ℕ) : Option (Deque T k) := do
  let ptrs ← (d.ptrs.alloc size).1.memmove ⟨d.ptrs.next, lead⟩ d.mItBegin.mpCurrentArrayPtr
    d.usedCount
  let ptrs ← ptrs.freeTrivial d.mpPtrArray
  resetIterators { d with ptrs, mpPtrArray := d.ptrs.next, mnPtrArraySize := size }
    ⟨d.ptrs.next, lead⟩ d.usedCount

/-- `DoReallocPtrArray` -/
def doReallocPtrArray (d : Deque T k) (nAdditionalCapacity : ℕ) (side : Side) :
    Option (Deque T k) :=
  if side = .back ∧ nAdditionalCapacity ≤ d.unusedFront then
    d.movePointers
      ⟨d.mpPtrArray, (d.unusedFront - spread nAdditionalCapacity d.unusedFront : ℕ)⟩
  else if side = .front ∧ nAdditionalCapacity ≤ d.unusedBack then
    d.movePointers
      (d.mItBegin.mpCurrentArrayPtr.plus (spread nAdditionalCapacity d.unusedBack : ℕ))
  else
    d.reallocPointers (d.mnPtrArraySize + max d.mnPtrArraySize nAdditionalCapacity + 2)
      (d.unusedFront + if side = .front then nAdditionalCapacity else 0)

/-- `nSubarrayIncrease` -/
def subarrayIncrease (k nAdditionalCapacity nCurrentAdditionalCapacity : ℕ) : ℕ :=
  ((nAdditionalCapacity - nCurrentAdditionalCapacity) + k - 1) / k

/-- `DoReallocSubarray`: room for `n` more pointers in front. -/
def ptrRoomFront (d : Deque T k) (n : ℕ) : Option (Deque T k) :=
  if d.mItBegin.mpCurrentArrayPtr.off < n then
    d.doReallocPtrArray (n - d.mItBegin.mpCurrentArrayPtr.off).toNat .front
  else some d

/-- `DoReallocSubarray`: room for `n` more pointers behind. -/
def ptrRoomBack (d : Deque T k) (n : ℕ) : Option (Deque T k) :=
  if d.mnPtrArraySize - d.mItEnd.mpCurrentArrayPtr.off - 1 < n then
    d.doReallocPtrArray (n - (d.mnPtrArraySize - d.mItEnd.mpCurrentArrayPtr.off - 1)).toNat .back
  else some d

/-- `DoReallocSubarray`: `n` more subarrays in front. -/
def growFront (d : Deque T k) (n : ℕ) : Option (Deque T k) := do
  let d ← d.ptrRoomFront n
  d.allocateSubarrays (d.mItBegin.mpCurrentArrayPtr.plus (-1)) (-1) n

/-- `DoReallocSubarray`: `n` more subarrays behind. -/
def growBack (d : Deque T k) (n : ℕ) : Option (Deque T k) := do
  let d ← d.ptrRoomBack n
  d.allocateSubarrays (d.mItEnd.mpCurrentArrayPtr.plus 1) 1 n

/-- `DoReallocSubarray`, up to the iterator it returns. -/
def reserve (d : Deque T k) (nAdditionalCapacity : ℕ) : Side → Option (Deque T k)
  | .front =>
    let nCurrentAdditionalCapacity := d.mItBegin.mpCurrent.off.toNat
    if nCurrentAdditionalCapacity < nAdditionalCapacity then
      d.growFront (subarrayIncrease k nAdditionalCapacity nCurrentAdditionalCapacity)
    else some d
  | .back =>
    let nCurrentAdditionalCapacity := (k - 1 - d.mItEnd.mpCurrent.off).toNat
    if nCurrentAdditionalCapacity < nAdditionalCapacity then
      d.growBack (subarrayIncrease k nAdditionalCapacity nCurrentAdditionalCapacity)
    else some d

/-- `DoReallocSubarray`, with the iterator it returns. -/
def doReallocSubarray (d : Deque T k) (nAdditionalCapacity : ℕ) (side : Side) :
    Option (Deque T k × DequeIterator) := do
  let d ← d.reserve nAdditionalCapacity side
  let it ← match side with
    | .front => d.mItBegin.add k d.ptrs (-nAdditionalCapacity)
    | .back => d.mItEnd.add k d.ptrs nAdditionalCapacity
  return (d, it)

/-! ## The ends -/

/-- `emplace_back`: one more pointer behind. -/
def ptrSlotBack (d : Deque T k) : Option (Deque T k) :=
  if d.mnPtrArraySize ≤ d.mItEnd.mpCurrentArrayPtr.off + 1 then d.doReallocPtrArray 1 .back
  else some d

/-- `emplace_front`: one more pointer in front. -/
def ptrSlotFront (d : Deque T k) : Option (Deque T k) :=
  if d.mItBegin.mpCurrentArrayPtr = ⟨d.mpPtrArray, 0⟩ then d.doReallocPtrArray 1 .front
  else some d

/-- `emplace_back` -/
def emplaceBack (d : Deque T k) (value : T) : Option (Deque T k) :=
  if d.mItEnd.mpCurrent.plus 1 ≠ ⟨d.mItEnd.mpBegin, k⟩ then do
    let items ← d.items.construct d.mItEnd.mpCurrent value
    return { d with items,
                    mItEnd := { d.mItEnd with mpCurrent := d.mItEnd.mpCurrent.plus 1 } }
  else do
    let d ← d.ptrSlotBack
    let d ← d.allocateSubarray (d.mItEnd.mpCurrentArrayPtr.plus 1)
    let items ← d.items.construct d.mItEnd.mpCurrent value
    let it ← d.mItEnd.setSubarray d.ptrs (d.mItEnd.mpCurrentArrayPtr.plus 1)
    return { d with items, mItEnd := it.setCurrent 0 }

/-- `emplace_front` -/
def emplaceFront (d : Deque T k) (value : T) : Option (Deque T k) :=
  if d.mItBegin.mpCurrent ≠ ⟨d.mItBegin.mpBegin, 0⟩ then do
    let it := { d.mItBegin with mpCurrent := d.mItBegin.mpCurrent.plus (-1) }
    let items ← d.items.construct it.mpCurrent value
    return { d with items, mItBegin := it }
  else do
    let d ← d.ptrSlotFront
    let d ← d.allocateSubarray (d.mItBegin.mpCurrentArrayPtr.plus (-1))
    let it ← d.mItBegin.setSubarray d.ptrs (d.mItBegin.mpCurrentArrayPtr.plus (-1))
    let it := it.setCurrent (k - 1)
    let items ← d.items.construct it.mpCurrent value
    return { d with items, mItBegin := it }

/-- `pop_front` -/
def popFront (d : Deque T k) : Option (Deque T k) :=
  if d.mItBegin.mpCurrent.plus 1 ≠ ⟨d.mItBegin.mpBegin, k⟩ then do
    let items ← d.items.destroy d.mItBegin.mpCurrent
    return { d with items,
                    mItBegin := { d.mItBegin with mpCurrent := d.mItBegin.mpCurrent.plus 1 } }
  else do
    let items ← d.items.destroy d.mItBegin.mpCurrent
    let items ← items.free d.mItBegin.mpBegin
    let it ← d.mItBegin.setSubarray d.ptrs (d.mItBegin.mpCurrentArrayPtr.plus 1)
    return { d with items, mItBegin := it.setCurrent 0 }

/-- `pop_back` -/
def popBack (d : Deque T k) : Option (Deque T k) :=
  if d.mItEnd.mpCurrent ≠ ⟨d.mItEnd.mpBegin, 0⟩ then do
    let it := { d.mItEnd with mpCurrent := d.mItEnd.mpCurrent.plus (-1) }
    let items ← d.items.destroy it.mpCurrent
    return { d with items, mItEnd := it }
  else do
    let items ← d.items.free d.mItEnd.mpBegin
    let it ← d.mItEnd.setSubarray d.ptrs (d.mItEnd.mpCurrentArrayPtr.plus (-1))
    let it := it.setCurrent (k - 1)
    let items ← items.destroy it.mpCurrent
    return { d with items, mItEnd := it }

/-- `size` -/
def size (d : Deque T k) : ℤ := d.mItEnd.sub k d.mItBegin

/-- `front` -/
def front (d : Deque T k) : Option T := d.items.read d.mItBegin.mpCurrent

/-- `back` -/
def back (d : Deque T k) : Option T := do
  let it ← d.mItEnd.decr k d.ptrs
  d.items.read it.mpCurrent

/-- `operator[]` -/
def getItem (d : Deque T k) (n : ℕ) : Option T := do
  let subarrayPosition := d.mItBegin.mpCurrent.off + n
  let subarrayIndex := (16777216 + subarrayPosition).tdiv k - (16777216 : ℤ).tdiv k
  let a ← d.ptrs.read (d.mItBegin.mpCurrentArrayPtr.plus subarrayIndex)
  d.items.read ⟨a, subarrayPosition - subarrayIndex * k⟩

/-- The loop of `clear` over the subarrays between the first and the last one. -/
def clearMiddle (d : Deque T k) (pp : Ptr) : ℕ → Option (Deque T k)
  | 0 => some d
  | n + 1 => do
    let a ← d.ptrs.read pp
    let items ← d.items.destroyRun ⟨a, 0⟩ k
    let items ← items.free a
    clearMiddle { d with items } (pp.plus 1) n

/-- `clear`: what it does to the items of the first and the last subarray. -/
def clearEnds (d : Deque T k) : Option (Deque T k) :=
  let first := d.mItBegin
  let last := d.mItEnd
  if first.mpCurrentArrayPtr ≠ last.mpCurrentArrayPtr then do
    let items ← d.items.destroyRun first.mpCurrent (k - first.mpCurrent.off).toNat
    let items ← items.destroyRun ⟨last.mpBegin, 0⟩ last.mpCurrent.off.toNat
    let items ← items.free last.mpBegin
    return { d with items }
  else do
    let items ← d.items.destroyRun first.mpCurrent
      (last.mpCurrent.off - first.mpCurrent.off).toNat
    return { d with items }

/-- `clear` -/
def clear (d : Deque T k) : Option (Deque T k) := do
  let d ← d.clearEnds
  let d ← d.clearMiddle (d.mItBegin.mpCurrentArrayPtr.plus 1)
    (d.mItEnd.mpCurrentArrayPtr.off - d.mItBegin.mpCurrentArrayPtr.off - 1).toNat
  return { d with mItEnd := d.mItBegin }

/-! ## Ranges -/

/-- `for(; first != last; ++first, ++dest) ::new(&*dest) T(*first);` of `uninitialized_copy`; at
most `n` times, after which `first` must have reached `last`. -/
def uninitializedCopy (x d : Deque T k) (last : DequeIterator) :
    ℕ → DequeIterator → DequeIterator → Option (Deque T k × DequeIterator)
  | 0, first, dest => if first.mpCurrent = last.mpCurrent then some (d, dest) else none
  | n + 1, first, dest =>
    if first.mpCurrent = last.mpCurrent then some (d, dest) else do
      let value ← x.items.read first.mpCurrent
      let items ← d.items.construct dest.mpCurrent value
      let first ← first.incr k x.ptrs
      let dest ← dest.incr k d.ptrs
      uninitializedCopy x { d with items } last n first dest

/-- `for(n = last - first; n > 0; --n, ++first, ++result) *result = *first;` of `copy`. -/
def copy (x d : Deque T k) :
    ℕ → DequeIterator → DequeIterator → Option (Deque T k × DequeIterator)
  | 0, _, result => some (d, result)
  | n + 1, first, result => do
    let value ← x.items.read first.mpCurrent
    let items ← d.items.assign result.mpCurrent value
    let first ← first.incr k x.ptrs
    let result ← result.incr k d.ptrs
    copy x { d with items } n first result

/-- `DoInsertFromIterator` at the begin, and into an empty deque. -/
def insertFront (d x : Deque T k) (first last : DequeIterator) :
    Option (Deque T k) := do
  let n := (last.sub k first).toNat
  let (d, itNewBegin) ← d.doReallocSubarray n .front
  let (d, _) ← uninitializedCopy x d last n first itNewBegin
  return { d with mItBegin := itNewBegin }

/-- `DoInsertFromIterator` at the end. -/
def insertBack (d x : Deque T k) (first last : DequeIterator) :
    Option (Deque T k) := do
  let n := (last.sub k first).toNat
  let (d, itNewEnd) ← d.doReallocSubarray n .back
  let (d, _) ← uninitializedCopy x d last n first d.mItEnd
  return { d with mItEnd := itNewEnd }

/-- `insert` of a range, as `WorkQueue::Enqueue` and `DoAssign` call it: `position` is `mItEnd`,
and `mItBegin` if the deque is empty. -/
def insertEnd (d x : Deque T k) (first last : DequeIterator) :
    Option (Deque T k) :=
  if d.mItEnd.mpCurrent = d.mItBegin.mpCurrent then d.insertFront x first last
  else d.insertBack x first last

/-- `for(; itCurrent != mItEnd; ++itCurrent) itCurrent.mpCurrent->~value_type();`, at most `n`
times. -/
def destroyItems (d : Deque T k) : ℕ → DequeIterator → Option (Deque T k)
  | 0, itCurrent => if itCurrent.mpCurrent = d.mItEnd.mpCurrent then some d else none
  | n + 1, itCurrent =>
    if itCurrent.mpCurrent = d.mItEnd.mpCurrent then some d else do
      let items ← d.items.destroy itCurrent.mpCurrent
      let itCurrent ← itCurrent.incr k d.ptrs
      destroyItems { d with items } n itCurrent

/-- `erase(first, mItEnd)`, as `DoAssign` calls it. As many items lie before `first` as are kept,
so the items before it are never the ones that are moved. -/
def eraseEnd (d : Deque T k) (first : DequeIterator) : Option (Deque T k) :=
  if first.mpCurrent = d.mItBegin.mpCurrent then d.clear
  else do
    let n := d.mItEnd.sub k first
    let itNewEnd ← d.mItEnd.add k d.ptrs (-n)
    let d ← d.destroyItems n.toNat itNewEnd
    let d ← d.freeSubarrays (itNewEnd.mpCurrentArrayPtr.plus 1)
      (d.mItEnd.mpCurrentArrayPtr.off - itNewEnd.mpCurrentArrayPtr.off).toNat
    return { d with mItEnd := itNewEnd }

/-- `operator=` from another deque: `DoAssign(x.begin(), x.end())`. -/
def assign (d x : Deque T k) : Option (Deque T k) :=
  let n := x.size
  let nSize := d.size
  if nSize < n then do
    let atEnd ← x.mItBegin.add k x.ptrs nSize
    let (d, _) ← copy x d (atEnd.sub k x.mItBegin).toNat x.mItBegin d.mItBegin
    d.insertEnd x atEnd x.mItEnd
  else do
    let (d, itEnd) ← copy x d (x.mItEnd.sub k x.mItBegin).toNat x.mItBegin d.mItBegin
    if n < nSize then d.eraseEnd itEnd else some d

/-- The destructors `~deque` and `~DequeBase`. -/
def destruct (d : Deque T k) : Option (Deque T k) := do
  let d ← d.destroyItems d.size.toNat d.mItBegin
  let d ← d.freeSubarrays d.mItBegin.mpCurrentArrayPtr
    (d.mItEnd.mpCurrentArrayPtr.off + 1 - d.mItBegin.mpCurrentArrayPtr.off).toNat
  let ptrs ← d.ptrs.freeTrivial d.mpPtrArray
  return { d with ptrs }

end Deque

end Dpp
