import Dpp.Lib.Rows

/-!
# `eastl::string`

The bytes of a `basic_string<char>` and of its block, with the operations of the class. A string of
up to 23 characters lies in the object itself, where a longer one has the address of its block, its
size and its capacity; the last byte of the object tells the two layouts apart. As in the build of
a driver, there are no exceptions and no assertions: no length and no position is checked.

* `BasicString`: the object and its blocks; what C++ leaves undefined is `none`.
* `isHeap`, `beginPtr`, `getSize`, `capacity`: how an object is read.
* `Source`: the characters that are copied, from elsewhere or from the string itself.
* `allocateSelf`, `rangeInitialize`, `append`, `setCapacity`, `reserve`, `erase`, `assign`, ...:
  the operations.
-/

namespace Dpp

open Lib

/-- A `basic_string<char>`: allocation `0` is the object, with the bytes of its layout; the others
are the blocks it has allocated. -/
abbrev BasicString := Storage Cell

namespace BasicString

/-- `SSO_CAPACITY`: all bytes of the heap layout but one. -/
def ssoCapacity : ℕ := 23

/-- `kHeapMask`, the highest bit of a `size_type`. -/
def heapMask : ℕ := 2 ^ 63

/-! ## The layout -/

/-- The character at an address. -/
def readChar (s : BasicString) (p : Ptr) : Option UInt8 :=
  match s.read p with
  | some (.byte v) => some v
  | _ => none

/-- `*p = c`. -/
def writeChar (s : BasicString) (p : Ptr) (c : UInt8) : Option BasicString := s.write p [.byte c]

/-- A `size_type` of the heap layout. -/
def readSize (s : BasicString) (off : ℤ) : Option ℕ :=
  (s.readRun ⟨0, off⟩ 8).bind Cell.toNat

def writeSize (s : BasicString) (off : ℤ) (v : ℕ) : Option BasicString :=
  s.write ⟨0, off⟩ (Cell.ofNat 8 v)

/-- `IsHeap`: `kSSOMask` is set in `mnRemainingSize`, the last byte of both layouts. -/
def isHeap (s : BasicString) : Option Bool :=
  (s.readChar ⟨0, 23⟩).map fun v => 128 ≤ v.toNat

def getSSOSize (s : BasicString) : Option ℕ :=
  (s.readChar ⟨0, 23⟩).map fun v => ssoCapacity - v.toNat

def getHeapSize (s : BasicString) : Option ℕ := s.readSize 8

def getSize (s : BasicString) : Option ℕ := do
  if ← s.isHeap then s.getHeapSize else s.getSSOSize

def setSSOSize (s : BasicString) (size : ℕ) : Option BasicString :=
  s.writeChar ⟨0, 23⟩ (UInt8.ofNat ssoCapacity - UInt8.ofNat size)

def setHeapSize (s : BasicString) (size : ℕ) : Option BasicString := s.writeSize 8 size

def setSize (s : BasicString) (size : ℕ) : Option BasicString := do
  if ← s.isHeap then s.setHeapSize size else s.setSSOSize size

/-- `mpBegin` of the heap layout. -/
def heapBeginPtr (s : BasicString) : Option Ptr := do
  let b ← (← s.readRun ⟨0, 0⟩ 8) |> Cell.toAddr
  return ⟨b, 0⟩

def setHeapBeginPtr (s : BasicString) (b : ℕ) : Option BasicString :=
  s.write ⟨0, 0⟩ (Cell.ofAddr b)

def setHeapCapacity (s : BasicString) (cap : ℕ) : Option BasicString :=
  s.writeSize 16 (cap ||| heapMask)

/-- `mnCapacity & ~kHeapMask`. -/
def getHeapCapacity (s : BasicString) : Option ℕ := (s.readSize 16).map (· % heapMask)

def beginPtr (s : BasicString) : Option Ptr := do
  if ← s.isHeap then s.heapBeginPtr else return ⟨0, 0⟩

/-- `EndPtr`: in both layouts it is `BeginPtr` and the size. -/
def endPtr (s : BasicString) : Option Ptr := do
  let p ← s.beginPtr
  let n ← s.getSize
  return p.plus n

def capacity (s : BasicString) : Option ℕ := do
  if ← s.isHeap then s.getHeapCapacity else return ssoCapacity

/-- `ResetToSSO`. -/
def resetToSSO (s : BasicString) : Option BasicString := do
  let s ← s.writeChar ⟨0, 0⟩ 0
  s.setSSOSize 0

/-- The three assignments to the heap layout that follow an allocation. -/
def setHeapLayout (s : BasicString) (b cap size : ℕ) : Option BasicString := do
  let s ← s.setHeapBeginPtr b
  let s ← s.setHeapCapacity cap
  s.setHeapSize size

/-! ## Characters -/

/-- A range of characters: outside of the string, or in it. -/
inductive Source
  | chars (cs : List UInt8)
  | own (p : Ptr) (n : ℕ)

namespace Source

def length : Source → ℕ
  | chars cs => cs.length
  | own _ n => n

/-- The range up to its character `k`. -/
def take (k : ℕ) : Source → Source
  | chars cs => chars (cs.take k)
  | own p n => own p (min k n)

/-- The range from its character `k` on. -/
def drop (k : ℕ) : Source → Source
  | chars cs => chars (cs.drop k)
  | own p n => own (p.plus k) (n - k)

end Source

/-- `CharStringUninitializedCopy` and `memmove`. -/
def copyTo (s : BasicString) (src : Source) (dst : Ptr) : Option BasicString :=
  match src with
  | .chars cs => s.write dst (cs.map .byte)
  | .own p n => do
    let xs ← s.readRun p n
    s.write dst xs

/-- `CharStringUninitializedFillN` and `CharTypeAssignN`. -/
def fillN (s : BasicString) (dst : Ptr) (n : ℕ) (c : UInt8) : Option BasicString :=
  s.write dst (List.replicate n (.byte c))

/-- The character a cell holds. -/
def charOf : Cell → Option UInt8
  | .byte v => some v
  | .addr _ _ => none

def readChars (s : BasicString) (p : Ptr) (n : ℕ) : Option (List UInt8) :=
  (s.readRun p n).bind fun xs => xs.mapM charOf

/-- The characters of a string, as another object reads them between `BeginPtr` and `EndPtr`. -/
def contents (s : BasicString) : Option (List UInt8) := do
  s.readChars (← s.beginPtr) (← s.getSize)

/-! ## Blocks -/

/-- `DoAllocate`: the block, too. -/
def doAllocate (s : BasicString) (n : ℕ) : BasicString × ℕ := s.alloc n

/-- `DoFree`. -/
def doFree (s : BasicString) (p : Ptr) : Option BasicString := s.freeTrivial p.base

/-- `GetNewCapacity`. Where the overlapping `replace` passes a difference below `0`, which wraps
around there and is `0` here, twice the capacity is the larger of the two in both. -/
def getNewCapacity (currentCapacity minimumGrowSize : ℕ) : ℕ :=
  max (currentCapacity + minimumGrowSize) (currentCapacity * 2)

/-- `AllocateSelf(n)`. -/
def allocateSelf (s : BasicString) (n : ℕ) : Option BasicString :=
  if ssoCapacity < n then
    let (s, b) := s.doAllocate (n + 1)
    s.setHeapLayout b n n
  else s.setSSOSize n

/-- `DeallocateSelf`. -/
def deallocateSelf (s : BasicString) : Option BasicString := do
  if ← s.isHeap then
    s.doFree (← s.beginPtr)
  else return s

/-! ## Construction and destruction -/

/-- The storage of an object, and the constructor of its layout. -/
def layout : Option BasicString := resetToSSO (doAllocate {} 24).1

/-- `basic_string()`. -/
def construct : Option BasicString := do
  let s ← layout
  s.resetToSSO

/-- `RangeInitialize`, for the constructors from characters and from another string. -/
def rangeInitialize (cs : List UInt8) : Option BasicString := do
  let s ← layout
  let s ← s.allocateSelf cs.length
  let s ← s.copyTo (.chars cs) (← s.beginPtr)
  s.writeChar (← s.endPtr) 0

/-- `SizeInitialize`, for the constructor from a number and a character. -/
def sizeInitialize (n : ℕ) (c : UInt8) : Option BasicString := do
  let s ← layout
  let s ← s.allocateSelf n
  let s ← s.fillN (← s.beginPtr) n c
  s.writeChar (← s.endPtr) 0

/-- The move constructor: the new string and the one moved from. Two layouts that are exchanged
take their blocks along. -/
def constructMove (x : BasicString) : Option (BasicString × BasicString) := do
  let y ← layout
  return (x, ← y.resetToSSO)

/-- `~basic_string`, and the end of the object. -/
def destruct (s : BasicString) : Option BasicString := do
  let s ← s.deallocateSelf
  s.doFree ⟨0, 0⟩

/-! ## Capacity -/

/-- `set_capacity`, up to its last `if`. -/
def truncate (s : BasicString) (n : ℕ) : Option BasicString := do
  if n < (← s.getSize) then
    let s ← s.setSize n
    s.writeChar (← s.endPtr) 0
  else return s

/-- From the heap layout back into the object. -/
def heapToSSO (s : BasicString) (n : ℕ) : Option BasicString := do
  let pOldBegin ← s.beginPtr
  let s ← s.copyTo (.own pOldBegin n) ⟨0, 0⟩
  let s ← s.setSSOSize n
  let s ← s.writeChar ⟨0, (← s.getSSOSize)⟩ 0
  s.doFree pOldBegin

/-- Into a new block. -/
def toNewBlock (s : BasicString) (n : ℕ) : Option BasicString := do
  let (s, b) := s.doAllocate (n + 1)
  let nSavedSize ← s.getSize
  let s ← s.copyTo (.own (← s.beginPtr) nSavedSize) ⟨b, 0⟩
  let s ← s.writeChar ⟨b, nSavedSize⟩ 0
  let s ← s.deallocateSelf
  s.setHeapLayout b n nSavedSize

/-- `set_capacity(n)`, for another `n` than `npos`. -/
def setCapacity (s : BasicString) (n : ℕ) : Option BasicString := do
  let s ← s.truncate n
  let cap ← s.capacity
  if (n < cap ∧ (← s.isHeap)) ∨ cap < n then
    if n = 0 then
      let s ← s.deallocateSelf
      s.resetToSSO
    else if n ≤ ssoCapacity then s.heapToSSO n
    else s.toNewBlock n
  else return s

/-- `shrink_to_fit`, and `set_capacity(npos)`. -/
def shrinkToFit (s : BasicString) : Option BasicString := do s.setCapacity (← s.getSize)

def reserve (s : BasicString) (n : ℕ) : Option BasicString := do
  let n := max n (← s.getSize)
  if (← s.capacity) < n then s.setCapacity n else return s

/-! ## Changes -/

/-- `append(pBegin, pEnd)`. -/
def append (s : BasicString) (src : Source) : Option BasicString := do
  if src.length = 0 then return s
  let nOldSize ← s.getSize
  let nCapacity ← s.capacity
  let nNewSize := nOldSize + src.length
  if nCapacity < nNewSize then
    let nLength := getNewCapacity nCapacity (nNewSize - nCapacity)
    let (s, b) := s.doAllocate (nLength + 1)
    let s ← s.copyTo (.own (← s.beginPtr) nOldSize) ⟨b, 0⟩
    let s ← s.copyTo src ⟨b, nOldSize⟩
    let s ← s.writeChar ⟨b, nNewSize⟩ 0
    let s ← s.deallocateSelf
    s.setHeapLayout b nLength nNewSize
  else
    let p ← s.endPtr
    let s ← s.copyTo src p
    let s ← s.writeChar (p.plus src.length) 0
    s.setSize nNewSize

/-- `append(n, c)`. -/
def appendN (s : BasicString) (n : ℕ) (c : UInt8) : Option BasicString := do
  if n = 0 then return s
  let nSize ← s.getSize
  let nCapacity ← s.capacity
  let s ← if nCapacity < nSize + n then
      s.reserve (getNewCapacity nCapacity (nSize + n - nCapacity))
    else pure s
  let p ← s.endPtr
  let s ← s.fillN p n c
  let s ← s.writeChar (p.plus n) 0
  s.setSize (nSize + n)

def pushBack (s : BasicString) (c : UInt8) : Option BasicString := s.appendN 1 c

def popBack (s : BasicString) : Option BasicString := do
  let p ← s.endPtr
  let s ← s.writeChar (p.plus (-1)) 0
  s.setSize ((← s.getSize) - 1)

/-- `erase(BeginPtr() + i, BeginPtr() + j)`. -/
def erase (s : BasicString) (i j : ℕ) : Option BasicString := do
  if i = j then return s
  let p ← s.beginPtr
  let nSize ← s.getSize
  let s ← s.copyTo (.own (p.plus j) (nSize - j + 1)) (p.plus i)
  s.setSize ((← s.getSize) - (j - i))

/-- `resize(n, c)`. -/
def resize (s : BasicString) (n : ℕ) (c : UInt8) : Option BasicString := do
  let nSize ← s.getSize
  if n < nSize then s.erase n nSize
  else if nSize < n then s.appendN (n - nSize) c
  else return s

def clear (s : BasicString) : Option BasicString := do
  let s ← s.setSize 0
  s.writeChar (← s.beginPtr) 0

/-- `assign(pBegin, pEnd)`. -/
def assign (s : BasicString) (src : Source) : Option BasicString := do
  let nSize ← s.getSize
  let p ← s.beginPtr
  if src.length ≤ nSize then
    let s ← s.copyTo src p
    s.erase src.length nSize
  else
    let s ← s.copyTo (src.take nSize) p
    s.append (src.drop nSize)

/-- `assign(n, c)`. -/
def assignN (s : BasicString) (n : ℕ) (c : UInt8) : Option BasicString := do
  let nSize ← s.getSize
  let p ← s.beginPtr
  if n ≤ nSize then
    let s ← s.fillN p n c
    s.erase n nSize
  else
    let s ← s.fillN p nSize c
    s.appendN (n - nSize) c

/-- `insert(BeginPtr() + i, pBegin, pEnd)` of characters from elsewhere, where there is room. -/
def insertInPlace (s : BasicString) (i : ℕ) (src : Source) : Option BasicString := do
  let p := (← s.beginPtr).plus i
  let nSavedSize ← s.getSize
  let nElementsAfter := nSavedSize - i
  let n := src.length
  let pOldEnd ← s.endPtr
  if n ≤ nElementsAfter then
    let s ← s.copyTo (.own (pOldEnd.plus (1 - n)) n) (pOldEnd.plus 1)
    let s ← s.setSize (nSavedSize + n)
    let s ← s.copyTo (.own p (nElementsAfter - n + 1)) (p.plus n)
    s.copyTo src p
  else
    let s ← s.copyTo (src.drop (nElementsAfter + 1)) (pOldEnd.plus 1)
    let s ← s.setSize (nSavedSize + (n - nElementsAfter))
    let nSavedSize ← s.getSize
    let s ← s.copyTo (.own p (nElementsAfter + 1)) (← s.endPtr)
    let s ← s.setSize (nSavedSize + nElementsAfter)
    s.copyTo (src.take (nElementsAfter + 1)) p

/-- A new block with the range `src` in place of the characters `i`, ..., `j - 1`. -/
def intoNewBlock (s : BasicString) (i j : ℕ) (src : Source) (nLength : ℕ) :
    Option BasicString := do
  let pBegin ← s.beginPtr
  let nOldSize ← s.getSize
  let (s, b) := s.doAllocate (nLength + 1)
  let s ← s.copyTo (.own pBegin i) ⟨b, 0⟩
  let s ← s.copyTo src ⟨b, i⟩
  let s ← s.copyTo (.own (pBegin.plus j) (nOldSize - j)) ⟨b, (i + src.length : ℕ)⟩
  let s ← s.writeChar ⟨b, (i + src.length + (nOldSize - j) : ℕ)⟩ 0
  let s ← s.deallocateSelf
  s.setHeapLayout b nLength (i + src.length + (nOldSize - j))

/-- `insert(BeginPtr() + i, pBegin, pEnd)` of characters from elsewhere. -/
def insertChars (s : BasicString) (i : ℕ) (cs : List UInt8) : Option BasicString := do
  if cs.length = 0 then return s
  let nOldSize ← s.getSize
  let nOldCap ← s.capacity
  if cs.length ≤ nOldCap - nOldSize then s.insertInPlace i (.chars cs)
  else s.intoNewBlock i i (.chars cs) (getNewCapacity nOldCap (nOldSize + cs.length - nOldCap))

/-- `insert(BeginPtr() + i, BeginPtr() + k, BeginPtr() + k + n)`: in the object by way of a
temporary string, with a block always into a new one. -/
def insertOwn (s : BasicString) (i k n : ℕ) : Option BasicString := do
  if n = 0 then return s
  let p := (← s.beginPtr).plus k
  if ← s.isHeap then
    let nOldSize ← s.getSize
    let nOldCap ← s.capacity
    let nLength := if n ≤ nOldCap - nOldSize then nOldSize + n
      else getNewCapacity nOldCap (nOldSize + n - nOldCap)
    s.intoNewBlock i i (.own p n) nLength
  else
    let stackTemp ← rangeInitialize (← s.readChars p n)
    s.insertChars i (← stackTemp.contents)

/-- `insert(BeginPtr() + i, n, c)`: the steps are those of a range of `n` characters. -/
def insertN (s : BasicString) (i n : ℕ) (c : UInt8) : Option BasicString :=
  s.insertChars i (List.replicate n c)

/-- `InsertInternal(BeginPtr() + i, c)`. -/
def insertInternal (s : BasicString) (i : ℕ) (c : UInt8) : Option BasicString := do
  let nSavedSize ← s.getSize
  let nOldCap ← s.capacity
  let p := (← s.beginPtr).plus i
  if nSavedSize + 1 ≤ nOldCap then
    let s ← s.copyTo (.own p (nSavedSize - i)) (p.plus 1)
    let s ← s.writeChar ((← s.endPtr).plus 1) 0
    let s ← s.writeChar p c
    s.setSize (nSavedSize + 1)
  else s.intoNewBlock i i (.chars [c]) (getNewCapacity nOldCap 1)

/-- `insert(BeginPtr() + i, c)`. -/
def insertChar (s : BasicString) (i : ℕ) (c : UInt8) : Option BasicString := do
  if i = (← s.getSize) then s.pushBack c else s.insertInternal i c

/-- `replace(BeginPtr() + i, BeginPtr() + j, pBegin2, pEnd2)` with characters from elsewhere. -/
def replaceChars (s : BasicString) (i j : ℕ) (cs : List UInt8) : Option BasicString := do
  let p := (← s.beginPtr).plus i
  let nLength1 := j - i
  if cs.length ≤ nLength1 then
    let s ← s.copyTo (.chars cs) p
    s.erase (i + cs.length) j
  else
    let s ← s.copyTo (.chars (cs.take nLength1)) p
    s.insertChars j (cs.drop nLength1)

/-- `replace(BeginPtr() + i, BeginPtr() + j, n, c)`: the steps are those of a range of `n`
characters. -/
def replaceN (s : BasicString) (i j n : ℕ) (c : UInt8) : Option BasicString :=
  s.replaceChars i j (List.replicate n c)

/-- `replace(BeginPtr() + i, BeginPtr() + j, BeginPtr() + k, BeginPtr() + k + n)`. -/
def replaceOwn (s : BasicString) (i j k n : ℕ) : Option BasicString := do
  let pBegin1 := (← s.beginPtr).plus i
  let pBegin2 := (← s.beginPtr).plus k
  let nLength1 := j - i
  if n ≤ nLength1 then
    let s ← s.copyTo (.own pBegin2 n) pBegin1
    s.erase (i + n) j
  else if j < k ∨ k + n ≤ i then
    let s ← s.copyTo (.own pBegin2 nLength1) pBegin1
    s.insertOwn j (k + nLength1) (n - nLength1)
  else
    let nOldSize ← s.getSize
    let nOldCap ← s.capacity
    s.intoNewBlock i j (.own pBegin2 n)
      (getNewCapacity nOldCap (nOldSize + (n - nLength1) - nOldCap))

/-- An assignment to `operator[](i)`. -/
def setChar (s : BasicString) (i : ℕ) (c : UInt8) : Option BasicString := do
  s.writeChar ((← s.beginPtr).plus i) c

end BasicString

end Dpp
