import Dpp.Lib.Lifo
import Dpp.Lib.System
import Dpp.Nt
import Mathlib.Logic.Function.Basic

/-!
# The driver from load to unload

`_CRT_DriverEntry` runs the constructors, resolves the system routines and calls `DriverEntry`;
`_CRT_DriverUnload` calls `DriverUnload` and then the functions registered with `atexit`. What the
driver's own code does at each of these places is up to it, and so are the actions.

* `Routine`, `ntdllZwFunctions`: the system routines and their table.
* `Point`: where the CRT is; `Point.walk`: where its loop over `atexit_list` is.
* `State`, `Action`, `step`, `system`: the load, the driver's code in between, and the unload.
-/

namespace Dpp.Driver

open Lib

/-- `STATUS_NOT_IMPLEMENTED`. -/
def statusNotImplemented : NtStatus := 0xC0000002

/-! ## The system routines -/

/-- The routines `ntdll_zw_functions` looks up. -/
inductive Routine
  | mmMapIoSpaceEx
  | obOpenObjectByPointer
  | mmCopyMemory
  | mmCopyVirtualMemory
  | rtlLookupFunctionEntry
  | zwTraceControl
  | zwTraceEvent
  | zwQueryVirtualMemory
  | zwProtectVirtualMemory
  | zwQuerySystemInformation
  | zwCreateFile
  | zwClose
  | zwWriteFile
  | exAllocateTimer
  | exCancelTimer
  | exSetTimer
  | exDeleteTimer
deriving DecidableEq

/-- In the order of the lookups. -/
def Routine.all : List Routine :=
  [mmMapIoSpaceEx, obOpenObjectByPointer, mmCopyMemory, mmCopyVirtualMemory,
    rtlLookupFunctionEntry, zwTraceControl, zwTraceEvent, zwQueryVirtualMemory,
    zwProtectVirtualMemory, zwQuerySystemInformation, zwCreateFile, zwClose, zwWriteFile,
    exAllocateTimer, exCancelTimer, exSetTimer, exDeleteTimer]

/-- The function pointers: which of them are not `NULL`. -/
abbrev Table := Routine → Bool

/-- `ntdll_zw_functions`: the table and the number of routines `MmGetSystemRoutineAddress` has not
found. -/
def ntdllZwFunctions (found : Routine → Bool) (table : Table) : Table × ℕ :=
  Routine.all.foldl
    (fun r w => (Function.update r.1 w (found w), if found w then r.2 else r.2 + 1)) (table, 0)

/-! ## The state -/

/-- `func_node`; the node of the `k`-th registration is `k`. -/
structure Node (F : Type) where
  func : F
  next : Option ℕ

/-- Where the loop of `__dtors` is. -/
inductive Walk
  | before
  /-- At the loop's test. -/
  | test (p : Option ℕ)
  /-- From the call of `p->func` to `free(p)`. -/
  | node (p : ℕ)
  /-- Before `p = p->next`. -/
  | advance (p : ℕ)
  | after
deriving DecidableEq

/-- Where the CRT is. -/
inductive Point (F : Type)
  /-- In `__ctors`, with the constructors still to call. -/
  | ctors (rest : List F)
  /-- In a constructor. -/
  | ctor (func : F) (rest : List F)
  /-- At `ntdll_zw_functions`. -/
  | resolve
  /-- In `DriverEntry`. -/
  | driverEntry
  /-- `_CRT_DriverEntry` has returned. -/
  | returned (status : NtStatus)
  /-- In `DriverUnload`. -/
  | driverUnload
  | dtors (p : Option ℕ)
  /-- In an exit function. -/
  | exitFunc (p : ℕ) (func : F)
  | free (p : ℕ)
  | next (p : ℕ)
  /-- `_CRT_DriverUnload` has returned. -/
  | unloaded
  /-- The image was unloaded without a call of `_CRT_DriverUnload`. -/
  | dropped
  /-- After a call through a null pointer. -/
  | bugCheck

namespace Point

variable {F : Type}

/-- Code of the driver itself may run. -/
def hook : Point F → Bool
  | ctor .. | driverEntry | driverUnload | exitFunc .. => true
  | returned status => ntSuccess status
  | _ => false

def walk : Point F → Walk
  | dtors p => .test p
  | exitFunc p _ | free p => .node p
  | next p => .advance p
  | unloaded => .after
  | _ => .before

/-- The driver image is no longer loaded. -/
def gone : Point F → Bool
  | unloaded | dropped => true
  | _ => false

end Point

/-- The CRT's data, the nodes in memory, and what has been registered, called and freed. -/
structure State (F : Type) where
  point : Point F
  table : Table := fun _ => false
  driverUnload : Bool := false
  atexitList : Option ℕ := none
  node : ℕ → Option (Node F) := fun _ => none
  registered : ℕ := 0
  log : List (Lifo.Event ℕ) := []
  frees : List ℕ := []

inductive Action (F : Type)
  /-- The CRT goes on. -/
  | crt
  | resolve (found : Routine → Bool)
  /-- The driver's code returns; `status` is what `DriverEntry` returns. -/
  | returns (status : NtStatus)
  /-- The driver's code calls `atexit`; `alloc` is whether `malloc` gives a node. -/
  | atexit (func : Option F) (alloc : Bool)
  /-- The driver's code enters a `Wrapper` function, in person or through `ExTimer`. -/
  | enter (w : Routine)
  /-- The system unloads the driver. -/
  | unload
  /-- Somebody else gets the memory of a freed node. -/
  | overwrite (k : ℕ) (n : Option (Node F))

namespace State

variable {F : Type} (s : State F)

/-- The constructors of `ctorList`, which `__ctors` calls from the last to the first. -/
def initial (ctorList : List F) : State F := { point := .ctors ctorList.reverse }

/-- `register_atexit` with a node from `malloc`. -/
def register (func : F) : State F :=
  { s with
    node := Function.update s.node s.registered (some { func, next := s.atexitList })
    atexitList := some s.registered
    registered := s.registered + 1
    log := s.log ++ [.push s.registered] }

/-- `atexit` and the value it returns. -/
def atexit (func : Option F) (alloc : Bool) : State F × Int :=
  match func with
  | none => (s, -1)
  | some func => if alloc then (s.register func, 0) else (s, -1)

/-- The next step of `__ctors` and `__dtors`. -/
def crt : Option (State F) :=
  match s.point with
  | .ctors (func :: rest) => some { s with point := .ctor func rest }
  | .ctors [] => some { s with point := .resolve }
  | .dtors (some p) =>
    (s.node p).map fun n => { s with point := .exitFunc p n.func, log := s.log ++ [.pop p] }
  | .dtors none => some { s with point := .unloaded, atexitList := none }
  | .free p =>
    if p < s.registered ∧ p ∉ s.frees then some { s with point := .next p, frees := s.frees ++ [p] }
    else none
  | .next p => (s.node p).map fun n => { s with point := .dtors n.next }
  | _ => none

/-- `_CRT_DriverEntry` after `ntdll_zw_functions`. -/
def resolve (found : Routine → Bool) : State F :=
  let r := ntdllZwFunctions found s.table
  { s with table := r.1, point := if r.2 ≠ 0 then .returned statusNotImplemented else .driverEntry }

/-- The driver's code returns to the CRT. -/
def returns (status : NtStatus) : Option (State F) :=
  match s.point with
  | .ctor _ rest => some { s with point := .ctors rest }
  | .driverEntry => some { s with point := .returned status, driverUnload := true }
  | .driverUnload => some { s with point := .dtors s.atexitList }
  | .exitFunc p _ => some { s with point := .free p }
  | _ => none

end State

/-- The steps of the CRT, of the driver's code and of the system. The system calls `DriverUnload`
of the driver object if it is set and the load has succeeded. -/
def step {F : Type} (s : State F) : Action F → Option (State F)
  | .crt => s.crt
  | .resolve found =>
    match s.point with
    | .resolve => some (s.resolve found)
    | _ => none
  | .returns status => s.returns status
  | .atexit func alloc => if s.point.hook then some (s.atexit func alloc).1 else none
  | .enter w =>
    if s.point.hook then some (if s.table w then s else { s with point := .bugCheck }) else none
  | .unload =>
    match s.point with
    | .returned status =>
      some { s with point := if ntSuccess status && s.driverUnload then .driverUnload else .dropped }
    | _ => none
  | .overwrite k n =>
    if k ∈ s.frees then some { s with node := Function.update s.node k n } else none

variable (F : Type) in
def system : System (State F) (Action F) where
  init s := ∃ ctorList, s = .initial ctorList
  step := step

/-! ## What a step can do -/

/-- The steps, one by one. -/
inductive Does {F : Type} (s : State F) : Action F → State F → Prop
  | ctor (func : F) (rest : List F) (h : s.point = .ctors (func :: rest)) :
      Does s .crt { s with point := .ctor func rest }
  | ctorsEnd (h : s.point = .ctors []) : Does s .crt { s with point := .resolve }
  | call (p : ℕ) (n : Node F) (h : s.point = .dtors (some p)) (hn : s.node p = some n) :
      Does s .crt { s with point := .exitFunc p n.func, log := s.log ++ [.pop p] }
  | dtorsEnd (h : s.point = .dtors none) :
      Does s .crt { s with point := .unloaded, atexitList := none }
  | free (p : ℕ) (h : s.point = .free p) (hr : p < s.registered) (hf : p ∉ s.frees) :
      Does s .crt { s with point := .next p, frees := s.frees ++ [p] }
  | next (p : ℕ) (n : Node F) (h : s.point = .next p) (hn : s.node p = some n) :
      Does s .crt { s with point := .dtors n.next }
  | resolve (found : Routine → Bool) (h : s.point = .resolve) :
      Does s (.resolve found) (s.resolve found)
  | ctorReturns (func : F) (rest : List F) (status : NtStatus) (h : s.point = .ctor func rest) :
      Does s (.returns status) { s with point := .ctors rest }
  | entryReturns (status : NtStatus) (h : s.point = .driverEntry) :
      Does s (.returns status) { s with point := .returned status, driverUnload := true }
  | unloadReturns (status : NtStatus) (h : s.point = .driverUnload) :
      Does s (.returns status) { s with point := .dtors s.atexitList }
  | exitReturns (p : ℕ) (func : F) (status : NtStatus) (h : s.point = .exitFunc p func) :
      Does s (.returns status) { s with point := .free p }
  | register (func : F) (h : s.point.hook) : Does s (.atexit (some func) true) (s.register func)
  | refuse (func : Option F) (alloc : Bool) (h : s.point.hook)
      (hr : func = none ∨ alloc = false) : Does s (.atexit func alloc) s
  | enter (w : Routine) (h : s.point.hook) (ht : s.table w = true) : Does s (.enter w) s
  | crash (w : Routine) (h : s.point.hook) (ht : s.table w = false) :
      Does s (.enter w) { s with point := .bugCheck }
  | unload (status : NtStatus) (h : s.point = .returned status)
      (hs : (ntSuccess status && s.driverUnload) = true) :
      Does s .unload { s with point := .driverUnload }
  | drop (status : NtStatus) (h : s.point = .returned status)
      (hs : (ntSuccess status && s.driverUnload) = false) :
      Does s .unload { s with point := .dropped }
  | overwrite (k : ℕ) (n : Option (Node F)) (h : k ∈ s.frees) :
      Does s (.overwrite k n) { s with node := Function.update s.node k n }

theorem step_cases {F : Type} {s s' : State F} {a : Action F} (h : step s a = some s') :
    Does s a s' := by
  cases a with
  | crt =>
    simp only [step, State.crt] at h
    split at h
    · cases h
      exact .ctor _ _ ‹_›
    · cases h
      exact .ctorsEnd ‹_›
    · obtain ⟨n, hn, rfl⟩ := Option.map_eq_some_iff.mp h
      exact .call _ n ‹_› hn
    · cases h
      exact .dtorsEnd ‹_›
    · simp only [Option.ite_none_right_eq_some, Option.some.injEq] at h
      obtain ⟨⟨hr, hf⟩, rfl⟩ := h
      exact .free _ ‹_› hr hf
    · obtain ⟨n, hn, rfl⟩ := Option.map_eq_some_iff.mp h
      exact .next _ n ‹_› hn
    · cases h
  | resolve found =>
    simp only [step] at h
    split at h
    · cases h
      exact .resolve found ‹_›
    · cases h
  | returns status =>
    simp only [step, State.returns] at h
    split at h
    · cases h
      exact .ctorReturns _ _ status ‹_›
    · cases h
      exact .entryReturns status ‹_›
    · cases h
      exact .unloadReturns status ‹_›
    · cases h
      exact .exitReturns _ _ status ‹_›
    · cases h
  | atexit func alloc =>
    simp only [step, Option.ite_none_right_eq_some, Option.some.injEq] at h
    obtain ⟨hh, rfl⟩ := h
    cases func with
    | none => exact .refuse none alloc hh (.inl rfl)
    | some func =>
      cases alloc with
      | false => exact .refuse (some func) false hh (.inr rfl)
      | true => exact .register func hh
  | enter w =>
    simp only [step, Option.ite_none_right_eq_some, Option.some.injEq] at h
    obtain ⟨hh, rfl⟩ := h
    cases ht : s.table w with
    | true => exact .enter w hh ht
    | false => exact .crash w hh ht
  | unload =>
    simp only [step] at h
    split at h
    · rename_i status hp
      cases h
      cases hs : ntSuccess status && s.driverUnload with
      | true => exact .unload status hp hs
      | false => exact .drop status hp hs
    · cases h
  | overwrite k n =>
    simp only [step, Option.ite_none_right_eq_some, Option.some.injEq] at h
    obtain ⟨hk, rfl⟩ := h
    exact .overwrite k n hk

end Dpp.Driver
