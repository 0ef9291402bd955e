import Mathlib.Data.Int.Notation
import Mathlib.Data.BitVec

/-!
# What the kernel gives

The status codes, the interlocked exchange and the notification event the driver code is written
against. A `LONG` and an `NTSTATUS` are 32 bits wide.
-/

namespace Dpp

/-- `NTSTATUS`. -/
abbrev NtStatus := BitVec 32

/-- `STATUS_SUCCESS`. -/
def statusSuccess : NtStatus := 0

/-- `STATUS_TIMEOUT`. -/
def statusTimeout : NtStatus := 0x102

/-- `STATUS_UNSUCCESSFUL`. -/
def statusUnsuccessful : NtStatus := 0xC0000001

/-- `NT_SUCCESS`: the status is not negative. -/
def ntSuccess (status : NtStatus) : Bool := 0 ≤ status.toInt

/-- `InterlockedCompareExchange`: the word it leaves and the word it found. -/
def interlockedCompareExchange (destination exchange comparand : BitVec 32) :
    BitVec 32 × BitVec 32 :=
  (if destination = comparand then exchange else destination, destination)

/-! ## The notification event -/

/-- A `KEVENT` of type `NotificationEvent`. -/
structure KEvent where
  signaled : Bool := false

namespace KEvent

/-- `KeSetEvent`: the event afterwards and its previous state. -/
def set (e : KEvent) : KEvent × Int := ({ signaled := true }, if e.signaled then 1 else 0)

/-- `KeResetEvent`: the event afterwards and its previous state. -/
def reset (e : KEvent) : KEvent × Int := ({ signaled := false }, if e.signaled then 1 else 0)

end KEvent

end Dpp
