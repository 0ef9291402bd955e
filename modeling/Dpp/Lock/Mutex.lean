import Dpp.Nt

/-!
# The mutex word

`Mutex` spins on one word, `m_interlock`. Its two functions are given access by access, so that
other threads can move between a read and the exchange after it.
-/

namespace Dpp

/-- `Mutex`. -/
structure Mutex where
  interlock : BitVec 32
deriving DecidableEq

/-- The next access of a thread inside `Mutex::Lock`. -/
inductive LockPoint
  /-- The volatile read `m_interlock == 1`. -/
  | read
  /-- `InterlockedCompareExchange(&m_interlock, 1, 0) == 1`. -/
  | exchange
deriving DecidableEq

namespace Mutex

/-- `Mutex::Mutex`, which leaves the word as its storage held it. -/
def construct (storage : BitVec 32) : Mutex := { interlock := storage }

/-- One access of `Mutex::Lock`: the mutex afterwards, and the next access unless `Lock`
returns. -/
def lock (m : Mutex) : LockPoint → Mutex × Option LockPoint
  | .read => (m, if m.interlock = 1 then some .read else some .exchange)
  | .exchange =>
    let (word, found) := interlockedCompareExchange m.interlock 1 0
    ({ interlock := word }, if found = 1 then some .read else none)

/-- `Mutex::Unlock`. -/
def unlock (_ : Mutex) : Mutex := { interlock := 0 }

end Mutex

end Dpp
