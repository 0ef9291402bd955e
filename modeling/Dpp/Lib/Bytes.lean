import Mathlib.Data.Nat.Notation
import Mathlib.Logic.Basic
import Mathlib.Algebra.Order.Group.Nat
import Mathlib.Tactic.Ring

/-!
# Byte memory

A flat memory of bytes, the stretches of it a program writes, and little-endian words in it.

* `Span`: a stretch of addresses; `Span.Apart`, `Span.Within`.
* `put`: overwrite a span byte by byte; `fill`, `copy` and `writeLE` are cases of it.
* **`readLE_writeLE`**: a word reads back as written; `readLE_put_of_apart`: writes elsewhere do
  not change it.
-/

namespace Lib

/-- The addresses from `addr` on, `len` of them. -/
structure Span where
  addr : ℕ
  len : ℕ
deriving DecidableEq

namespace Span

instance : Membership ℕ Span := ⟨fun r x => r.addr ≤ x ∧ x < r.addr + r.len⟩

theorem mem_iff {r : Span} {x : ℕ} : x ∈ r ↔ r.addr ≤ x ∧ x < r.addr + r.len := Iff.rfl

instance (r : Span) (x : ℕ) : Decidable (x ∈ r) := inferInstanceAs (Decidable (_ ∧ _))

/-- One of the two ends before the other begins. -/
def Apart (r t : Span) : Prop := r.addr + r.len ≤ t.addr ∨ t.addr + t.len ≤ r.addr

def Within (r t : Span) : Prop := t.addr ≤ r.addr ∧ r.addr + r.len ≤ t.addr + t.len

instance (r t : Span) : Decidable (r.Apart t) := inferInstanceAs (Decidable (_ ∨ _))

instance (r t : Span) : Decidable (r.Within t) := inferInstanceAs (Decidable (_ ∧ _))

variable {r t u : Span} {x : ℕ}

theorem Apart.symm (h : r.Apart t) : t.Apart r := Or.symm h

theorem Apart.not_mem (h : r.Apart t) (hx : x ∈ r) : x ∉ t := by
  intro ht
  rw [mem_iff] at hx ht
  unfold Apart at h
  omega

end Span

/-- A byte at every address. -/
abbrev Mem := ℕ → UInt8

namespace Mem

/-- `f 0`, `f 1`, .. on the `n` bytes from `a` on. -/
def put (m : Mem) (a n : ℕ) (f : ℕ → UInt8) : Mem :=
  fun x => if a ≤ x ∧ x < a + n then f (x - a) else m x

def fill (m : Mem) (a n : ℕ) (b : UInt8) : Mem := m.put a n fun _ => b

/-- The `n` bytes from `s` on, to `d`. -/
def copy (m : Mem) (d s n : ℕ) : Mem := m.put d n fun i => m (s + i)

/-- The `n` lowest bytes of `v`, the lowest first. -/
def writeLE (m : Mem) (a n v : ℕ) : Mem := m.put a n fun i => UInt8.ofNat (v / 256 ^ i)

def readLE (m : Mem) (a : ℕ) : ℕ → ℕ
  | 0 => 0
  | n + 1 => m.readLE a n + (m (a + n)).toNat * 256 ^ n

variable {m m' : Mem} {a n x : ℕ} {f : ℕ → UInt8}

theorem put_of_mem (hl : a ≤ x) (hr : x < a + n) : m.put a n f x = f (x - a) := by
  unfold put
  rw [if_pos ⟨hl, hr⟩]

theorem put_add (i : ℕ) (hi : i < n) : m.put a n f (a + i) = f i := by
  rw [put_of_mem (by omega) (by omega), Nat.add_sub_cancel_left]

theorem put_of_not_mem (h : x ∉ Span.mk a n) : m.put a n f x = m x := by
  unfold put
  exact if_neg h

theorem copy_add {d s : ℕ} (i : ℕ) (hi : i < n) : m.copy d s n (d + i) = m (s + i) := put_add i hi

theorem copy_of_not_mem {d s : ℕ} (h : x ∉ Span.mk d n) : m.copy d s n x = m x :=
  put_of_not_mem h

theorem readLE_congr (h : ∀ i < n, m (a + i) = m' (a + i)) : m.readLE a n = m'.readLE a n := by
  induction n with
  | zero => rfl
  | succ n ih =>
    unfold readLE
    rw [ih fun i hi => h i (Nat.lt_succ_of_lt hi), h n (Nat.lt_succ_self n)]

/-- A word that reads the same in two memories which agree on the span `r` around it. -/
theorem readLE_of_within {r : Span} (h : ∀ x ∈ r, m x = m' x) (hw : (Span.mk a n).Within r) :
    m.readLE a n = m'.readLE a n := by
  refine readLE_congr fun i hi => h _ ?_
  rw [Span.mem_iff]
  unfold Span.Within at hw
  simp only at hw
  omega

theorem readLE_put_of_apart {b k : ℕ} (h : (Span.mk a n).Apart (Span.mk b k)) :
    (m.put b k f).readLE a n = m.readLE a n := by
  refine readLE_congr fun i hi => put_of_not_mem (h.not_mem ?_)
  rw [Span.mem_iff]
  simp only
  omega

theorem readLE_of_bytes {v : ℕ} (h : ∀ i < n, m (a + i) = UInt8.ofNat (v / 256 ^ i)) :
    m.readLE a n = v % 256 ^ n := by
  induction n with
  | zero => exact (Nat.mod_one v).symm
  | succ n ih =>
    have hn : (m (a + n)).toNat = v / 256 ^ n % 256 := by
      rw [h n (Nat.lt_succ_self n)]
      exact UInt8.toNat_ofNat'
    unfold readLE
    rw [ih fun i hi => h i (Nat.lt_succ_of_lt hi), hn, pow_succ, Nat.mod_mul]
    ring

/-- **A word reads back as written**, modulo its width. -/
theorem readLE_writeLE (m : Mem) (a n v : ℕ) : (m.writeLE a n v).readLE a n = v % 256 ^ n :=
  readLE_of_bytes fun i hi => put_add i hi

end Mem

end Lib
