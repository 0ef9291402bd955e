import Mathlib.Data.Int.Order.Basic
import Mathlib.Logic.Function.Basic
import Mathlib.Tactic.SplitIfs
import Mathlib.Tactic.TypeStar

/-!
# Raw storage and the objects in it

Allocations of a fixed number of cells; a cell is raw or holds one object. What C++ leaves
undefined, and the release of storage in which an object still lives, is `none`.

* `Ptr`, `Storage`, `Storage.Live`: addresses, allocations, the cells one may touch.
* `alloc`, `free`, `freeTrivial`; `read`, `construct`, `destroy`, `assign`; `store` and
  `memmove` for types without constructors and destructors.
* `destroyRun`: the loop `for (; p < q; ++p) p->~T()`; **`destroyRun_eq`**.
-/

namespace Lib

/-- An address: an allocation and an offset in it, counted in objects. -/
@[ext] structure Ptr where
  base : ℕ
  off : ℤ
deriving DecidableEq, Repr

namespace Ptr

/-- Pointer arithmetic inside one allocation. -/
def plus (p : Ptr) (n : ℤ) : Ptr := ⟨p.base, p.off + n⟩

@[simp] theorem plus_base (p : Ptr) (n : ℤ) : (p.plus n).base = p.base := rfl

@[simp] theorem plus_off (p : Ptr) (n : ℤ) : (p.plus n).off = p.off + n := rfl

end Ptr

/-- The live allocations with their sizes, and the objects in their cells. -/
@[ext] structure Storage (α : Type*) where
  size : ℕ → Option ℕ := fun _ => none
  obj : Ptr → Option α := fun _ => none
  next : ℕ := 0

namespace Storage

variable {α : Type*} {s t : Storage α} {p q : Ptr} {a b n : ℕ} {x : α}

/-- The address is that of a cell of a live allocation. -/
def Live (s : Storage α) (p : Ptr) : Prop := 0 ≤ p.off ∧ p.off < (s.size p.base).getD 0

instance (s : Storage α) (p : Ptr) : Decidable (s.Live p) := by unfold Live; infer_instance

/-- What a cell holds from now on. -/
def set (s : Storage α) (p : Ptr) (o : Option α) : Storage α :=
  { s with obj := Function.update s.obj p o }

/-- A new allocation of `n` raw cells. -/
def alloc (s : Storage α) (n : ℕ) : Storage α × ℕ :=
  ({ size := Function.update s.size s.next (some n)
     obj := fun p => if p.base = s.next then none else s.obj p
     next := s.next + 1 }, s.next)

/-- The end of a live allocation of objects that need no destructor. -/
def freeTrivial (s : Storage α) (a : ℕ) : Option (Storage α) :=
  if s.size a = none then none else some { s with size := Function.update s.size a none }

/-- The end of a live allocation, in which no object may be left. -/
def free (s : Storage α) (a : ℕ) : Option (Storage α) :=
  if ∀ i < (s.size a).getD 0, (s.obj ⟨a, i⟩).isNone then s.freeTrivial a else none

/-- The object in a cell. -/
def read (s : Storage α) (p : Ptr) : Option α := if s.Live p then s.obj p else none

/-- Placement `new` in a raw cell. -/
def construct (s : Storage α) (p : Ptr) (x : α) : Option (Storage α) :=
  if s.Live p ∧ (s.obj p).isNone then some (s.set p (some x)) else none

/-- The destructor of the object in a cell. -/
def destroy (s : Storage α) (p : Ptr) : Option (Storage α) :=
  if s.Live p ∧ (s.obj p).isSome then some (s.set p none) else none

/-- An assignment to the object in a cell. -/
def assign (s : Storage α) (p : Ptr) (x : α) : Option (Storage α) :=
  if s.Live p ∧ (s.obj p).isSome then some (s.set p (some x)) else none

/-- An assignment to a cell of a type that needs no constructor. -/
def store (s : Storage α) (p : Ptr) (x : α) : Option (Storage α) :=
  if s.Live p then some (s.set p (some x)) else none

/-- The cells `p`, `p + 1`, ..., `p + n - 1` are live. -/
def LiveRun (s : Storage α) (p : Ptr) (n : ℕ) : Prop :=
  0 ≤ p.off ∧ p.off + n ≤ (s.size p.base).getD 0

instance (s : Storage α) (p : Ptr) (n : ℕ) : Decidable (s.LiveRun p n) := by
  unfold LiveRun; infer_instance

/-- `memmove` of `n` cells; they may overlap. -/
def memmove (s : Storage α) (dst src : Ptr) (n : ℕ) : Option (Storage α) :=
  if s.LiveRun dst n ∧ s.LiveRun src n then
    some { s with
      obj := fun p =>
        if p.base = dst.base ∧ dst.off ≤ p.off ∧ p.off < dst.off + n then
          s.obj (src.plus (p.off - dst.off))
        else s.obj p }
  else none

/-- The destructors of `n` cells in a row. -/
def destroyRun (s : Storage α) (p : Ptr) : ℕ → Option (Storage α)
  | 0 => some s
  | n + 1 => do
    let s ← s.destroy p
    s.destroyRun (p.plus 1) n

/-! ## What each operation leaves -/

@[simp] theorem set_size (o : Option α) : (s.set p o).size = s.size := rfl

@[simp] theorem set_next (o : Option α) : (s.set p o).next = s.next := rfl

@[simp] theorem set_obj_self (o : Option α) : (s.set p o).obj p = o := Function.update_self ..

theorem set_obj_of_ne (o : Option α) (h : q ≠ p) : (s.set p o).obj q = s.obj q :=
  Function.update_of_ne h ..

theorem set_obj (o : Option α) : (s.set p o).obj q = if q = p then o else s.obj q := by
  split_ifs with h
  · rw [h, set_obj_self]
  · rw [set_obj_of_ne o h]

@[simp] theorem live_set (o : Option α) : (s.set p o).Live q ↔ s.Live q := Iff.rfl

theorem live_congr (h : t.size = s.size) : t.Live p ↔ s.Live p := by rw [Live, Live, h]

theorem live_of_size (h : s.size p.base = some n) (h0 : 0 ≤ p.off) (hn : p.off < n) :
    s.Live p := by
  rw [Live, h]
  exact ⟨h0, hn⟩

theorem not_live_of_neg (h : p.off < 0) : ¬ s.Live p := fun hl => absurd hl.1 (by omega)

@[simp] theorem alloc_snd : (s.alloc n).2 = s.next := rfl

@[simp] theorem alloc_next : (s.alloc n).1.next = s.next + 1 := rfl

theorem alloc_size : (s.alloc n).1.size a = if a = s.next then some n else s.size a :=
  Function.update_apply ..

@[simp] theorem alloc_size_self : (s.alloc n).1.size s.next = some n := Function.update_self ..

theorem alloc_size_of_ne (h : a ≠ s.next) : (s.alloc n).1.size a = s.size a :=
  Function.update_of_ne h ..

theorem alloc_obj :
    (s.alloc n).1.obj p = if p.base = s.next then none else s.obj p := rfl

theorem read_eq (h : s.Live p) (ho : s.obj p = some x) : s.read p = some x := by
  rw [read, if_pos h, ho]

theorem construct_eq (h : s.Live p) (ho : s.obj p = none) :
    s.construct p x = some (s.set p (some x)) := by
  rw [construct, if_pos ⟨h, by rw [ho]; rfl⟩]

theorem construct_of_not_live (h : ¬ s.Live p) : s.construct p x = none :=
  if_neg fun hl => h hl.1

theorem destroy_eq (h : s.Live p) (ho : s.obj p ≠ none) : s.destroy p = some (s.set p none) := by
  rw [destroy, if_pos ⟨h, Option.isSome_iff_ne_none.mpr ho⟩]

theorem assign_eq (h : s.Live p) (ho : s.obj p ≠ none) :
    s.assign p x = some (s.set p (some x)) := by
  rw [assign, if_pos ⟨h, Option.isSome_iff_ne_none.mpr ho⟩]

theorem store_eq (h : s.Live p) : s.store p x = some (s.set p (some x)) := if_pos h

theorem freeTrivial_eq (h : s.size a = some n) :
    s.freeTrivial a = some { s with size := Function.update s.size a none } := by
  rw [freeTrivial, if_neg (by rw [h]; exact Option.some_ne_none n)]

theorem free_eq (h : s.size a = some n) (ho : ∀ i < n, s.obj ⟨a, (i : ℕ)⟩ = none) :
    s.free a = some { s with size := Function.update s.size a none } := by
  rw [free, if_pos, freeTrivial_eq h]
  intro i hi
  rw [h] at hi
  rw [ho i hi]
  rfl

theorem liveRun_of_size {i m : ℕ} (h : s.size a = some m) (hi : i + n ≤ m) :
    s.LiveRun ⟨a, i⟩ n := by
  refine ⟨Int.natCast_nonneg _, ?_⟩
  show (i : ℤ) + n ≤ ((s.size a).getD 0 : ℕ)
  rw [h, Option.getD_some]
  omega

theorem memmove_eq {dst src : Ptr} (hd : s.LiveRun dst n) (hs : s.LiveRun src n) :
    ∃ t, s.memmove dst src n = some t ∧ t.size = s.size ∧ t.next = s.next ∧
      ∀ j < n, t.obj (dst.plus (j : ℕ)) = s.obj (src.plus (j : ℕ)) := by
  rw [memmove, if_pos ⟨hd, hs⟩]
  refine ⟨_, rfl, rfl, rfl, fun j hj => ?_⟩
  have hin : dst.off ≤ dst.off + j ∧ dst.off + j < dst.off + n := by omega
  show (if _ then _ else _) = _
  rw [if_pos ⟨rfl, hin⟩, Ptr.plus_off, show dst.off + (j : ℤ) - dst.off = j by omega]

/-! ## The destructors of a row of objects -/

/-- Raw cells `p`, `p + 1`, ..., `p + n - 1`; everything else as it was. -/
def wipe (s : Storage α) (p : Ptr) (n : ℕ) : Storage α :=
  { s with
    obj := fun q => if q.base = p.base ∧ p.off ≤ q.off ∧ q.off < p.off + n then none
      else s.obj q }

@[simp] theorem wipe_size : (s.wipe p n).size = s.size := rfl

@[simp] theorem wipe_next : (s.wipe p n).next = s.next := rfl

theorem wipe_obj : (s.wipe p n).obj q =
    if q.base = p.base ∧ p.off ≤ q.off ∧ q.off < p.off + n then none else s.obj q := rfl

theorem wipe_zero : s.wipe p 0 = s := by
  refine Storage.ext rfl ?_ rfl
  funext q
  rw [wipe_obj, if_neg (by omega)]

theorem wipe_succ : (s.set p none).wipe (p.plus 1) n = s.wipe p (n + 1) := by
  refine Storage.ext rfl ?_ rfl
  funext q
  rw [wipe_obj, wipe_obj, set_obj, Ptr.plus_base, Ptr.plus_off]
  by_cases hq : q = p
  · subst hq
    have hpos : q.base = q.base ∧ q.off ≤ q.off ∧ q.off < q.off + (n + 1 : ℕ) :=
      ⟨rfl, le_refl _, by omega⟩
    rw [if_pos rfl, ite_self, if_pos hpos]
  · have hne : q.base = p.base → q.off ≠ p.off := fun hb ho => hq (Ptr.ext hb ho)
    rw [if_neg hq]
    by_cases hr : q.base = p.base ∧ p.off + 1 ≤ q.off ∧ q.off < p.off + 1 + n
    · rw [if_pos hr, if_pos ⟨hr.1, by omega, by omega⟩]
    · rw [if_neg hr, if_neg]
      rintro ⟨hb, h1, h2⟩
      have := hne hb
      exact hr ⟨hb, by omega, by omega⟩

theorem destroyRun_eq (h : s.LiveRun p n)
    (ho : ∀ i < n, s.obj (p.plus (i : ℕ)) ≠ none) :
    s.destroyRun p n = some (s.wipe p n) := by
  induction n generalizing s p with
  | zero => rw [destroyRun, wipe_zero]
  | succ n ih =>
    obtain ⟨h0, hn⟩ := h
    have hp : s.obj p ≠ none := by simpa [Ptr.plus] using ho 0 (by omega)
    rw [destroyRun, destroy_eq ⟨h0, by push_cast at hn; omega⟩ hp]
    have hrun : (s.set p none).LiveRun (p.plus 1) n := by
      refine ⟨by rw [Ptr.plus_off]; omega, ?_⟩
      rw [Ptr.plus_off, Ptr.plus_base, set_size]
      push_cast at hn
      omega
    show (s.set p none).destroyRun (p.plus 1) n = _
    rw [ih hrun ?_, wipe_succ]
    intro i hi
    have hne : (p.plus 1).plus (i : ℕ) ≠ p := fun hc => by
      have := congrArg Ptr.off hc
      simp only [Ptr.plus_off] at this
      omega
    have hi' : (p.plus 1).plus (i : ℕ) = p.plus ((i + 1 : ℕ) : ℤ) := by
      ext
      · rfl
      · simp only [Ptr.plus_off]
        omega
    rw [set_obj_of_ne _ hne, hi']
    exact ho (i + 1) (by omega)

end Storage

end Lib
