import Dpp.Lib.Storage
import Mathlib.Data.List.Basic
import Mathlib.Tactic.Ring

/-!
# Rows of cells, and the bytes of numbers and addresses

Reading and writing many cells of an allocation at once, and cells that are bytes: of a number, or
of the address of an allocation.

* `Storage.Row`: what the cells from an address on hold; `readRun`, `write` and what they do:
  `readRun_eq`, `write_eq`, `row_put`, `Row.put`.
* `Cell`: a byte of a value; `Cell.ofNat`, `Cell.ofAddr` and back again.
* **`Cell.toNat_ofNat`**, **`Cell.toAddr_ofAddr`**: a value reads back as written.
-/

namespace Lib

namespace Storage

variable {α : Type*} {s t : Storage α} {p q : Ptr} {xs ys : List α} {a i n : ℕ} {x : α}

/-- The cells from `p` on hold `xs`. -/
def Row (s : Storage α) (p : Ptr) (xs : List α) : Prop :=
  ∀ i < xs.length, s.obj (p.plus (i : ℕ)) = xs[i]?

/-- The objects in `n` cells in a row. -/
def readRun (s : Storage α) (p : Ptr) : ℕ → Option (List α)
  | 0 => some []
  | n + 1 => do
    let x ← s.read p
    let xs ← s.readRun (p.plus 1) n
    return x :: xs

/-- The cells from `p` on hold `xs` from now on. -/
def put (s : Storage α) (p : Ptr) (xs : List α) : Storage α :=
  { s with
    obj := fun q => if q.base = p.base ∧ p.off ≤ q.off ∧ q.off < p.off + xs.length then
      xs[(q.off - p.off).toNat]? else s.obj q }

/-- Assignments to the cells from `p` on, of a type that needs no constructor. -/
def write (s : Storage α) (p : Ptr) (xs : List α) : Option (Storage α) :=
  if s.LiveRun p xs.length then some (s.put p xs) else none

@[simp] theorem put_size : (s.put p xs).size = s.size := rfl

@[simp] theorem put_next : (s.put p xs).next = s.next := rfl

theorem put_obj_of_ne_base (h : q.base ≠ p.base) : (s.put p xs).obj q = s.obj q :=
  if_neg fun hq => h hq.1

theorem put_obj_in (h : i < xs.length) : (s.put p xs).obj (p.plus (i : ℕ)) = xs[i]? := by
  have hi : (p.plus (i : ℕ)).off - p.off = i := by rw [Ptr.plus_off]; omega
  rw [put]
  dsimp only
  rw [if_pos ⟨rfl, by rw [Ptr.plus_off]; omega, by rw [Ptr.plus_off]; omega⟩, hi, Int.toNat_natCast]

theorem put_obj_of_lt (h : q.off < p.off) : (s.put p xs).obj q = s.obj q :=
  if_neg fun hq => absurd hq.2.1 (by omega)

theorem put_obj_of_ge (h : p.off + xs.length ≤ q.off) : (s.put p xs).obj q = s.obj q :=
  if_neg fun hq => absurd hq.2.2 (by omega)

theorem write_eq (h : s.LiveRun p xs.length) : s.write p xs = some (s.put p xs) := if_pos h

theorem readRun_eq (hl : s.LiveRun p xs.length) (h : s.Row p xs) :
    s.readRun p xs.length = some xs := by
  induction xs generalizing p with
  | nil => rfl
  | cons x xs ih =>
    obtain ⟨h0, hn⟩ := hl
    rw [List.length_cons] at hn
    have hx : s.read p = some x := by
      have h1 := h 0 (by simp)
      refine read_eq ⟨h0, by push_cast at hn; omega⟩ ?_
      simpa [Ptr.plus] using h1
    have htail : s.readRun (p.plus 1) xs.length = some xs := by
      refine ih ⟨by rw [Ptr.plus_off]; omega, ?_⟩ fun i hi => ?_
      · rw [Ptr.plus_off, Ptr.plus_base]
        push_cast at hn
        omega
      · have h1 := h (i + 1) (by rw [List.length_cons]; omega)
        have hp : (p.plus 1).plus (i : ℕ) = p.plus ((i + 1 : ℕ) : ℤ) := by
          ext
          · rfl
          · simp only [Ptr.plus_off]
            omega
        rw [hp, h1, List.getElem?_cons_succ]
    rw [List.length_cons, readRun, hx]
    show ((s.readRun (p.plus 1) xs.length).bind fun ys => some (x :: ys)) = some (x :: xs)
    rw [htail]
    rfl

theorem liveRun_of_readRun (h : s.readRun p n = some xs) (hn : 0 < n) : s.LiveRun p n := by
  induction n generalizing p xs with
  | zero => omega
  | succ n ih =>
    obtain ⟨x, hx, h⟩ := Option.bind_eq_some_iff.mp h
    obtain ⟨ys, hys, -⟩ := Option.bind_eq_some_iff.mp h
    have hlive : s.Live p := by
      by_contra hno
      rw [read, if_neg hno] at hx
      cases hx
    obtain ⟨h0, hlt⟩ := hlive
    refine ⟨h0, ?_⟩
    rcases Nat.eq_zero_or_pos n with rfl | hpos
    · push_cast
      omega
    · have hend := (ih hys hpos).2
      rw [Ptr.plus_off, Ptr.plus_base] at hend
      push_cast
      omega

theorem row_put : (s.put p xs).Row p xs := fun _ h => put_obj_in h

theorem Row.congr (h : s.Row p xs) (ho : ∀ i < xs.length, t.obj (p.plus (i : ℕ)) =
    s.obj (p.plus (i : ℕ))) : t.Row p xs := fun i hi => (ho i hi).trans (h i hi)

theorem Row.put_base (h : s.Row q ys) (hb : q.base ≠ p.base) : (s.put p xs).Row q ys :=
  h.congr fun _ _ => put_obj_of_ne_base hb

theorem Row.put_before (h : s.Row q ys) (ho : q.off + ys.length ≤ p.off) :
    (s.put p xs).Row q ys :=
  h.congr fun i hi => put_obj_of_lt (by rw [Ptr.plus_off]; omega)

theorem Row.put_behind (h : s.Row q ys) (ho : p.off + xs.length ≤ q.off) :
    (s.put p xs).Row q ys :=
  h.congr fun i hi => put_obj_of_ge (by rw [Ptr.plus_off]; omega)

theorem row_append :
    s.Row p (xs ++ ys) ↔ s.Row p xs ∧ s.Row (p.plus xs.length) ys := by
  have hp : ∀ i : ℕ, (p.plus xs.length).plus i = p.plus ((xs.length + i : ℕ) : ℤ) := by
    intro i
    ext
    · rfl
    · simp only [Ptr.plus_off]
      omega
  refine ⟨fun h => ⟨fun i hi => ?_, fun i hi => ?_⟩, fun ⟨hx, hy⟩ i hi => ?_⟩
  · rw [h i (by rw [List.length_append]; omega), List.getElem?_append_left hi]
  · rw [hp, h _ (by rw [List.length_append]; omega), List.getElem?_append_right (by omega),
      Nat.add_sub_cancel_left]
  · rw [List.length_append] at hi
    by_cases hix : i < xs.length
    · rw [hx i hix, List.getElem?_append_left hix]
    · have := hy (i - xs.length) (by omega)
      rw [hp, show xs.length + (i - xs.length) = i by omega] at this
      rw [this, List.getElem?_append_right (by omega)]

/-- Cells behind a row. -/
theorem Row.put_end (h : s.Row p xs) (ys : List α) :
    (s.put (p.plus xs.length) ys).Row p (xs ++ ys) :=
  row_append.mpr ⟨h.put_before (by rw [Ptr.plus_off]), row_put⟩

/-- Cells over the middle of a row. -/
theorem Row.splice {zs ys' : List α} (h : s.Row p (xs ++ (ys ++ zs))) (hq : p.plus xs.length = q)
    (hl : ys'.length = ys.length) : (s.put q ys').Row p (xs ++ (ys' ++ zs)) := by
  subst hq
  rw [row_append, row_append] at h ⊢
  obtain ⟨hx, -, hz⟩ := h
  refine ⟨hx.put_before (by rw [Ptr.plus_off]), row_put, ?_⟩
  rw [hl]
  exact hz.put_behind (by rw [hl, Ptr.plus_off (p.plus xs.length)])

theorem Row.left (h : s.Row p (xs ++ ys)) : s.Row p xs := (row_append.mp h).1

theorem Row.take (h : s.Row p xs) (n : ℕ) : s.Row p (xs.take n) := by
  rw [← List.take_append_drop n xs] at h
  exact h.left

theorem Row.drop (h : s.Row p xs) (hn : n ≤ xs.length) : s.Row (p.plus n) (xs.drop n) := by
  rw [← List.take_append_drop n xs, row_append, List.length_take, Nat.min_eq_left hn] at h
  exact h.2

theorem row_singleton : s.Row p [x] ↔ s.obj p = some x := by
  have hp : p.plus ((0 : ℕ) : ℤ) = p := by
    ext
    · rfl
    · rw [Ptr.plus_off]
      omega
  refine ⟨fun h => ?_, fun h i hi => ?_⟩
  · have := h 0 (by simp)
    rwa [hp] at this
  · have hi0 : i = 0 := by simpa using hi
    subst hi0
    rw [hp, h]
    rfl

end Storage

/-! ## The bytes of values -/

/-- A byte: a number, or byte `k` of the address of the allocation `a`. -/
inductive Cell
  | byte (v : UInt8)
  | addr (a k : ℕ)
deriving DecidableEq, Repr

namespace Cell

/-- The `n` lowest bytes of a number, the lowest first. -/
def ofNat : ℕ → ℕ → List Cell
  | 0, _ => []
  | n + 1, v => byte (UInt8.ofNat v) :: ofNat n (v / 256)

/-- The number that bytes stand for. -/
def toNat : List Cell → Option ℕ
  | [] => some 0
  | byte v :: cs => (toNat cs).map fun w => v.toNat + 256 * w
  | addr _ _ :: _ => none

/-- The bytes of the address of an allocation. -/
def ofAddr (a : ℕ) : List Cell := (List.range 8).map (addr a)

/-- The allocation whose address bytes are. -/
def toAddr : List Cell → Option ℕ
  | addr a k :: cs => if addr a k :: cs = ofAddr a then some a else none
  | _ => none

@[simp] theorem length_ofNat (n v : ℕ) : (ofNat n v).length = n := by
  induction n generalizing v with
  | zero => rfl
  | succ n ih => rw [ofNat, List.length_cons, ih]

@[simp] theorem length_ofAddr (a : ℕ) : (ofAddr a).length = 8 := rfl

theorem toNat_ofNat (n v : ℕ) : toNat (ofNat n v) = some (v % 256 ^ n) := by
  induction n generalizing v with
  | zero => rw [pow_zero, Nat.mod_one]; rfl
  | succ n ih =>
    have hp : 256 ^ (n + 1) = 256 * 256 ^ n := pow_succ' ..
    rw [ofNat, toNat, ih, Option.map_some, UInt8.toNat_ofNat', hp]
    exact congrArg some Nat.mod_mul.symm

theorem toAddr_ofAddr (a : ℕ) : toAddr (ofAddr a) = some a := if_pos rfl

theorem getElem?_ofNat {n i : ℕ} (hi : i < n) (v : ℕ) :
    (ofNat n v)[i]? = some (byte (UInt8.ofNat (v / 256 ^ i))) := by
  induction n generalizing i v with
  | zero => omega
  | succ n ih =>
    cases i with
    | zero => simp [ofNat]
    | succ i =>
      rw [ofNat, List.getElem?_cons_succ, ih (by omega), Nat.div_div_eq_div_mul, ← pow_succ']

end Cell

end Lib
