import Dpp.Deque.Model
import Mathlib.Tactic.Linarith

/-!
# What a deque owns

* `Owns`: the pointer array, the subarrays in it and what their cells hold, by position.
* `window`, `Roomy`, `Valid`: the cells from `head` on hold a list, the iterators are at its ends.
* `Owns.read`, `Owns.construct`, `Owns.assign`, `Owns.destroy`: one cell.
* **`Owns.withSubarray_behind`**, **`Owns.withSubarray_before`**: one more subarray.
-/

namespace Dpp

open Lib

namespace Deque

variable {T : Type} {k : ℕ}

/-- The deque owns its pointer array and the subarrays of `s`, and nothing else; the cell at
position `p` holds `f p`. -/
structure Owns (d : Deque T k) (s : Shape) (f : ℕ → Option T) : Prop where
  table : Table d.ptrs d.mnPtrArraySize s
  array : d.mpPtrArray = s.table
  nodup : s.subs.Nodup
  size : ∀ a, d.items.size a = if a ∈ s.subs then some k else none
  fresh : ∀ a ∈ s.subs, a < d.items.next
  obj : ∀ p < s.cells k, d.items.obj (s.slot k p) = f p

/-- The list from position `head` on, raw cells elsewhere. -/
def window (head : ℕ) (l : List T) (p : ℕ) : Option T := if p < head then none else l[p - head]?

/-- The deque holds the list; there may be empty subarrays at its ends. -/
structure Roomy (d : Deque T k) (s : Shape) (l : List T) : Prop where
  owns : Owns d s (window s.head l)
  begin_eq : d.mItBegin = s.it k s.head
  end_eq : d.mItEnd = s.it k (s.head + l.length)
  end_lt : s.head + l.length < s.cells k

/-- The deque holds the list, with its ends in the first and the last subarray. -/
structure Valid (d : Deque T k) (s : Shape) (l : List T) : Prop extends Roomy d s l where
  head_lt : s.head < k
  end_ge : s.cells k ≤ s.head + l.length + k

theorem window_of_lt {head p : ℕ} (l : List T) (h : p < head) : window head l p = none := if_pos h

theorem window_add (head i : ℕ) (l : List T) : window head l (head + i) = l[i]? := by
  rw [window, if_neg (by omega), Nat.add_sub_cancel_left]

theorem window_of_ge {head p : ℕ} {l : List T} (h : head + l.length ≤ p) :
    window head l p = none := by
  rw [window, if_neg (by omega), List.getElem?_eq_none (by omega)]

theorem window_nil (head p : ℕ) : window head ([] : List T) p = none := ite_self none

theorem window_add_left (m head p : ℕ) (l : List T) :
    window (head + m) l (p + m) = window head l p := by
  simp only [window, Nat.add_lt_add_iff_right, Nat.add_sub_add_right]

section

variable {head : ℕ} {l : List T} {x : T}

theorem window_push :
    Function.update (window head l) (head + l.length) (some x) = window head (l ++ [x]) := by
  funext p
  by_cases hp : p = head + l.length
  · rw [hp, Function.update_self, window_add, List.getElem?_concat_length]
  · rw [Function.update_of_ne hp, window, window]
    split_ifs with hlt
    · rfl
    · by_cases hp' : p - head < l.length
      · rw [List.getElem?_append_left hp']
      · rw [List.getElem?_eq_none (by omega), List.getElem?_eq_none (by simp; omega)]

theorem window_pop :
    Function.update (window head (l ++ [x])) (head + l.length) none = window head l := by
  rw [← window_push, Function.update_idem]
  funext p
  by_cases hp : p = head + l.length
  · rw [hp, Function.update_self, window_of_ge (le_refl _)]
  · rw [Function.update_of_ne hp]

theorem window_pushFront :
    Function.update (window (head + 1) l) head (some x) = window head (x :: l) := by
  funext p
  by_cases hp : p = head
  · rw [hp, Function.update_self, window, if_neg (by omega), Nat.sub_self]
    rfl
  · rw [Function.update_of_ne hp, window, window]
    by_cases hlt : p < head
    · rw [if_pos hlt, if_pos (by omega)]
    · rw [if_neg hlt, if_neg (by omega), show p - head = p - (head + 1) + 1 by omega]
      rfl

theorem window_popFront :
    Function.update (window head (x :: l)) head none = window (head + 1) l := by
  rw [← window_pushFront, Function.update_idem]
  funext p
  by_cases hp : p = head
  · rw [hp, Function.update_self, window_of_lt l (Nat.lt_succ_self _)]
  · rw [Function.update_of_ne hp]

end

namespace Shape

variable {s : Shape} {new : List ℕ} {p : ℕ}

/-- The shape with more subarrays behind. -/
def behind (s : Shape) (new : List ℕ) : Shape := { s with subs := s.subs ++ new }

/-- The shape with more subarrays of `k` cells in front. -/
def before (s : Shape) (k : ℕ) (new : List ℕ) : Shape :=
  { s with lead := s.lead - new.length, subs := new ++ s.subs, head := s.head + new.length * k }

@[simp] theorem cells_behind : (s.behind new).cells k = s.cells k + new.length * k := by
  simp only [cells, behind, List.length_append, Nat.add_mul]

@[simp] theorem cells_before : (s.before k new).cells k = s.cells k + new.length * k := by
  simp only [cells, before, List.length_append, Nat.add_mul, Nat.add_comm]

theorem slot_behind (hp : p < s.cells k) : (s.behind new).slot k p = s.slot k p := by
  simp only [slot, behind, List.getD_append _ _ _ _ (div_lt hp)]

theorem it_behind (hp : p < s.cells k) : (s.behind new).it k p = s.it k p := by
  simp only [it, slot_behind hp]
  simp only [behind, List.getD_append _ _ _ _ (div_lt hp)]

theorem div_add_length (hk : 0 < k) : (p + new.length * k) / k = p / k + new.length :=
  Nat.add_mul_div_right _ _ hk

theorem slot_before (hk : 0 < k) :
    (s.before k new).slot k (p + new.length * k) = s.slot k p := by
  simp only [slot, before, div_add_length hk, Nat.add_mul_mod_self_right]
  rw [List.getD_append_right _ _ _ _ (Nat.le_add_left ..), Nat.add_sub_cancel]

theorem it_before (hk : 0 < k) (hl : new.length ≤ s.lead) :
    (s.before k new).it k (p + new.length * k) = s.it k p := by
  have hlead : s.lead - new.length + (p / k + new.length) = s.lead + p / k := by
    rw [Nat.add_comm (p / k), ← Nat.add_assoc, Nat.sub_add_cancel hl]
  simp only [it, slot_before hk]
  simp only [before, div_add_length hk, hlead]
  rw [List.getD_append_right _ _ _ _ (Nat.le_add_left ..), Nat.add_sub_cancel]

theorem slot_behind_new {a : ℕ} (hk : 0 < k) (h1 : s.cells k ≤ p) (h2 : p < s.cells k + k) :
    (s.behind [a]).slot k p = ⟨a, (p - s.cells k : ℕ)⟩ := by
  obtain ⟨i, rfl⟩ := Nat.exists_eq_add_of_le h1
  have hi : i < k := by omega
  have hd : (s.cells k + i) / k = s.subs.length := by
    rw [cells, Nat.add_comm, Nat.add_mul_div_right _ _ hk, Nat.div_eq_of_lt hi, Nat.zero_add]
  have hm : (s.cells k + i) % k = i := by
    rw [cells, Nat.add_comm, Nat.add_mul_mod_self_right, Nat.mod_eq_of_lt hi]
  simp only [slot, behind, hd, hm, Nat.add_sub_cancel_left]
  rw [List.getD_append_right _ _ _ _ (le_refl _), Nat.sub_self]
  rfl

theorem slot_before_new {a : ℕ} (hp : p < k) : (s.before k [a]).slot k p = ⟨a, p⟩ := by
  simp only [slot, before, Nat.div_eq_of_lt hp, Nat.mod_eq_of_lt hp]
  rfl

theorem slot_base_mem (hp : p < s.cells k) : (s.slot k p).base ∈ s.subs := getD_mem (div_lt hp)

end Shape

section

variable {ptrs : Storage ℕ} {n a : ℕ} {s : Shape} (h : Table ptrs n s)
include h

theorem Table.behind (hroom : s.lead + s.subs.length < n) :
    Table (ptrs.set ⟨s.table, (s.lead + s.subs.length : ℕ)⟩ (some a)) n (s.behind [a]) where
  size := h.size
  room := by
    simp only [Shape.behind, List.length_append, List.length_singleton]
    omega
  fresh := h.fresh
  entry j hj := by
    simp only [Shape.behind, List.length_append, List.length_singleton] at hj ⊢
    rcases Nat.lt_succ_iff_lt_or_eq.mp hj with hj | rfl
    · have hne : (⟨s.table, (s.lead + j : ℕ)⟩ : Ptr) ≠ ⟨s.table, (s.lead + s.subs.length : ℕ)⟩ :=
        fun hc => by
          have := Int.ofNat_inj.mp (congrArg Ptr.off hc)
          omega
      rw [Storage.set_obj_of_ne _ hne, h.entry j hj, List.getD_append _ _ _ _ hj]
    · rw [Storage.set_obj_self, List.getD_append_right _ _ _ _ (le_refl _), Nat.sub_self]
      rfl

theorem Table.before (hlead : 0 < s.lead) :
    Table (ptrs.set ⟨s.table, (s.lead - 1 : ℕ)⟩ (some a)) n (s.before k [a]) where
  size := h.size
  room := by
    have := h.room
    simp only [Shape.before, List.length_append, List.length_singleton]
    omega
  fresh := h.fresh
  entry j hj := by
    simp only [Shape.before, List.length_append, List.length_singleton] at hj ⊢
    cases j with
    | zero =>
      rw [Nat.add_zero, Storage.set_obj_self]
      rfl
    | succ j =>
      have hne : (⟨s.table, (s.lead - 1 + (j + 1) : ℕ)⟩ : Ptr) ≠ ⟨s.table, (s.lead - 1 : ℕ)⟩ :=
        fun hc => by
          have := Int.ofNat_inj.mp (congrArg Ptr.off hc)
          omega
      rw [Storage.set_obj_of_ne _ hne, show s.lead - 1 + (j + 1) = s.lead + j by omega,
        h.entry j (by omega)]
      rfl

end

/-! ## Cells -/

/-- The deque after `DoAllocateSubarray`, its address stored in an entry of the pointer array. -/
def withSubarray (d : Deque T k) (pp : Ptr) : Deque T k :=
  { d with items := (d.items.alloc k).1, ptrs := d.ptrs.set pp (some d.items.next) }

section

variable {d : Deque T k} {s : Shape} {f : ℕ → Option T} (h : Owns d s f)
include h

theorem Owns.live {p : ℕ} (hp : p < s.cells k) : d.items.Live (s.slot k p) :=
  Storage.live_of_size (n := k) (by rw [h.size, if_pos (Shape.slot_base_mem hp)])
    (Int.natCast_nonneg _) (Int.ofNat_lt.mpr (Nat.mod_lt p (Shape.pos_of_lt hp)))

theorem Owns.read {p : ℕ} {x : T} (hp : p < s.cells k) (hx : f p = some x) :
    d.items.read (s.slot k p) = some x :=
  Storage.read_eq (h.live hp) ((h.obj p hp).trans hx)

/-- Another object, or none, in one cell. -/
theorem Owns.set {p : ℕ} (hp : p < s.cells k) (o : Option T) :
    Owns ({ d with items := d.items.set (s.slot k p) o } : Deque T k) s
      (Function.update f p o) where
  table := h.table
  array := h.array
  nodup := h.nodup
  size := h.size
  fresh := h.fresh
  obj q hq := by
    by_cases hpq : q = p
    · subst hpq
      rw [Storage.set_obj_self, Function.update_self]
    · rw [Storage.set_obj_of_ne _ fun hc => hpq ((Shape.slot_inj h.nodup hq hp).mp hc),
        Function.update_of_ne hpq, h.obj q hq]

theorem Owns.construct {p : ℕ} (hp : p < s.cells k) (hf : f p = none) (x : T) :
    d.items.construct (s.slot k p) x = some (d.items.set (s.slot k p) (some x)) :=
  Storage.construct_eq (h.live hp) ((h.obj p hp).trans hf)

theorem Owns.assign {p : ℕ} (hp : p < s.cells k) (hf : f p ≠ none) (x : T) :
    d.items.assign (s.slot k p) x = some (d.items.set (s.slot k p) (some x)) :=
  Storage.assign_eq (h.live hp) (by rwa [h.obj p hp])

theorem Owns.destroy {p : ℕ} (hp : p < s.cells k) (hf : f p ≠ none) :
    d.items.destroy (s.slot k p) = some (d.items.set (s.slot k p) none) :=
  Storage.destroy_eq (h.live hp) (by rwa [h.obj p hp])

theorem Owns.congr {g : ℕ → Option T} (hg : ∀ p < s.cells k, g p = f p) : Owns d s g :=
  { h with obj := fun p hp => (h.obj p hp).trans (hg p hp).symm }

theorem Owns.withEnds (b e : DequeIterator) :
    Owns ({ d with mItBegin := b, mItEnd := e } : Deque T k) s f :=
  ⟨h.table, h.array, h.nodup, h.size, h.fresh, h.obj⟩

theorem Owns.withHead (n : ℕ) : Owns d { s with head := n } f :=
  ⟨⟨h.table.size, h.table.room, h.table.entry, h.table.fresh⟩, h.array, h.nodup, h.size, h.fresh,
    h.obj⟩

/-! ## More subarrays -/

theorem Owns.next_not_mem : d.items.next ∉ s.subs := fun hm => absurd (h.fresh _ hm) (by omega)

theorem Owns.size_alloc {subs : List ℕ} (hs : ∀ a, a ∈ subs ↔ a = d.items.next ∨ a ∈ s.subs)
    (a : ℕ) : (d.items.alloc k).1.size a = if a ∈ subs then some k else none := by
  rw [Storage.alloc_size, h.size]
  by_cases ha : a = d.items.next
  · rw [if_pos ha, if_pos ((hs a).mpr (.inl ha))]
  · simp only [hs, ha, false_or, if_false]

theorem Owns.obj_alloc {p : ℕ} (hp : p < s.cells k) :
    (d.items.alloc k).1.obj (s.slot k p) = f p := by
  have hne : (s.slot k p).base ≠ d.items.next := fun hc =>
    h.next_not_mem (hc ▸ Shape.slot_base_mem hp)
  rw [Storage.alloc_obj, if_neg hne, h.obj p hp]

omit h in
theorem allocateSubarray_eq {n : ℕ} (ht : Table d.ptrs n s) {i : ℕ} (hi : i < n) :
    d.allocateSubarray ⟨s.table, i⟩ = some (d.withSubarray ⟨s.table, i⟩) := by
  rw [allocateSubarray, Storage.store_eq (ht.live hi)]
  rfl

omit h in
theorem nodup_alloc {a : ℕ} (hn : s.subs.Nodup) (ha : a ∉ s.subs) :
    (s.behind [a]).subs.Nodup ∧ (s.before k [a]).subs.Nodup := by
  have hcons : (a :: s.subs).Nodup := List.nodup_cons.mpr ⟨ha, hn⟩
  exact ⟨(List.perm_append_singleton a s.subs).nodup_iff.mpr hcons, hcons⟩

/-- `DoAllocateSubarray` into the entry behind the last one in use. -/
theorem Owns.withSubarray_behind (hk : 0 < k)
    (hroom : s.lead + s.subs.length < d.mnPtrArraySize)
    (hf : ∀ p, s.cells k ≤ p → f p = none) :
    Owns (d.withSubarray ⟨s.table, (s.lead + s.subs.length : ℕ)⟩) (s.behind [d.items.next]) f where
  table := h.table.behind hroom
  array := h.array
  nodup := (nodup_alloc (k := k) h.nodup h.next_not_mem).1
  size := h.size_alloc fun a => by
    simp only [Shape.behind, List.mem_append, List.mem_singleton, or_comm]
  fresh a ha := by
    show a < d.items.next + 1
    rcases List.mem_append.mp ha with ha | ha
    · exact Nat.lt_succ_of_lt (h.fresh a ha)
    · rw [List.mem_singleton.mp ha]
      exact Nat.lt_succ_self _
  obj p hp := by
    rw [Shape.cells_behind, List.length_singleton, Nat.one_mul] at hp
    show (d.items.alloc k).1.obj _ = _
    by_cases hc : p < s.cells k
    · rw [Shape.slot_behind hc]
      exact h.obj_alloc hc
    · rw [Shape.slot_behind_new hk (by omega) hp, Storage.alloc_obj, if_pos rfl,
        hf p (by omega)]

/-- `DoAllocateSubarray` into the entry in front of the first one in use. -/
theorem Owns.withSubarray_before (hk : 0 < k) (hlead : 0 < s.lead) {g : ℕ → Option T}
    (hg : ∀ p < k, g p = none) (hfg : ∀ p, g (p + k) = f p) :
    Owns (d.withSubarray ⟨s.table, (s.lead - 1 : ℕ)⟩) (s.before k [d.items.next]) g where
  table := h.table.before hlead
  array := h.array
  nodup := (nodup_alloc h.nodup h.next_not_mem).2
  size := h.size_alloc fun a => List.mem_cons
  fresh a ha := by
    show a < d.items.next + 1
    rcases List.mem_cons.mp ha with rfl | ha
    · exact Nat.lt_succ_self _
    · exact Nat.lt_succ_of_lt (h.fresh a ha)
  obj p hp := by
    rw [Shape.cells_before, List.length_singleton, Nat.one_mul] at hp
    show (d.items.alloc k).1.obj _ = _
    rcases Nat.lt_or_ge p k with hpk | hpk
    · rw [Shape.slot_before_new hpk, Storage.alloc_obj, if_pos rfl, hg p hpk]
    · obtain ⟨q, rfl⟩ := Nat.exists_eq_add_of_le' hpk
      have hslot : (s.before k [d.items.next]).slot k (q + [d.items.next].length * k) =
          s.slot k q := Shape.slot_before hk
      rw [List.length_singleton, Nat.one_mul] at hslot
      rw [hslot, h.obj_alloc (by omega), hfg]

/-! ## Fewer subarrays -/

/-- `DoFreeSubarray` of the last subarray in use, in which no item is left. -/
theorem Owns.free_last {init : List ℕ} {a : ℕ} (hs : s.subs = init ++ [a])
    (hf : ∀ p, init.length * k ≤ p → f p = none) :
    ∃ items, d.items.free a = some items ∧
      Owns ({ d with items } : Deque T k) { s with subs := init } f := by
  have hlen : s.subs.length = init.length + 1 := by
    rw [hs, List.length_append, List.length_singleton]
  have hcells : s.cells k = init.length * k + k := by
    rw [Shape.cells, hlen, Nat.add_mul, Nat.one_mul]
  have hmem : a ∈ s.subs := by rw [hs]; exact List.mem_append_right _ (List.mem_singleton_self a)
  have hnd : init.Nodup ∧ a ∉ init := by
    have := h.nodup
    rw [hs, List.nodup_append] at this
    exact ⟨this.1, fun ha => this.2.2 a ha a (List.mem_singleton_self a) rfl⟩
  have hbehind : ({ s with subs := init } : Shape).behind [a] = s := by rw [Shape.behind, ← hs]
  have hsize : d.items.size a = some k := by rw [h.size, if_pos hmem]
  refine ⟨_, Storage.free_eq hsize fun i hi => ?_, ?_⟩
  · have hslot := Shape.slot_behind_new (s := { s with subs := init }) (a := a)
      (p := init.length * k + i) (Nat.zero_lt_of_lt hi) (by simp [Shape.cells])
      (by simp only [Shape.cells]; omega)
    simp only [hbehind, Shape.cells, Nat.add_sub_cancel_left] at hslot
    rw [← hslot, h.obj _ (by omega), hf _ (by omega)]
  · refine ⟨⟨h.table.size, ?_, fun j hj => ?_, h.table.fresh⟩, h.array, hnd.1, fun b => ?_,
      fun b hb => h.fresh b (by rw [hs]; exact List.mem_append_left _ hb), fun p hp => ?_⟩
    · have := h.table.room
      simp only at this ⊢
      omega
    · rw [h.table.entry j (by simp only at hj; omega), hs, List.getD_append _ _ _ _ hj]
    · show Function.update d.items.size a none b = _
      rcases eq_or_ne b a with rfl | hb
      · rw [Function.update_self, if_neg hnd.2]
      · rw [Function.update_of_ne hb, h.size, hs]
        simp only [List.mem_append, List.mem_singleton, hb, or_false]
    · show d.items.obj _ = f p
      have hslot : (Shape.behind { s with subs := init } [a]).slot k p =
          ({ s with subs := init } : Shape).slot k p := Shape.slot_behind hp
      rw [← hslot, hbehind]
      exact h.obj p (by rw [hcells]; simp only [Shape.cells] at hp; omega)

/-- `DoFreeSubarray` of the first subarray in use, in which no item is left. -/
theorem Owns.free_first {rest : List ℕ} {a : ℕ} (hs : s.subs = a :: rest)
    (hf : ∀ p < k, f p = none) :
    ∃ items, d.items.free a = some items ∧
      Owns ({ d with items } : Deque T k)
        { s with lead := s.lead + 1, subs := rest, head := s.head - k } fun p => f (p + k) := by
  have hcells : s.cells k = rest.length * k + k := by
    rw [Shape.cells, hs, List.length_cons, Nat.add_mul, Nat.one_mul]
  have hmem : a ∈ s.subs := by rw [hs]; exact List.mem_cons_self
  have hnd : rest.Nodup ∧ a ∉ rest := by
    have := h.nodup
    rw [hs, List.nodup_cons] at this
    exact this.symm
  have hsize : d.items.size a = some k := by rw [h.size, if_pos hmem]
  have hslot : ∀ p, 0 < k → s.slot k (p + k) = ({ s with
      lead := s.lead + 1, subs := rest, head := s.head - k } : Shape).slot k p := fun p hk => by
    simp only [Shape.slot, hs, Nat.add_div_right _ hk, Nat.add_mod_right, List.getD_cons_succ]
  refine ⟨_, Storage.free_eq hsize fun i hi => ?_, ?_⟩
  · have hi' : s.slot k i = ⟨a, i⟩ := by
      simp only [Shape.slot, hs, Nat.div_eq_of_lt hi, Nat.mod_eq_of_lt hi, List.getD_cons_zero]
    rw [← hi', h.obj i (by omega), hf i hi]
  · refine ⟨⟨h.table.size, ?_, fun j hj => ?_, h.table.fresh⟩, h.array, hnd.1, fun b => ?_,
      fun b hb => h.fresh b (by rw [hs]; exact List.mem_cons_of_mem _ hb), fun p hp => ?_⟩
    · have := h.table.room
      rw [hs, List.length_cons] at this
      simp only
      omega
    · have := h.table.entry (j + 1) (by rw [hs, List.length_cons]; exact Nat.succ_lt_succ hj)
      rw [hs, List.getD_cons_succ] at this
      rw [← this]
      show d.ptrs.obj ⟨s.table, (s.lead + 1 + j : ℕ)⟩ = _
      rw [Nat.add_right_comm, Nat.add_assoc]
    · show Function.update d.items.size a none b = _
      rcases eq_or_ne b a with rfl | hb
      · rw [Function.update_self, if_neg hnd.2]
      · rw [Function.update_of_ne hb, h.size, hs]
        simp only [List.mem_cons, hb, false_or]
    · show d.items.obj _ = f (p + k)
      rw [← hslot p (Shape.pos_of_lt hp)]
      exact h.obj _ (by rw [hcells]; simp only [Shape.cells] at hp; omega)

end

end Deque

end Dpp
