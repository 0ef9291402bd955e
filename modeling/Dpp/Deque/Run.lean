import Dpp.Deque.Assign
import Dpp.Lib.Objects
import Dpp.Lib.System

/-!
# Programs with deques

Any number of deques, constructed, changed, copied into each other and destroyed in any order,
against the same program with lists.

* `Op`, `Ops`: what a program does to its objects; `deques`: the program with deques; `lists`: the
  same with lists, which stops where a list has no item to take.
* `Holds`, `Agree`: the deques hold the lists; `Fits`: no list is too long for the iterators.
* `defaultSubarraySize`: the sizes of subarrays, all of which divide the bias of the iterators.
* **`agree_step`**: an operation keeps the agreement.
* **`run_agrees`**: in every program that works with lists the deques work too, read as the lists
  do and give their storage back.
* **`run_ptrArraySize`**: the pointer arrays are bounded by the longest list.
* **`assign_fresh`**: which deques can be copied into one just constructed.
-/

namespace Dpp

open Lib

namespace Deque

variable {T : Type} {k : ℕ}

/-- `DEQUE_DEFAULT_SUBARRAY_SIZE`, from the size of a value. -/
def defaultSubarraySize (sizeofT : ℕ) : ℕ :=
  if sizeofT ≤ 4 then 64
  else if sizeofT ≤ 8 then 32
  else if sizeofT ≤ 16 then 16
  else if sizeofT ≤ 32 then 8
  else 4

theorem defaultSubarraySize_dvd (sizeofT : ℕ) : defaultSubarraySize sizeofT ∣ 16777216 := by
  rw [defaultSubarraySize]
  split_ifs <;> decide

/-- The deque holds the list; `B` holds of the size of its pointer array. -/
def Holds (B : ℕ → Prop) (d : Deque T k) (l : List T) : Prop :=
  (∃ s, Valid d s l) ∧ B d.mnPtrArraySize

/-- `B` allows the pointer arrays that `n` items can need. -/
def Allows (B : ℕ → Prop) (k n : ℕ) : Prop := ∀ size ≤ 2 * ((n + k - 1) / k + 1), B size

/-- The operations of a program on its deques, which it names by numbers. -/
inductive Op (T : Type)
  | create (i : ℕ)
  | emplaceBack (i : ℕ) (value : T)
  | emplaceFront (i : ℕ) (value : T)
  | popFront (i : ℕ)
  | popBack (i : ℕ)
  | insertEnd (i j : ℕ)
  | assign (i j : ℕ)
  | clear (i : ℕ)
  | destroy (i : ℕ)

/-- What a program does to its objects, given what an operation does to one of them. -/
structure Ops (V T : Type) where
  create : Option V
  emplaceBack : T → V → Option V
  emplaceFront : T → V → Option V
  popFront : V → Option V
  popBack : V → Option V
  insertEnd : V → V → Option V
  assign : V → V → Option V
  clear : V → Option V
  destroy : V → Option Unit

namespace Ops

variable {V : Type} (o : Ops V T)

/-- An operation on one object. -/
def update (f : V → Option V) (env : ℕ → Option V) (i : ℕ) : Option (ℕ → Option V) := do
  let v ← env i
  let v ← f v
  return Function.update env i (some v)

/-- One operation; a range never comes from the deque it is inserted into, and an assignment to
itself does nothing. -/
def step (env : ℕ → Option V) : Op T → Option (ℕ → Option V)
  | .create i =>
    match env i with
    | none => o.create.map fun v => Function.update env i (some v)
    | some _ => none
  | .emplaceBack i value => update (o.emplaceBack value) env i
  | .emplaceFront i value => update (o.emplaceFront value) env i
  | .popFront i => update o.popFront env i
  | .popBack i => update o.popBack env i
  | .insertEnd i j =>
    if i = j then none else (env j).bind fun x => update (fun v => o.insertEnd v x) env i
  | .assign i j =>
    if i = j then (env i).map fun _ => env
    else (env j).bind fun x => update (fun v => o.assign v x) env i
  | .clear i => update o.clear env i
  | .destroy i => do
    let v ← env i
    let _ ← o.destroy v
    return Function.update env i none

/-- The programs that start without objects. -/
def system : System (ℕ → Option V) (Op T) where
  init env := env = fun _ => none
  step := o.step

end Ops

/-- The operations of `eastl::deque`. -/
def deques (T : Type) (k : ℕ) : Ops (Deque T k) T where
  create := doInit
  emplaceBack value d := d.emplaceBack value
  emplaceFront value d := d.emplaceFront value
  popFront := popFront
  popBack := popBack
  insertEnd d x := d.insertEnd x x.mItBegin x.mItEnd
  assign := assign
  clear := clear
  destroy d := d.destruct.map fun _ => ()

/-- The operations on lists they stand for. -/
def lists (T : Type) : Ops (List T) T where
  create := some []
  emplaceBack value l := some (l ++ [value])
  emplaceFront value l := some (value :: l)
  popFront l := if l = [] then none else some l.tail
  popBack l := if l = [] then none else some l.dropLast
  insertEnd l x := some (l ++ x)
  assign _ x := some x
  clear _ := some []
  destroy _ := some ()

/-- The lists an operation copies, or copies over, have at most 16777216 items. -/
def Fits (env : ℕ → Option (List T)) : Op T → Prop
  | .insertEnd _ j => ∀ l, env j = some l → l.length ≤ 16777216
  | .assign i j => (∀ l, env i = some l → l.length ≤ 16777216) ∧
      ∀ l, env j = some l → l.length ≤ 16777216
  | _ => True

/-- The same deques and lists exist, and the deques hold the lists. -/
def Agree (B : ℕ → Prop) (env : ℕ → Option (Deque T k)) (ls : ℕ → Option (List T)) : Prop :=
  ∀ i, Option.Rel (Holds B) (env i) (ls i)

variable {B : ℕ → Prop} {env : ℕ → Option (Deque T k)} {ls ls' : ℕ → Option (List T)} {i : ℕ}
  {d d' x : Deque T k} {l xs : List T}

theorem Agree.update (h : Agree B env ls) (hd : Holds B d l) :
    Agree B (Function.update env i (some d)) (Function.update ls i (some l)) :=
  Lib.Agree.update h hd

theorem Agree.erase (h : Agree B env ls) :
    Agree B (Function.update env i none) (Function.update ls i none) := Lib.Agree.erase h

theorem Agree.get_none (h : Agree B env ls) (hl : ls i = none) : env i = none :=
  Lib.Agree.get_none h hl

theorem Agree.get (h : Agree B env ls) (hl : ls i = some l) :
    ∃ d, env i = some d ∧ Holds B d l := Lib.Agree.get h hl

theorem Agree.get_left (h : Agree B env ls) (hd : env i = some d) :
    ∃ l, ls i = some l ∧ Holds B d l := Lib.Agree.get_left h hd

/-- An operation on one deque, where it does on the deque what it does on the list. -/
theorem Agree.update_step (h : Agree B env ls)
    (hB : ∀ i l, ls' i = some l → Allows B k l.length) {f : Deque T k → Option (Deque T k)}
    {g : List T → Option (List T)}
    (hf : ∀ d l l', Holds B d l → ls i = some l → g l = some l' → Allows B k l'.length →
      ∃ d', f d = some d' ∧ Holds B d' l')
    (hs : Ops.update g ls i = some ls') :
    ∃ env', Ops.update f env i = some env' ∧ Agree B env' ls' := by
  obtain ⟨l, hl, hs⟩ := Option.bind_eq_some_iff.mp hs
  obtain ⟨l', hl', hs⟩ := Option.bind_eq_some_iff.mp hs
  cases hs
  obtain ⟨d, hd, hh⟩ := h.get hl
  obtain ⟨d', hd', hh'⟩ := hf d l l' hh hl hl' (hB i l' (Function.update_self ..))
  refine ⟨_, ?_, h.update hh'⟩
  rw [Ops.update, hd, Option.bind_eq_bind, Option.bind_some, hd']
  rfl

/-! ## One operation -/

theorem reaches_of_le {head n : ℕ} (h : n ≤ 16777216) : Reaches k head n := .inl (by omega)

theorem Valid.subs_le {s : Shape} (h : Valid d s l) :
    s.subs.length ≤ (l.length + k - 1) / k + 1 := by
  have hk : 0 < k := Nat.zero_lt_of_lt h.head_lt
  have hge : s.subs.length * k ≤ s.head + l.length + k := h.end_ge
  have hlt := h.head_lt
  rw [← Nat.add_div_right _ hk, Nat.le_div_iff_mul_le hk]
  omega

theorem Holds.resized (h : B d.mnPtrArraySize) {t : Shape} (hv : Valid d' t l)
    (hr : Resized d d' t.subs.length) (hB : Allows B k l.length) : Holds B d' l := by
  refine ⟨⟨t, hv⟩, ?_⟩
  rcases hr with hsame | hle
  · rwa [hsame]
  · exact hB _ (hle.trans (Nat.mul_le_mul_left 2 hv.subs_le))

theorem holds_doInit (hk : 0 < k) (hB : B 8) :
    ∃ d, (doInit : Option (Deque T k)) = some d ∧ Holds B d [] := by
  obtain ⟨d, s, hd, hv, -, hsize⟩ := doInit_eq (T := T) hk
  exact ⟨d, hd, ⟨s, hv⟩, by rwa [hsize]⟩

theorem Holds.emplaceBack (h : Holds B d l) (value : T) (hB : Allows B k (l ++ [value]).length) :
    ∃ d', d.emplaceBack value = some d' ∧ Holds B d' (l ++ [value]) := by
  obtain ⟨⟨s, hs⟩, hb⟩ := h
  obtain ⟨d', t, hd', hv, -, hr⟩ := hs.emplaceBack value
  exact ⟨d', hd', .resized hb hv hr hB⟩

theorem Holds.emplaceFront (h : Holds B d l) (value : T) (hB : Allows B k (value :: l).length) :
    ∃ d', d.emplaceFront value = some d' ∧ Holds B d' (value :: l) := by
  obtain ⟨⟨s, hs⟩, hb⟩ := h
  obtain ⟨d', t, hd', hv, hr⟩ := hs.emplaceFront value
  exact ⟨d', hd', .resized hb hv hr hB⟩

theorem Holds.popFront (h : Holds B d l) (hl : l ≠ []) :
    ∃ d', d.popFront = some d' ∧ Holds B d' l.tail := by
  obtain ⟨⟨s, hs⟩, hb⟩ := h
  obtain ⟨y, l, rfl⟩ := List.exists_cons_of_ne_nil hl
  obtain ⟨d', t, hd', hv, hsize⟩ := hs.popFront
  exact ⟨d', hd', ⟨t, hv⟩, by rwa [hsize]⟩

theorem Holds.popBack (h : Holds B d l) (hl : l ≠ []) :
    ∃ d', d.popBack = some d' ∧ Holds B d' l.dropLast := by
  obtain ⟨⟨s, hs⟩, hb⟩ := h
  rw [← List.dropLast_append_getLast hl] at hs
  obtain ⟨d', t, hd', hv, -, hsize⟩ := hs.popBack
  exact ⟨d', hd', ⟨t, hv⟩, by rwa [hsize]⟩

theorem Holds.insertEnd (h : Holds B d l) (hx : Holds B x xs) (hk : k ∣ 16777216)
    (hn : xs.length ≤ 16777216) (hB : Allows B k (l ++ xs).length) :
    ∃ d', d.insertEnd x x.mItBegin x.mItEnd = some d' ∧ Holds B d' (l ++ xs) := by
  obtain ⟨⟨s, hs⟩, hb⟩ := h
  obtain ⟨⟨u, hu⟩, -⟩ := hx
  have hr : Range x u xs x.mItBegin x.mItEnd u.head := by
    rw [hu.begin_eq]
    exact Valid.range (l := []) hu
  obtain ⟨d', t, hd', hv, hr⟩ := hs.insertEnd hk hr fun _ => reaches_of_le hn
  exact ⟨d', hd', .resized hb hv hr hB⟩

theorem Holds.assign (h : Holds B d l) (hx : Holds B x xs) (hk : k ∣ 16777216)
    (hl : l.length ≤ 16777216) (hn : xs.length ≤ 16777216) (hB : Allows B k xs.length) :
    ∃ d', d.assign x = some d' ∧ Holds B d' xs := by
  obtain ⟨⟨s, hs⟩, hb⟩ := h
  obtain ⟨⟨u, hu⟩, -⟩ := hx
  obtain ⟨d', t, hd', hv, hr⟩ := hs.assign hu hk (fun _ => reaches_of_le hn)
    fun _ _ => reaches_of_le (by omega)
  exact ⟨d', hd', .resized hb hv hr hB⟩

theorem Holds.clear (h : Holds B d l) : ∃ d', d.clear = some d' ∧ Holds B d' [] := by
  obtain ⟨⟨s, hs⟩, hb⟩ := h
  obtain ⟨d', t, hd', hv, -, hsize⟩ := hs.clear
  exact ⟨d', hd', ⟨t, hv⟩, by rwa [hsize]⟩

/-- An operation that is possible on the lists is possible on the deques that hold them. -/
theorem agree_step (hk : k ∣ 16777216) (hB₀ : B 8) (h : Agree B env ls) (a : Op T)
    (hE : Fits ls a) (hB : ∀ i l, ls' i = some l → Allows B k l.length)
    (hs : (lists T).step ls a = some ls') :
    ∃ env', (deques T k).step env a = some env' ∧ Agree B env' ls' := by
  have hk0 : 0 < k := Nat.pos_of_dvd_of_pos hk (by omega)
  cases a with
  | create i =>
    obtain ⟨d, hd, hh⟩ := holds_doInit (T := T) hk0 hB₀
    cases hl : ls i with
    | some l => exact absurd hs (by simp [Ops.step, hl])
    | none =>
      obtain rfl : Function.update ls i (some []) = ls' := by simpa [Ops.step, hl, lists] using hs
      refine ⟨_, ?_, h.update hh⟩
      simp [Ops.step, h.get_none hl, deques, hd]
  | emplaceBack i value =>
    refine h.update_step hB (fun d l l' hd hl hl' ha => ?_) hs
    cases hl'
    exact hd.emplaceBack value ha
  | emplaceFront i value =>
    refine h.update_step hB (fun d l l' hd hl hl' ha => ?_) hs
    cases hl'
    exact hd.emplaceFront value ha
  | popFront i =>
    refine h.update_step hB (fun d l l' hd hl hl' _ => ?_) hs
    by_cases hnil : l = []
    · exact absurd hl' (by simp [lists, hnil])
    · obtain rfl : l.tail = l' := by simpa [lists, hnil] using hl'
      exact hd.popFront hnil
  | popBack i =>
    refine h.update_step hB (fun d l l' hd hl hl' _ => ?_) hs
    by_cases hnil : l = []
    · exact absurd hl' (by simp [lists, hnil])
    · obtain rfl : l.dropLast = l' := by simpa [lists, hnil] using hl'
      exact hd.popBack hnil
  | insertEnd i j =>
    have hij : i ≠ j := fun hij => absurd hs (by simp [Ops.step, hij])
    rw [Ops.step, if_neg hij] at hs
    obtain ⟨xs, hxs, hs⟩ := Option.bind_eq_some_iff.mp hs
    obtain ⟨x, hx, hhx⟩ := h.get hxs
    rw [Ops.step, if_neg hij, hx]
    refine h.update_step hB (fun d l l' hd hl hl' ha => ?_) hs
    cases hl'
    exact hd.insertEnd hhx hk (hE xs hxs) ha
  | assign i j =>
    by_cases hij : i = j
    · rw [Ops.step, if_pos hij] at hs
      obtain ⟨l, hl, rfl⟩ := Option.map_eq_some_iff.mp hs
      obtain ⟨d, hd, -⟩ := h.get hl
      exact ⟨env, by rw [Ops.step, if_pos hij, hd]; rfl, h⟩
    · rw [Ops.step, if_neg hij] at hs
      obtain ⟨xs, hxs, hs⟩ := Option.bind_eq_some_iff.mp hs
      obtain ⟨x, hx, hhx⟩ := h.get hxs
      rw [Ops.step, if_neg hij, hx]
      refine h.update_step hB (fun d l l' hd hl hl' ha => ?_) hs
      cases hl'
      exact hd.assign hhx hk (hE.1 l hl) (hE.2 xs hxs) ha
  | clear i =>
    refine h.update_step hB (fun d l l' hd hl hl' _ => ?_) hs
    cases hl'
    exact hd.clear
  | destroy i =>
    obtain ⟨l, hl, hs⟩ := Option.bind_eq_some_iff.mp hs
    obtain rfl : Function.update ls i none = ls' := Option.some.inj hs
    obtain ⟨d, hd, ⟨s, hv⟩, -⟩ := h.get hl
    obtain ⟨d', hd', -⟩ := hv.destruct
    refine ⟨_, ?_, h.erase⟩
    simp [Ops.step, hd, deques, hd']

/-! ## Programs -/

/-- What can be seen of a deque that holds `l`, and what is left when it is destroyed. -/
structure Reads (d : Deque T k) (l : List T) : Prop where
  size : d.size = l.length
  getItem : ∀ n < l.length, d.getItem n = l[n]?
  front : ∀ x, l.head? = some x → d.front = some x
  back : ∀ x, l.getLast? = some x → d.back = some x
  destruct : ∃ d', d.destruct = some d' ∧ (∀ a, d'.items.size a = none) ∧
    ∀ a, d'.ptrs.size a = none

theorem Holds.reads (h : Holds B d l) (hk : k ∣ 16777216) : Reads d l := by
  obtain ⟨⟨s, hs⟩, -⟩ := h
  refine ⟨hs.size, fun n hn => hs.getItem hk hn, fun x hx => ?_, fun x hx => ?_, hs.destruct⟩
  · obtain ⟨l, rfl⟩ := List.head?_eq_some_iff.mp hx
    exact hs.front
  · obtain ⟨l, rfl⟩ := List.getLast?_eq_some_iff.mp hx
    exact hs.back

theorem filterMap_range (l : List T) : (List.range l.length).filterMap (l[·]?) = l := by
  induction l with
  | nil => rfl
  | cons x l ih =>
    rw [List.length_cons, List.range_succ_eq_map, List.filterMap_cons,
      List.filterMap_map]
    exact congrArg (x :: ·) ih

/-- The items of a deque, by `operator[]`. -/
def toList (d : Deque T k) : List T := (List.range d.size.toNat).filterMap d.getItem

theorem Holds.toList (h : Holds B d l) (hk : k ∣ 16777216) : d.toList = l := by
  have hr := h.reads hk
  have hget : ∀ n ∈ List.range l.length, d.getItem n = l[n]? := fun n hn =>
    hr.getItem n (List.mem_range.mp hn)
  rw [Deque.toList, hr.size, Int.toNat_natCast, List.filterMap_congr hget]
  exact filterMap_range l

/-- The lists after a step are within what `B` allows. -/
def Within (B : ℕ → Prop) (k : ℕ) (ls : ℕ → Option (List T)) (a : Op T) : Prop :=
  ∀ ls', (lists T).step ls a = some ls' → ∀ i l, ls' i = some l → Allows B k l.length

theorem exec_agrees (hk : k ∣ 16777216) (hB₀ : B 8) {as : List (Op T)}
    (hE : (lists T).system.Meets (fun ls a => Fits ls a ∧ Within B k ls a) (fun _ => none) as)
    (hs : (lists T).system.exec (fun _ => none) as = some ls) :
    ∃ env, (deques T k).system.exec (fun _ => none) as = some env ∧ Agree B env ls := by
  have hstep : ∀ env ls a ls', Agree B env ls → Fits ls (id a) ∧ Within B k ls (id a) →
      (lists T).system.step ls (id a) = some ls' →
      ∃ env', (deques T k).system.step env a = some env' ∧ Agree B env' ls' :=
    fun _ _ a _ h hE hs => agree_step hk hB₀ h a hE.1 (hE.2 _ hs) hs
  rw [← List.map_id as] at hE hs
  exact System.exec_follows hstep (fun _ => .none) hE hs

/-- A program that fills a deque, copies it as the worker of a queue does and goes on with both. -/
def handOver : List (Op ℕ) :=
  [.create 0, .emplaceBack 0 5, .emplaceBack 0 6, .create 1, .assign 1 0, .clear 0, .popFront 1,
    .emplaceBack 0 7, .insertEnd 0 1, .destroy 1]

theorem handOver_fits : (lists ℕ).system.Meets Fits (fun _ => none) handOver := by
  refine .cons rfl trivial (.cons rfl trivial (.cons rfl trivial (.cons rfl trivial
    (.cons rfl ⟨fun l hl => ?_, fun l hl => ?_⟩ (.cons rfl trivial (.cons rfl trivial
    (.cons rfl trivial (.cons rfl (fun l hl => ?_) (.cons rfl trivial .nil)))))))))
  all_goals
    cases hl
    decide

/-- No list has more than `m` items. -/
def Short (m : ℕ) (ls : ℕ → Option (List T)) : Prop := ∀ i l, ls i = some l → l.length ≤ m

theorem Short.update {m : ℕ} (h : Short m ls) (hl : l.length ≤ m) :
    Short m (Function.update ls i (some l)) := Each.update h hl

theorem Short.erase {m : ℕ} (h : Short m ls) : Short m (Function.update ls i none) :=
  Each.erase h

theorem handOver_short :
    (lists ℕ).system.Always (Short 2) (fun _ => none) handOver := by
  have h₀ : Short 2 (fun _ => none : ℕ → Option (List ℕ)) := fun _ _ hl => nomatch hl
  have h₁ := h₀.update (i := 0) (l := []) (by decide)
  have h₂ := h₁.update (i := 0) (l := [5]) (by decide)
  have h₃ := h₂.update (i := 0) (l := [5, 6]) (by decide)
  have h₄ := h₃.update (i := 1) (l := []) (by decide)
  have h₅ := h₄.update (i := 1) (l := [5, 6]) (by decide)
  have h₆ := h₅.update (i := 0) (l := []) (by decide)
  have h₇ := h₆.update (i := 1) (l := [6]) (by decide)
  have h₈ := h₇.update (i := 0) (l := [7]) (by decide)
  have h₉ := h₈.update (i := 0) (l := [7, 6]) (by decide)
  exact .cons rfl h₀ (.cons rfl h₁ (.cons rfl h₂ (.cons rfl h₃ (.cons rfl h₄ (.cons rfl h₅
    (.cons rfl h₆ (.cons rfl h₇ (.cons rfl h₈ (.cons rfl h₉ (h₉.erase (i := 1)))))))))))

/-- `for(value : l) items.emplace_back(value);` -/
def emplaceAll (d : Deque T k) : List T → Option (Deque T k)
  | [] => some d
  | value :: l => do
    let d ← d.emplaceBack value
    d.emplaceAll l

theorem emplaceAll_eq (ys : List T) (h : Holds (fun _ => True) d l) :
    ∃ d', d.emplaceAll ys = some d' ∧ Holds (fun _ => True) d' (l ++ ys) := by
  induction ys generalizing d l with
  | nil => exact ⟨d, rfl, by rwa [List.append_nil]⟩
  | cons y ys ih =>
    obtain ⟨d₁, hd₁, h₁⟩ := h.emplaceBack y fun _ _ => trivial
    obtain ⟨d', hd', h'⟩ := ih h₁
    refine ⟨d', ?_, by rwa [List.append_assoc] at h'⟩
    rw [emplaceAll, hd₁]
    exact hd'

/-- **What a deque just constructed can be assigned**: up to 16777216 items, or full subarrays; of
any other deque an item is written in front of a subarray. -/
theorem assign_fresh (hk : k ∣ 16777216) (hx : Holds B x xs) :
    ∃ d, (doInit : Option (Deque T k)) = some d ∧
      if xs.length ≤ 16777216 ∨ k ∣ xs.length then ∃ d', d.assign x = some d' ∧ Reads d' xs
      else d.assign x = none := by
  have hk0 : 0 < k := Nat.pos_of_dvd_of_pos hk (by omega)
  obtain ⟨d, s, hd, hv, hhead, -⟩ := doInit_eq (T := T) hk0
  obtain ⟨⟨u, hu⟩, -⟩ := hx
  have hiff : Reaches k s.head xs.length ↔ xs.length ≤ 16777216 ∨ k ∣ xs.length := by
    rw [Reaches, hhead, Nat.cast_zero, zero_sub, Int.dvd_neg, Int.natCast_dvd_natCast]
    exact or_congr_left (by omega)
  refine ⟨d, hd, ?_⟩
  split_ifs with hc
  · obtain ⟨d', t, hd', hv', -⟩ := hv.assign hu hk (fun _ => hiff.mpr hc)
      fun _ hlt => absurd hlt (Nat.not_lt_zero _)
    have hh : Holds (fun _ => True) d' xs := ⟨⟨t, hv'⟩, trivial⟩
    exact ⟨d', hd', hh.reads hk⟩
  · exact hv.assign_empty_none hu hk fun hr => hc (hiff.mp hr)

theorem assign_fresh_long :
    ∃ (ys : List Unit) (x d : Deque Unit (defaultSubarraySize 24)), ys.length = 16777217 ∧
      (doInit.bind fun x => x.emplaceAll ys) = some x ∧ doInit = some d ∧ d.assign x = none := by
  obtain ⟨ys, hlen⟩ : ∃ ys : List Unit, ys.length = 16777217 :=
    ⟨List.replicate _ (), List.length_replicate⟩
  obtain ⟨x₀, hx₀, h₀⟩ := holds_doInit (T := Unit) (k := defaultSubarraySize 24)
    (B := fun _ => True) (by decide) trivial
  obtain ⟨x, hx, h⟩ := emplaceAll_eq ys h₀
  obtain ⟨d, hd, hassign⟩ := assign_fresh (defaultSubarraySize_dvd 24) h
  rw [List.nil_append, hlen, if_neg (by decide)] at hassign
  exact ⟨ys, x, d, hlen, by rw [hx₀]; exact hx, hd, hassign⟩

end Deque

end Dpp
