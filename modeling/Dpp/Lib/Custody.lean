import Dpp.Lib.History
import Mathlib.Data.Set.Card
import Mathlib.Logic.Function.Basic

/-!
# Custody of references

A slot holds at most one reference at a time. A reference is acquired into the slot, taken out of
it by a holder and released by that holder.

* `Custody`, `Custody.Op`, `Custody.system`: the slot and its holders.
* `Holds`: a holder has taken a reference that nobody has released.
* **`settled`**: what is acquired and not released is in the slot or with one holder, no reference
  is acquired, taken or released twice, and each is released by the one that took it.
-/

namespace Lib

variable {T : Type*}

/-- The slot, what each holder has, and a bound on the references so far. -/
structure Custody (T : Type*) where
  next : ℕ := 0
  slot : Option ℕ := none
  held : T → Option ℕ := fun _ => none

namespace Custody

inductive Op (T : Type*)
  | acquire (k : ℕ)
  | take (t : T) (k : ℕ)
  | release (t : T) (k : ℕ)
deriving DecidableEq

/-- The reference of an `acquire`. -/
def Op.acquired : Op T → Option ℕ
  | acquire k => some k
  | _ => none

/-- The reference of a `take`. -/
def Op.taken : Op T → Option ℕ
  | take _ k => some k
  | _ => none

/-- The reference of a `release`. -/
def Op.released : Op T → Option ℕ
  | release _ k => some k
  | _ => none

def acquired (ops : List (Op T)) : List ℕ := ops.filterMap Op.acquired

def taken (ops : List (Op T)) : List ℕ := ops.filterMap Op.taken

def released (ops : List (Op T)) : List ℕ := ops.filterMap Op.released

/-- In the history `ops`, `t` has taken the reference `k` and nobody has released it. -/
structure Holds (ops : List (Op T)) (t : T) (k : ℕ) : Prop where
  acquire_mem : .acquire k ∈ ops
  take_mem : .take t k ∈ ops
  not_released : k ∉ released ops

/-- A holder has at most one reference, and takes what is in the slot. -/
def step [DecidableEq T] (c : Custody T) : Op T → Option (Custody T)
  | .acquire k =>
    if c.slot = none ∧ c.next ≤ k then some { c with next := k + 1, slot := some k } else none
  | .take t k =>
    if c.slot = some k ∧ c.held t = none then
      some { c with slot := none, held := Function.update c.held t (some k) }
    else none
  | .release t k =>
    if c.held t = some k then some { c with held := Function.update c.held t none } else none

variable (T) in
/-- An empty slot and no holder. -/
def system [DecidableEq T] : System (Custody T) (Op T) where
  init c := c = {}
  step := step

/-- What the history `ops` says about the state it leads to. -/
structure Settled (ops : List (Op T)) (c : Custody T) : Prop where
  finite : {t | c.held t ≠ none}.Finite
  balance : (acquired ops).length =
    (released ops).length + (if c.slot = none then 0 else 1) + {t | c.held t ≠ none}.ncard
  acquired_once : (acquired ops).Nodup
  taken_once : (taken ops).Nodup
  released_once : (released ops).Nodup
  holds : ∀ t k, c.held t = some k → Holds ops t k
  released_held : ∀ xs t k ys, ops = xs ++ .release t k :: ys → Holds xs t k

/-! ## Steps -/

/-- The facts about the references that carry `Settled`. -/
structure Good (ops : List (Op T)) (c : Custody T) : Prop extends Settled ops c where
  fresh : ∀ k ∈ acquired ops, k < c.next
  slot : ∀ k, c.slot = some k → .acquire k ∈ ops ∧ k ∉ taken ops
  taken_acquired : ∀ k ∈ taken ops, k ∈ acquired ops
  released_taken : ∀ k ∈ released ops, k ∈ taken ops
  holder : ∀ t u k, .take t k ∈ ops → .take u k ∈ ops → t = u

section Steps

variable {ops : List (Op T)} {c c' : Custody T} {op : Op T} {t : T} {k : ℕ}

theorem mem_acquired : k ∈ acquired ops ↔ .acquire k ∈ ops := by
  simp only [acquired, List.mem_filterMap]
  constructor
  · rintro ⟨op, h, ho⟩
    cases op with
    | acquire j => cases ho; exact h
    | take | release => cases ho
  · exact fun h => ⟨_, h, rfl⟩

theorem mem_taken_of_mem (h : .take t k ∈ ops) : k ∈ taken ops :=
  List.mem_filterMap.mpr ⟨_, h, rfl⟩

theorem Holds.append (h : Holds ops t k) (hr : op.released ≠ some k) :
    Holds (ops ++ [op]) t k := by
  refine ⟨List.mem_append_left _ h.acquire_mem, List.mem_append_left _ h.take_mem, ?_⟩
  rw [released, List.filterMap_append, List.mem_append, not_or]
  refine ⟨h.not_released, fun hm => ?_⟩
  obtain ⟨_, ho, hk⟩ := List.mem_filterMap.mp hm
  obtain rfl := List.mem_singleton.mp ho
  exact hr hk

/-- The last release of a history is one of the histories before it, or `op`. -/
theorem Settled.released_held_append (hi : Settled ops c)
    (h : ∀ t k, op = .release t k → Holds ops t k) (xs : List (Op T)) (t : T) (k : ℕ)
    (ys : List (Op T)) (he : ops ++ [op] = xs ++ .release t k :: ys) : Holds xs t k := by
  rcases List.eq_nil_or_concat ys with rfl | ⟨zs, y, rfl⟩
  · obtain ⟨rfl, ho⟩ := List.append_inj' he rfl
    exact h t k (List.head_eq_of_cons_eq ho)
  · rw [List.concat_eq_append, ← List.cons_append, ← List.append_assoc] at he
    exact hi.released_held xs t k zs (List.append_inj' he rfl).1

/-- A holder more. -/
theorem ncard_take [DecidableEq T] {held : T → Option ℕ} (hf : {t | held t ≠ none}.Finite)
    (h : held t = none) :
    {u | Function.update held t (some k) u ≠ none}.Finite ∧
      {u | Function.update held t (some k) u ≠ none}.ncard = {u | held u ≠ none}.ncard + 1 := by
  have hs : {u | Function.update held t (some k) u ≠ none} = insert t {u | held u ≠ none} := by
    ext u
    by_cases hu : u = t
    · subst hu
      simp
    · simp [hu]
  rw [hs]
  exact ⟨hf.insert t, Set.ncard_insert_of_notMem (by simpa using h) hf⟩

/-- A holder less. -/
theorem ncard_release [DecidableEq T] {held : T → Option ℕ} (hf : {t | held t ≠ none}.Finite)
    (h : held t = some k) :
    {u | Function.update held t none u ≠ none}.Finite ∧
      {u | Function.update held t none u ≠ none}.ncard + 1 = {u | held u ≠ none}.ncard := by
  have hs : {u | Function.update held t none u ≠ none} = {u | held u ≠ none} \ {t} := by
    ext u
    by_cases hu : u = t
    · subst hu
      simp
    · simp [hu]
  rw [hs]
  exact ⟨hf.sdiff, Set.ncard_sdiff_singleton_add_one (by simp [h]) hf⟩

theorem Good.acquire (hi : Good ops c) (hs : c.slot = none) (hk : c.next ≤ k) :
    Good (ops ++ [.acquire k]) { c with next := k + 1, slot := some k } := by
  have ha : acquired (ops ++ [.acquire k]) = acquired ops ++ [k] := List.filterMap_append
  have ht : taken (ops ++ [.acquire k]) = taken ops := by simp [taken, Op.taken]
  have hr : released (ops ++ [.acquire k]) = released ops := by simp [released, Op.released]
  have hka : k ∉ acquired ops := fun h => by have := hi.fresh k h; omega
  refine ⟨⟨hi.finite, ?_, ?_, ht ▸ hi.taken_once, hr ▸ hi.released_once, ?_, ?_⟩,
    ?_, ?_, ?_, ?_, ?_⟩
  · have := hi.balance
    rw [hs] at this
    rw [ha, hr, List.length_append, this]
    simp
    omega
  · rw [ha]
    exact List.nodup_append.mpr ⟨hi.acquired_once, List.nodup_singleton k, by grind⟩
  · exact fun u j hu => (hi.holds u j hu).append (by simp [Op.released])
  · exact hi.released_held_append fun u j h => by cases h
  · intro j hj
    rw [ha, List.mem_append, List.mem_singleton] at hj
    rcases hj with hj | rfl
    · exact Nat.lt_succ_of_lt (Nat.lt_of_lt_of_le (hi.fresh j hj) hk)
    · exact Nat.lt_succ_self j
  · rintro j hj
    cases hj
    refine ⟨List.mem_append_right _ (List.mem_singleton_self _), ?_⟩
    rw [ht]
    exact fun h => hka (hi.taken_acquired k h)
  · intro j hj
    rw [ha]
    exact List.mem_append_left _ (hi.taken_acquired j (ht ▸ hj))
  · intro j hj
    rw [ht]
    exact hi.released_taken j (hr ▸ hj)
  · intro u v j hu hv
    simp only [List.mem_append, List.mem_singleton, reduceCtorEq, or_false] at hu hv
    exact hi.holder u v j hu hv

theorem Good.take [DecidableEq T] (hi : Good ops c) (hs : c.slot = some k)
    (ht : c.held t = none) :
    Good (ops ++ [.take t k])
      { c with slot := none, held := Function.update c.held t (some k) } := by
  have ha : acquired (ops ++ [.take t k]) = acquired ops := by simp [acquired, Op.acquired]
  have htk : taken (ops ++ [.take t k]) = taken ops ++ [k] := List.filterMap_append
  have hr : released (ops ++ [.take t k]) = released ops := by simp [released, Op.released]
  obtain ⟨hka, hkt⟩ := hi.slot k hs
  obtain ⟨hf, hn⟩ := ncard_take (k := k) hi.finite ht
  refine ⟨⟨hf, ?_, ha ▸ hi.acquired_once, ?_, hr ▸ hi.released_once, ?_, ?_⟩, ?_, ?_, ?_, ?_, ?_⟩
  · have := hi.balance
    rw [hs, if_neg (Option.some_ne_none k)] at this
    rw [ha, hr, hn, this, if_pos rfl]
    omega
  · rw [htk]
    exact List.nodup_append.mpr ⟨hi.taken_once, List.nodup_singleton k, by grind⟩
  · intro u j hu
    change Function.update c.held t (some k) u = some j at hu
    by_cases hut : u = t
    · subst hut
      rw [Function.update_self] at hu
      cases hu
      refine ⟨List.mem_append_left _ hka, List.mem_append_right _ (List.mem_singleton_self _), ?_⟩
      rw [hr]
      exact fun h => hkt (hi.released_taken k h)
    · rw [Function.update_of_ne hut] at hu
      exact (hi.holds u j hu).append (by simp [Op.released])
  · exact hi.released_held_append fun u j h => by cases h
  · rw [ha]
    exact hi.fresh
  · intro j hj
    cases hj
  · intro j hj
    rw [ha]
    rw [htk, List.mem_append, List.mem_singleton] at hj
    rcases hj with hj | rfl
    · exact hi.taken_acquired j hj
    · exact mem_acquired.mpr hka
  · intro j hj
    rw [htk]
    exact List.mem_append_left _ (hi.released_taken j (hr ▸ hj))
  · intro u v j hu hv
    simp only [List.mem_append, List.mem_singleton, Op.take.injEq] at hu hv
    rcases hu with hu | ⟨rfl, rfl⟩
    · rcases hv with hv | ⟨rfl, rfl⟩
      · exact hi.holder u v j hu hv
      · exact absurd (mem_taken_of_mem hu) hkt
    · rcases hv with hv | ⟨rfl, -⟩
      · exact absurd (mem_taken_of_mem hv) hkt
      · rfl

theorem Good.release [DecidableEq T] (hi : Good ops c) (ht : c.held t = some k) :
    Good (ops ++ [.release t k]) { c with held := Function.update c.held t none } := by
  have ha : acquired (ops ++ [.release t k]) = acquired ops := by simp [acquired, Op.acquired]
  have htk : taken (ops ++ [.release t k]) = taken ops := by simp [taken, Op.taken]
  have hr : released (ops ++ [.release t k]) = released ops ++ [k] := List.filterMap_append
  have hk := hi.holds t k ht
  obtain ⟨hf, hn⟩ := ncard_release hi.finite ht
  refine ⟨⟨hf, ?_, ha ▸ hi.acquired_once, htk ▸ hi.taken_once, ?_, ?_, ?_⟩, ?_, ?_, ?_, ?_, ?_⟩
  · rw [ha, hr, List.length_append, hi.balance, ← hn, List.length_singleton]
    dsimp only
    omega
  · rw [hr]
    exact List.nodup_append.mpr
      ⟨hi.released_once, List.nodup_singleton k, by grind [hk.not_released]⟩
  · intro u j hu
    change Function.update c.held t none u = some j at hu
    have hut : u ≠ t := by
      rintro rfl
      rw [Function.update_self] at hu
      cases hu
    rw [Function.update_of_ne hut] at hu
    refine (hi.holds u j hu).append ?_
    rintro ⟨⟩
    exact hut (hi.holder u t k (hi.holds u k hu).take_mem hk.take_mem)
  · refine hi.released_held_append fun u j h => ?_
    cases h
    exact hk
  · rw [ha]
    exact hi.fresh
  · intro j hj
    rw [htk]
    exact ⟨List.mem_append_left _ (hi.slot j hj).1, (hi.slot j hj).2⟩
  · rw [ha, htk]
    exact hi.taken_acquired
  · intro j hj
    rw [htk]
    rw [hr, List.mem_append, List.mem_singleton] at hj
    rcases hj with hj | rfl
    · exact hi.released_taken j hj
    · exact mem_taken_of_mem hk.take_mem
  · intro u v j hu hv
    simp only [List.mem_append, List.mem_singleton, reduceCtorEq, or_false] at hu hv
    exact hi.holder u v j hu hv

theorem good_nil : Good ([] : List (Op T)) {} := by
  refine ⟨⟨?_, ?_, List.nodup_nil, List.nodup_nil, List.nodup_nil, ?_, ?_⟩, ?_, ?_, ?_, ?_, ?_⟩
  all_goals simp [acquired, taken, released]

variable [DecidableEq T]

theorem Good.step (hi : Good ops c) (h : (system T).step c op = some c') :
    Good (ops ++ [op]) c' := by
  cases op with
  | acquire k =>
    obtain ⟨⟨hs, hk⟩, h⟩ := Option.ite_none_right_eq_some.mp h
    cases h
    exact hi.acquire hs hk
  | take t k =>
    obtain ⟨⟨hs, ht⟩, h⟩ := Option.ite_none_right_eq_some.mp h
    cases h
    exact hi.take hs ht
  | release t k =>
    obtain ⟨ht, h⟩ := Option.ite_none_right_eq_some.mp h
    cases h
    exact hi.release ht

/-- **The references are settled** in every state. -/
theorem settled (h : (system T).exec {} ops = some c) : Settled ops c :=
  (System.exec_rec good_nil (fun _ _ _ _ hi h => Good.step hi h) h).toSettled

end Steps

end Custody

end Lib
