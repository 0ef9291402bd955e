import Dpp.Deque.Ends

/-!
# Ranges into a deque

* `fill`, **`uninitializedCopy_eq`**: the copy loop puts the items of another deque into raw cells.
* `Reaches`: how far `operator+=` gets back.
* **`Valid.insertBack`**, **`Valid.insertFront`**: a range behind and in front of a list;
  **`Valid.insertFront_none`**: where an insertion in front goes wrong.
* **`Valid.insertEnd`**: the insertion at the end, which is one in front of an empty deque.
-/

namespace Dpp

open Lib

namespace Deque

variable {T : Type} {k : ℕ} {d x : Deque T k} {s u : Shape} {l ys : List T}

/-- Cells from `p` on filled with a list. -/
def fill (f : ℕ → Option T) (p : ℕ) (ys : List T) (r : ℕ) : Option T :=
  if p ≤ r ∧ r < p + ys.length then ys[r - p]? else f r

theorem fill_nil (f : ℕ → Option T) (p : ℕ) : fill f p [] = f := by
  funext r
  exact if_neg fun h => absurd h.2 (by simpa using h.1)

theorem fill_cons (f : ℕ → Option T) (p : ℕ) (y : T) (ys : List T) :
    fill (Function.update f p (some y)) (p + 1) ys = fill f p (y :: ys) := by
  funext r
  rw [fill, fill, List.length_cons]
  rcases Nat.lt_trichotomy r p with hr | rfl | hr
  · rw [if_neg (by omega), if_neg (by omega), Function.update_of_ne (by omega)]
  · rw [if_neg (by omega), if_pos (by omega), Function.update_self, Nat.sub_self]
    rfl
  · by_cases hlt : r < p + 1 + ys.length
    · rw [if_pos (by omega), if_pos (by omega), show r - p = r - (p + 1) + 1 by omega]
      rfl
    · rw [if_neg (by omega), if_neg (by omega), Function.update_of_ne (by omega)]

theorem fill_window_back (head : ℕ) (l ys : List T) :
    fill (window head l) (head + l.length) ys = window head (l ++ ys) := by
  induction ys generalizing l with
  | nil => rw [fill_nil, List.append_nil]
  | cons y ys ih =>
    rw [← fill_cons, window_push]
    have := ih (l ++ [y])
    rw [List.length_append, List.length_singleton, List.append_assoc] at this
    exact this

theorem fill_window_front (head : ℕ) (l ys : List T) :
    fill (window (head + ys.length) l) head ys = window head (ys ++ l) := by
  funext r
  rw [fill, window, window]
  by_cases hlt : r < head
  · rw [if_neg (by omega), if_pos (by omega), if_pos hlt]
  · by_cases hin : r < head + ys.length
    · rw [if_pos (by omega), if_neg hlt, List.getElem?_append_left (by omega)]
    · rw [if_neg (by omega), if_neg hin, if_neg hlt, List.getElem?_append_right (by omega)]
      congr 1
      omega

/-- The loop of `uninitialized_copy`, from another deque into raw cells. -/
theorem uninitializedCopy_eq {f g : ℕ → Option T} {p q n : ℕ} (h : Owns d s f)
    (hx : Owns x u g) (hq : q + ys.length < u.cells k) (hp : p + ys.length < s.cells k)
    (hg : ∀ i < ys.length, g (q + i) = ys[i]?) (hf : ∀ i < ys.length, f (p + i) = none)
    (hn : ys.length ≤ n) :
    ∃ items, uninitializedCopy x d (u.it k (q + ys.length)) n (u.it k q) (s.it k p) =
        some ({ d with items }, s.it k (p + ys.length)) ∧
      Owns ({ d with items } : Deque T k) s (fill f p ys) := by
  induction ys generalizing d f p q n with
  | nil =>
    refine ⟨d.items, ?_, by rw [fill_nil]; exact h⟩
    cases n <;> exact if_pos rfl
  | cons y ys ih =>
    obtain ⟨n, rfl⟩ : ∃ m, n = m + 1 :=
      Nat.exists_eq_add_one_of_ne_zero (by rw [List.length_cons] at hn; omega)
    simp only [List.length_cons] at hq hp hg hf hn ⊢
    have hne : u.slot k q ≠ u.slot k (q + (ys.length + 1)) := fun hc => by
      have := (Shape.slot_inj hx.nodup (by omega) hq).mp hc
      omega
    have hfp : f p = none := hf 0 (by omega)
    have hset := h.set (p := p) (by omega) (some y)
    have hraw : ∀ i < ys.length, Function.update f p (some y) (p + 1 + i) = none := fun i hi => by
      rw [Function.update_of_ne (by omega), Nat.add_assoc, Nat.add_comm 1]
      exact hf (i + 1) (by omega)
    have hrest : ∀ i < ys.length, g (q + 1 + i) = ys[i]? := fun i hi => by
      rw [Nat.add_assoc, Nat.add_comm 1, hg (i + 1) (by omega)]
      rfl
    obtain ⟨items, heq, hown⟩ := ih (q := q + 1) (n := n) hset (by omega) (by omega) hrest hraw
      (by omega)
    refine ⟨items, ?_, by rw [← fill_cons]; exact hown⟩
    have hread : x.items.read (u.slot k q) = some y :=
      hx.read (by omega) (hg 0 (by omega))
    have hfirst : (u.it k q).incr k x.ptrs = some (u.it k (q + 1)) :=
      incr_it hx.table (by omega)
    have hdest : (s.it k p).incr k d.ptrs = some (s.it k (p + 1)) := incr_it h.table (by omega)
    have hcon := h.construct (p := p) (by omega) hfp y
    rw [uninitializedCopy, Shape.it_mpCurrent, Shape.it_mpCurrent, if_neg hne]
    simp only [hread, Shape.it_mpCurrent, hcon, hfirst, hdest, Option.bind_eq_bind,
      Option.bind_some]
    rw [show q + (ys.length + 1) = q + 1 + ys.length by omega,
      show p + (ys.length + 1) = p + 1 + ys.length by omega]
    exact heq

/-! ## The two insertions -/

/-- `operator-=` by `n` from the first cells of the first subarray stays on the subarrays. -/
def Reaches (k head n : ℕ) : Prop :=
  -16777216 ≤ (head : ℤ) - n ∨ (k : ℤ) ∣ (head : ℤ) - n

theorem sub_length (u : Shape) (q n : ℕ) :
    ((u.it k (q + n)).sub k (u.it k q)).toNat = n := by
  rw [sub_it]
  omega

/-- The source of a range: a deque that holds `pre ++ ys`, of which `ys` is inserted. -/
structure Range (x : Deque T k) (u : Shape) (ys : List T) (first last : DequeIterator) (q : ℕ) :
    Prop where
  owns : ∃ g, Owns x u g ∧ ∀ i < ys.length, g (q + i) = ys[i]?
  first_eq : first = u.it k q
  last_eq : last = u.it k (q + ys.length)
  fits : q + ys.length < u.cells k

theorem Valid.range (h : Valid x u (l ++ ys)) :
    Range x u ys (u.it k (u.head + l.length)) x.mItEnd (u.head + l.length) where
  owns := by
    refine ⟨_, h.owns, fun i hi => ?_⟩
    rw [Nat.add_assoc, window_add, List.getElem?_append_right (by omega), Nat.add_sub_cancel_left]
  first_eq := rfl
  last_eq := by rw [h.end_eq, List.length_append, Nat.add_assoc]
  fits := by
    have := h.end_lt
    rw [List.length_append] at this
    omega

variable {first last : DequeIterator} {q : ℕ}

theorem Valid.insertBack (h : Valid d s l) (hk : k ∣ 16777216) (hr : Range x u ys first last q) :
    ∃ d' t, d.insertBack x first last = some d' ∧ Valid d' t (l ++ ys) ∧
      Resized d d' t.subs.length := by
  obtain ⟨⟨g, hx, hg⟩, rfl, rfl, hfits⟩ := hr
  obtain ⟨d₁, t, hd₁, hroomy, hhead, hroom, htight, hsize⟩ :=
    h.doReallocSubarray_back (n := ys.length) hk
  obtain ⟨items, hcopy, hown⟩ := uninitializedCopy_eq (p := t.head + l.length) hroomy.owns hx hfits
    hroom hg (fun i _ => window_of_ge (by omega)) (le_refl _)
  rw [fill_window_back] at hown
  have hlen : t.head + (l ++ ys).length = t.head + l.length + ys.length := by
    rw [List.length_append, Nat.add_assoc]
  refine ⟨{ d₁ with items, mItEnd := t.it k (t.head + l.length + ys.length) }, t, ?_,
    ⟨⟨hown.withEnds _ _, hroomy.begin_eq, by rw [hlen], by omega⟩, ?_, by omega⟩, hsize⟩
  · rw [Deque.insertBack]
    simp only [sub_length, hd₁, Option.bind_eq_bind, Option.bind_some, hroomy.end_eq, hcopy,
      Option.pure_def]
  · rw [hhead]
    exact h.head_lt

theorem Valid.insertFront (h : Valid d s l) (hk : k ∣ 16777216) (hr : Range x u ys first last q)
    (hn : Reaches k s.head ys.length) :
    ∃ d' t, d.insertFront x first last = some d' ∧ Valid d' t (ys ++ l) ∧
      Resized d d' t.subs.length := by
  obtain ⟨⟨g, hx, hg⟩, rfl, rfl, hfits⟩ := hr
  obtain ⟨d₁, t, hd₁, hroomy, hle, hlt, hmod, htight, hsize⟩ :=
    h.doReallocSubarray_front (n := ys.length)
  have hend := hroomy.end_lt
  have hadd : d₁.mItBegin.add k d₁.ptrs (-(ys.length : ℤ)) =
      some (t.it k (t.head - ys.length)) := by
    rw [hroomy.begin_eq]
    refine add_it hroomy.owns.table hk (by push_cast [hle]; ring) (by omega) ?_
    rw [hmod]
    exact hn
  have hhead : t.head = t.head - ys.length + ys.length := by omega
  have hown₀ := hroomy.owns
  rw [hhead] at hown₀
  obtain ⟨items, hcopy, hown⟩ := uninitializedCopy_eq (p := t.head - ys.length) hown₀ hx hfits
    (by omega) hg (fun i hi => window_of_lt l (by omega)) (le_refl _)
  rw [fill_window_front] at hown
  refine ⟨{ d₁ with items, mItBegin := t.it k (t.head - ys.length) },
    { t with head := t.head - ys.length }, ?_,
    ⟨⟨(hown.withHead _).withEnds _ _, rfl, ?_, ?_⟩, ?_, ?_⟩, hsize⟩
  · rw [Deque.insertFront]
    simp only [sub_length, hd₁, hadd, Option.map_some, Option.bind_eq_bind, Option.bind_some, hcopy,
      Option.pure_def]
  · show d₁.mItEnd = t.it k (t.head - ys.length + (ys ++ l).length)
    rw [hroomy.end_eq, List.length_append]
    congr 1
    omega
  · show t.head - ys.length + (ys ++ l).length < t.cells k
    rw [List.length_append]
    omega
  · show t.head - ys.length < k
    omega
  · show t.cells k ≤ t.head - ys.length + (ys ++ l).length + k
    rw [List.length_append]
    omega

/-- An insertion in front that `operator-=` does not reach writes in front of a subarray. -/
theorem Valid.insertFront_none (h : Valid d s l) (hk : k ∣ 16777216)
    (hr : Range x u ys first last q) (hn : ¬ Reaches k s.head ys.length) :
    d.insertFront x first last = none := by
  obtain ⟨⟨g, hx, hg⟩, rfl, rfl, hfits⟩ := hr
  obtain ⟨hfar, hnd⟩ := not_or.mp hn
  obtain ⟨d₁, t, hd₁, hroomy, hle, hlt, hmod, htight⟩ :=
    h.doReallocSubarray_front (n := ys.length)
  have hend := hroomy.end_lt
  have hfar' : ((t.head % k : ℕ) : ℤ) + -(ys.length : ℤ) < -16777216 := by
    rw [hmod]
    omega
  have hnd' : ¬ (k : ℤ) ∣ ((t.head % k : ℕ) : ℤ) + -(ys.length : ℤ) := by
    rw [hmod]
    exact hnd
  obtain ⟨it, hit, hneg, -⟩ := add_eq_of_lt hroomy.owns.table hk (q := t.head - ys.length)
    (by push_cast [hle]; ring) (by omega) hfar' hnd'
  rw [← hroomy.begin_eq] at hit
  obtain ⟨y, zs, rfl⟩ : ∃ y zs, ys = y :: zs := by
    refine List.exists_cons_of_ne_nil fun hc => ?_
    rw [hc, List.length_nil] at hfar
    omega
  simp only [List.length_cons] at hfits hg hd₁ hit
  have hne : u.slot k q ≠ u.slot k (q + (zs.length + 1)) := fun hc => by
    have := (Shape.slot_inj hx.nodup (by omega) hfits).mp hc
    omega
  have hread : x.items.read (u.slot k q) = some y :=
    hx.read (by omega) (hg 0 (by omega))
  have hcopy : uninitializedCopy x d₁ (u.it k (q + (zs.length + 1))) (zs.length + 1)
      (u.it k q) it = none := by
    rw [uninitializedCopy, Shape.it_mpCurrent, Shape.it_mpCurrent, if_neg hne, hread,
      Option.bind_eq_bind, Option.bind_some,
      Storage.construct_of_not_live (Storage.not_live_of_neg hneg)]
    rfl
  rw [Deque.insertFront]
  simp only [List.length_cons, sub_length, hd₁, hit, Option.map_some, Option.bind_eq_bind,
    Option.bind_some, hcopy, Option.bind_none]

/-- `insert` at the end appends the range; in an empty deque it has to reach back that far. -/
theorem Valid.insertEnd (h : Valid d s l) (hk : k ∣ 16777216) (hr : Range x u ys first last q)
    (hn : l = [] → Reaches k s.head ys.length) :
    ∃ d' t, d.insertEnd x first last = some d' ∧ Valid d' t (l ++ ys) ∧
      Resized d d' t.subs.length := by
  have hlt := h.end_lt
  rw [Deque.insertEnd]
  by_cases hl : l = []
  · subst hl
    have heq : d.mItEnd.mpCurrent = d.mItBegin.mpCurrent := by rw [h.end_eq, h.begin_eq]; rfl
    obtain ⟨d', t, hd', hv, hsize⟩ := h.insertFront hk hr (hn rfl)
    exact ⟨d', t, by rw [if_pos heq, hd'], by rwa [List.append_nil] at hv, hsize⟩
  · have hne : d.mItEnd.mpCurrent ≠ d.mItBegin.mpCurrent := fun hc => by
      rw [h.end_eq, h.begin_eq, Shape.it_mpCurrent, Shape.it_mpCurrent,
        Shape.slot_inj h.owns.nodup hlt (by omega)] at hc
      exact hl (List.eq_nil_of_length_eq_zero (by omega))
    obtain ⟨d', t, hd', hv, hsize⟩ := h.insertBack hk hr
    exact ⟨d', t, by rw [if_neg hne, hd'], hv, hsize⟩

end Deque

end Dpp
