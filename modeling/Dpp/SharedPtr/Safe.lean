import Dpp.Lib.Tally
import Dpp.SharedPtr.Model

/-!
# What shared pointers guarantee

* `Ptr.refs`, `Ptr.weaks`: what a pointer has counted; `Inv`: the counts are these, and each of the
  two releases was seen by one pointer.
* `inv_step`: every access keeps the invariant.
* `Safe`; **`safe_of_reach`**: the object and its counts are freed once, in this order, when the
  last pointer has gone and not before, and no access comes after that.
-/

namespace Dpp.SharedPtr

open Lib

variable {A : Type}

namespace Ptr

/-- What a pointer has added to `mRefCount`. -/
def refs : Ptr A → ℕ
  | strong | addref _ | locked _ => 1
  | _ => 0

/-- What a pointer has added to `mWeakRefCount`. -/
def weaks : Ptr A → ℕ
  | strong | weak | freeing | releasing => 1
  | _ => 0

/-- It saw the last strong reference go. -/
def frees : Ptr A → ℕ
  | freeing => 1
  | _ => 0

/-- It saw the last reference go. -/
def freesBlock : Ptr A → ℕ
  | freeingBlock => 1
  | _ => 0

theorem refs_le (p : Ptr A) : p.refs ≤ 1 := by cases p <;> simp [refs]

theorem weaks_le (p : Ptr A) : p.weaks ≤ 1 := by cases p <;> simp [weaks]

/-- What a pointer in use is to the one that uses it. -/
def Serves (p q : Ptr A) : Prop :=
  match p with
  | addref _ => q = strong
  | lock .. | locked _ => q = weak
  | _ => True

end Ptr

variable [Fintype A]

namespace State

variable (s : State A)

/-- The number of references counted in `mRefCount`. -/
def refs : ℕ := tally Ptr.refs s.ptr

/-- The number of references counted in `mWeakRefCount`. -/
def weaks : ℕ := tally Ptr.weaks s.ptr

end State

/-- The counts are the numbers of references; the object is freed, or about to be, once there is no
strong one, the counts once there is none at all. -/
structure Inv (s : State A) : Prop where
  mRefCount : s.counts.mRefCount = BitVec.ofNat 32 s.refs
  mWeakRefCount : s.counts.mWeakRefCount = BitVec.ofNat 32 s.weaks
  value : s.counts.valueFreed + tally Ptr.frees s.ptr = if s.refs = 0 then 1 else 0
  block : s.counts.blockFreed + tally Ptr.freesBlock s.ptr = if s.weaks = 0 then 1 else 0
  serves : ∀ a b, (s.ptr a).src = some b → (s.ptr a).Serves (s.ptr b)
  failed : ∀ a b, s.ptr a = .lock b 0 → s.refs = 0
  usedFreed : s.counts.usedFreed = false

section

variable {s s' : State A} {a b : A} {p : Ptr A}

theorem Inv.src_weaks (h : Inv s) (hs : (s.ptr a).src = some b) : (s.ptr b).weaks = 1 := by
  have hserves := h.serves a b hs
  cases hp : s.ptr a <;> rw [hp] at hs hserves <;> cases hs <;>
    (replace hserves : s.ptr b = _ := hserves; rw [hserves]; rfl)

theorem refs_pos (h : (s.ptr a).refs = 1) : 0 < s.refs := by
  have := le_tally (w := Ptr.refs) (f := s.ptr) a
  rwa [h] at this

theorem weaks_pos (h : (s.ptr a).weaks = 1) : 0 < s.weaks := by
  have := le_tally (w := Ptr.weaks) (f := s.ptr) a
  rwa [h] at this

/-- The counts can still be used. -/
theorem Inv.use_eq (h : Inv s) (hw : 0 < s.weaks) : s.counts.use = s.counts := by
  have hb := h.block
  rw [if_neg hw.ne'] at hb
  have hz : s.counts.blockFreed = 0 := by omega
  obtain ⟨⟨r, w, v, f, u⟩, ptr⟩ := s
  simp only at hz
  simp [RefCount.use, hz]

/-- Only an owning or a weak pointer is copied or locked. -/
theorem Inv.unused (h : Inv s) (hs : s.ptr a ≠ .strong) (hw : s.ptr a ≠ .weak) : s.Unused a := by
  intro b hb
  have hweaks := h.src_weaks hb
  have hserves := h.serves b a hb
  cases hp : s.ptr b <;> rw [hp] at hb hserves <;> cases hb
  exacts [hs hserves, hw hserves, hw hserves]

theorem ofNat_eq_iff {m n : ℕ} (hm : m < 2 ^ 32) (hn : n < 2 ^ 32) :
    BitVec.ofNat 32 m = BitVec.ofNat 32 n ↔ m = n := by
  rw [← BitVec.toNat_inj, BitVec.toNat_ofNat, BitVec.toNat_ofNat, Nat.mod_eq_of_lt hm,
    Nat.mod_eq_of_lt hn]

theorem Inv.mRefCount_eq_iff (h : Inv s) (hA : Fintype.card A < 2 ^ 32) {n : ℕ} (hn : n < 2 ^ 32) :
    s.counts.mRefCount = BitVec.ofNat 32 n ↔ s.refs = n := by
  rw [h.mRefCount]
  exact ofNat_eq_iff (lt_of_le_of_lt (tally_le Ptr.refs_le) hA) hn

theorem Inv.mWeakRefCount_eq_iff (h : Inv s) (hA : Fintype.card A < 2 ^ 32) {n : ℕ}
    (hn : n < 2 ^ 32) : s.counts.mWeakRefCount = BitVec.ofNat 32 n ↔ s.weaks = n := by
  rw [h.mWeakRefCount]
  exact ofNat_eq_iff (lt_of_le_of_lt (tally_le Ptr.weaks_le) hA) hn

variable [DecidableEq A]

/-- One pointer changes, and the counts with it. -/
theorem Inv.set (h : Inv s) {c : RefCount} (hun : s.Unused a)
    (hserves : ∀ b, p.src = some b → b ≠ a ∧ p.Serves (s.ptr b))
    (hrefs : s.refs = 0 → p.refs = 0) (hfailed : ∀ b, p = .lock b 0 → s.refs = 0)
    (hr : c.mRefCount + BitVec.ofNat 32 (s.ptr a).refs =
      s.counts.mRefCount + BitVec.ofNat 32 p.refs)
    (hw : c.mWeakRefCount + BitVec.ofNat 32 (s.ptr a).weaks =
      s.counts.mWeakRefCount + BitVec.ofNat 32 p.weaks)
    (hv : ∀ n, n + (s.ptr a).refs = s.refs + p.refs →
      c.valueFreed + p.frees + (if s.refs = 0 then 1 else 0) =
        s.counts.valueFreed + (s.ptr a).frees + if n = 0 then 1 else 0)
    (hb : ∀ n, n + (s.ptr a).weaks = s.weaks + p.weaks →
      c.blockFreed + p.freesBlock + (if s.weaks = 0 then 1 else 0) =
        s.counts.blockFreed + (s.ptr a).freesBlock + if n = 0 then 1 else 0)
    (hu : c.usedFreed = false) : Inv { s.set a p with counts := c } := by
  have htr : (s.set a p).refs + (s.ptr a).refs = s.refs + p.refs := tally_update a p
  have htw : (s.set a p).weaks + (s.ptr a).weaks = s.weaks + p.weaks := tally_update a p
  have htf : tally Ptr.frees (s.set a p).ptr + (s.ptr a).frees =
      tally Ptr.frees s.ptr + p.frees := tally_update a p
  have htb : tally Ptr.freesBlock (s.set a p).ptr + (s.ptr a).freesBlock =
      tally Ptr.freesBlock s.ptr + p.freesBlock := tally_update a p
  refine ⟨?_, ?_, ?_, ?_, fun x y hxy => ?_, fun x y hxy => ?_, hu⟩
  · show c.mRefCount = BitVec.ofNat 32 (s.set a p).refs
    rw [h.mRefCount, ← BitVec.ofNat_add, ← htr, BitVec.ofNat_add] at hr
    exact (BitVec.add_left_inj _).mp hr
  · show c.mWeakRefCount = BitVec.ofNat 32 (s.set a p).weaks
    rw [h.mWeakRefCount, ← BitVec.ofNat_add, ← htw, BitVec.ofNat_add] at hw
    exact (BitVec.add_left_inj _).mp hw
  · have hold := h.value
    have hnew := hv _ htr
    show c.valueFreed + tally Ptr.frees (s.set a p).ptr = if (s.set a p).refs = 0 then 1 else 0
    omega
  · have hold := h.block
    have hnew := hb _ htw
    show c.blockFreed + tally Ptr.freesBlock (s.set a p).ptr =
      if (s.set a p).weaks = 0 then 1 else 0
    omega
  · simp only [State.set] at hxy ⊢
    by_cases hx : x = a
    · rw [hx, Function.update_self] at hxy ⊢
      obtain ⟨hne, hs⟩ := hserves y hxy
      rwa [Function.update_of_ne hne]
    · rw [Function.update_of_ne hx] at hxy ⊢
      have hy : y ≠ a := fun hy => hun x (hy ▸ hxy)
      rw [Function.update_of_ne hy]
      exact h.serves x y hxy
  · have hzero : s.refs = 0 := by
      simp only [State.set] at hxy
      by_cases hx : x = a
      · rw [hx, Function.update_self] at hxy
        exact hfailed y hxy
      · rw [Function.update_of_ne hx] at hxy
        exact h.failed x y hxy
    have := hrefs hzero
    show (s.set a p).refs = 0
    omega

/-! ## The accesses -/

/-- One more strong reference, where there is one already. -/
theorem Inv.addRef (h : Inv s) (hun : s.Unused a)
    (hserves : ∀ b, p.src = some b → b ≠ a ∧ p.Serves (s.ptr b))
    (hp : p.refs = 1 ∧ p.weaks = 0 ∧ p.frees = 0 ∧ p.freesBlock = 0)
    (ha : (s.ptr a).refs = 0 ∧ (s.ptr a).weaks = 0 ∧ (s.ptr a).frees = 0 ∧
      (s.ptr a).freesBlock = 0)
    (hr : 0 < s.refs) (hw : 0 < s.weaks) : Inv { s.set a p with counts := s.counts.addRef } := by
  have hlock : ∀ b, p ≠ .lock b 0 := fun b hb => by
    rw [hb] at hp
    exact absurd hp.1 Nat.zero_ne_one
  have huse := h.use_eq hw
  refine h.set hun hserves (fun hc => absurd hc hr.ne') (fun b hb => absurd hb (hlock b))
    ?_ ?_ ?_ ?_ ?_
  · rw [ha.1, hp.1]
    exact BitVec.add_zero _
  · rw [RefCount.addRef, huse, ha.2.1, hp.2.1]
  · intro n hn
    rw [RefCount.addRef, huse, ha.2.2.1, hp.2.2.1, if_neg hr.ne', if_neg (by omega)]
  · intro n hn
    rw [RefCount.addRef, huse, ha.2.2.2, hp.2.2.2, if_neg hw.ne', if_neg (by omega)]
  · rw [RefCount.addRef, huse]
    exact h.usedFreed

/-- One more reference to the counts. -/
theorem Inv.addWeak (h : Inv s) (hun : s.Unused a) (hsrc : p.src = none)
    (hp : p.refs = (s.ptr a).refs ∧ p.weaks = 1 ∧ p.frees = 0 ∧ p.freesBlock = 0)
    (ha : (s.ptr a).weaks = 0 ∧ (s.ptr a).frees = 0 ∧ (s.ptr a).freesBlock = 0)
    (hw : 0 < s.weaks) : Inv { s.set a p with counts := s.counts.addWeak } := by
  have hlock : ∀ b, p ≠ .lock b 0 := fun b hb => by
    rw [hb] at hsrc
    cases hsrc
  have huse := h.use_eq hw
  have hle : (s.ptr a).refs ≤ s.refs := le_tally a
  refine h.set hun (fun b hb => ?_) (fun hc => by omega) (fun b hb => absurd hb (hlock b))
    ?_ ?_ ?_ ?_ ?_
  · rw [hsrc] at hb
    cases hb
  · rw [RefCount.addWeak, huse, hp.1]
  · rw [ha.1, hp.2.1]
    exact BitVec.add_zero _
  · intro n hn
    rw [RefCount.addWeak, huse, ha.2.1, hp.2.2.1, show n = s.refs by omega]
  · intro n hn
    rw [RefCount.addWeak, huse, ha.2.2, hp.2.2.2, if_neg hw.ne', if_neg (by omega)]
  · rw [RefCount.addWeak, huse]
    exact h.usedFreed

/-- A pointer that has counted nothing changes without counting anything. -/
theorem Inv.idle (h : Inv s) (hun : s.Unused a)
    (hserves : ∀ b, p.src = some b → b ≠ a ∧ p.Serves (s.ptr b))
    (hfailed : ∀ b, p = .lock b 0 → s.refs = 0)
    (hp : p.refs = 0 ∧ p.weaks = 0 ∧ p.frees = 0 ∧ p.freesBlock = 0)
    (ha : (s.ptr a).refs = 0 ∧ (s.ptr a).weaks = 0 ∧ (s.ptr a).frees = 0 ∧
      (s.ptr a).freesBlock = 0) : Inv (s.set a p) := by
  refine h.set (c := s.counts) hun hserves (fun _ => hp.1) hfailed (by rw [hp.1, ha.1])
    (by rw [hp.2.1, ha.2.1]) (fun n hn => ?_) (fun n hn => ?_) h.usedFreed
  · rw [hp.2.2.1, ha.2.2.1, show n = s.refs by omega]
  · rw [hp.2.2.2, ha.2.2.2, show n = s.weaks by omega]

/-- `release` up to `free_value`. -/
theorem Inv.release (h : Inv s) (hA : Fintype.card A < 2 ^ 32) (ha : s.ptr a = .strong)
    (hun : s.Unused a) :
    Inv { s.set a (if s.counts.mRefCount = 1 then .freeing else .releasing) with
      counts := s.counts.subRef } := by
  have hr : 0 < s.refs := refs_pos (a := a) (by rw [ha]; rfl)
  have hw : 0 < s.weaks := weaks_pos (a := a) (by rw [ha]; rfl)
  have huse := h.use_eq hw
  have hiff : s.counts.mRefCount = 1 ↔ s.refs = 1 := h.mRefCount_eq_iff hA (n := 1) (by decide)
  generalize hp : (if s.counts.mRefCount = 1 then Ptr.freeing else .releasing : Ptr A) = p
  have hpw : p.refs = 0 ∧ p.weaks = 1 ∧ p.freesBlock = 0 ∧ p.src = none ∧
      p.frees = if s.refs = 1 then 1 else 0 := by
    rw [← hp]
    split_ifs with h1 h2 h2 <;> simp_all [Ptr.refs, Ptr.weaks, Ptr.frees, Ptr.freesBlock, Ptr.src]
  refine h.set hun (fun b hb => ?_) (fun _ => hpw.1) (fun b hb => ?_) ?_ ?_ ?_ ?_ ?_
  · rw [hpw.2.2.2.1] at hb
    cases hb
  · rw [hb] at hpw
    cases hpw.2.2.2.1
  · rw [RefCount.subRef, ha, hpw.1]
    show s.counts.mRefCount - 1 + 1 = s.counts.mRefCount + 0
    rw [BitVec.sub_add_cancel]
    exact (BitVec.add_zero _).symm
  · rw [RefCount.subRef, huse, ha, hpw.2.1]
    rfl
  · intro n hn
    rw [ha, hpw.1] at hn
    replace hn : n + 1 = s.refs := hn
    rw [RefCount.subRef, huse, ha, hpw.2.2.2.2, if_neg hr.ne']
    show s.counts.valueFreed + _ + 0 = s.counts.valueFreed + 0 + _
    by_cases h1 : s.refs = 1
    · rw [if_pos h1, if_pos (by omega)]
    · rw [if_neg h1, if_neg (by omega)]
  · intro n hn
    rw [ha, hpw.2.1] at hn
    replace hn : n + 1 = s.weaks + 1 := hn
    rw [RefCount.subRef, huse, ha, hpw.2.2.1, show n = s.weaks by omega]
    rfl
  · rw [RefCount.subRef, huse]
    exact h.usedFreed

theorem Inv.freeValue (h : Inv s) (ha : s.ptr a = .freeing) (hun : s.Unused a) :
    Inv { s.set a .releasing with counts := s.counts.freeValue } := by
  have hw : 0 < s.weaks := weaks_pos (a := a) (by rw [ha]; rfl)
  have huse := h.use_eq hw
  refine h.set hun nofun (fun _ => rfl) nofun ?_ ?_ ?_ ?_ ?_ <;> rw [RefCount.freeValue, huse]
  · rw [ha]
    rfl
  · rw [ha]
    rfl
  · intro n hn
    rw [ha] at hn ⊢
    replace hn : n = s.refs := hn
    rw [hn]
    rfl
  · intro n hn
    rw [ha] at hn ⊢
    replace hn : n + 1 = s.weaks + 1 := hn
    rw [show n = s.weaks by omega]
    rfl
  · exact h.usedFreed

/-- `weak_release` up to `free_ref_count_sp`. -/
theorem Inv.weakRelease (h : Inv s) (hA : Fintype.card A < 2 ^ 32)
    (ha : s.ptr a = .releasing ∨ s.ptr a = .weak) (hun : s.Unused a) : Inv (s.weakRelease a) := by
  have hold : (s.ptr a).refs = 0 ∧ (s.ptr a).weaks = 1 ∧ (s.ptr a).frees = 0 ∧
      (s.ptr a).freesBlock = 0 := by
    rcases ha with ha | ha <;> rw [ha] <;> exact ⟨rfl, rfl, rfl, rfl⟩
  have hw : 0 < s.weaks := weaks_pos hold.2.1
  have huse := h.use_eq hw
  have hiff : s.counts.mWeakRefCount = 1 ↔ s.weaks = 1 :=
    h.mWeakRefCount_eq_iff hA (n := 1) (by decide)
  rw [State.weakRelease]
  generalize hp : (if s.counts.mWeakRefCount = 1 then Ptr.freeingBlock else .empty : Ptr A) = p
  have hpw : p.refs = 0 ∧ p.weaks = 0 ∧ p.frees = 0 ∧ p.src = none ∧
      p.freesBlock = if s.weaks = 1 then 1 else 0 := by
    rw [← hp]
    split_ifs with h1 h2 h2 <;> simp_all [Ptr.refs, Ptr.weaks, Ptr.frees, Ptr.freesBlock, Ptr.src]
  refine h.set hun (fun b hb => ?_) (fun _ => hpw.1) (fun b hb => ?_) ?_ ?_ ?_ ?_ ?_
  · rw [hpw.2.2.2.1] at hb
    cases hb
  · rw [hb] at hpw
    cases hpw.2.2.2.1
  · rw [RefCount.subWeak, huse, hold.1, hpw.1]
  · rw [RefCount.subWeak, hold.2.1, hpw.2.1]
    show s.counts.mWeakRefCount - 1 + 1 = s.counts.mWeakRefCount + 0
    rw [BitVec.sub_add_cancel]
    exact (BitVec.add_zero _).symm
  · intro n hn
    rw [hold.1, hpw.1] at hn
    rw [RefCount.subWeak, huse, hold.2.2.1, hpw.2.2.1, show n = s.refs by omega]
  · intro n hn
    rw [hold.2.1, hpw.2.1] at hn
    rw [RefCount.subWeak, huse, hold.2.2.2, hpw.2.2.2.2, if_neg hw.ne']
    show s.counts.blockFreed + _ + 0 = s.counts.blockFreed + 0 + _
    by_cases h1 : s.weaks = 1
    · rw [if_pos h1, if_pos (by omega)]
    · rw [if_neg h1, if_neg (by omega)]
  · rw [RefCount.subWeak, huse]
    exact h.usedFreed

theorem Inv.freeBlock (h : Inv s) (ha : s.ptr a = .freeingBlock) (hun : s.Unused a) :
    Inv { s.set a .empty with counts := s.counts.freeRefCountSp } := by
  have hone : 1 ≤ tally Ptr.freesBlock s.ptr := by
    have := le_tally (w := Ptr.freesBlock) (f := s.ptr) a
    rwa [ha] at this
  have huse : s.counts.use = s.counts := by
    have hb := h.block
    have hz : s.counts.blockFreed = 0 := by split_ifs at hb <;> omega
    obtain ⟨⟨r, w, v, f, u⟩, ptr⟩ := s
    simp only at hz
    simp [RefCount.use, hz]
  refine h.set hun nofun (fun _ => rfl) nofun ?_ ?_ ?_ ?_ ?_ <;> rw [RefCount.freeRefCountSp, huse]
  · rw [ha]
    rfl
  · rw [ha]
    rfl
  · intro n hn
    rw [ha] at hn ⊢
    replace hn : n = s.refs := hn
    rw [hn]
    rfl
  · intro n hn
    rw [ha] at hn ⊢
    replace hn : n = s.weaks := hn
    rw [hn]
    rfl
  · exact h.usedFreed

/-- What a pointer object weighs goes with it. -/
theorem tally_move {w : Ptr A → ℕ} (hab : a ≠ b) (hb : s.ptr b = .empty) :
    tally w ((s.set b (s.ptr a)).set a .empty).ptr = tally w s.ptr := by
  have h1 : tally w (s.set b (s.ptr a)).ptr + w (s.ptr b) = tally w s.ptr + w (s.ptr a) :=
    tally_update b (s.ptr a)
  have h2 : tally w ((s.set b (s.ptr a)).set a .empty).ptr + w ((s.set b (s.ptr a)).ptr a) =
      tally w (s.set b (s.ptr a)).ptr + w Ptr.empty := tally_update a Ptr.empty
  have h3 : (s.set b (s.ptr a)).ptr a = s.ptr a := Function.update_of_ne hab _ _
  rw [h3] at h2
  rw [hb] at h1
  omega

theorem Inv.move (h : Inv s) (ha : s.ptr a = .strong ∨ s.ptr a = .weak) (hun : s.Unused a)
    (hb : s.ptr b = .empty) : Inv ((s.set b (s.ptr a)).set a .empty) := by
  have hab : a ≠ b := fun hab => by
    rw [hab, hb] at ha
    rcases ha with ha | ha <;> cases ha
  have hsrc : (s.ptr a).src = none := by rcases ha with ha | ha <;> rw [ha] <;> rfl
  have hunb : s.Unused b := h.unused (by rw [hb]; nofun) (by rw [hb]; nofun)
  have hget : ∀ x y, (((s.set b (s.ptr a)).set a .empty).ptr x).src = some y → x ≠ a ∧ x ≠ b :=
    fun x y hxy => by
    simp only [State.set] at hxy
    constructor <;> rintro rfl
    · rw [Function.update_self] at hxy
      cases hxy
    · rw [Function.update_of_ne hab.symm, Function.update_self, hsrc] at hxy
      cases hxy
  have hkeep : ∀ x, x ≠ a → x ≠ b → ((s.set b (s.ptr a)).set a .empty).ptr x = s.ptr x :=
    fun x hxa hxb => by
    simp only [State.set, Function.update_of_ne hxa, Function.update_of_ne hxb]
  refine ⟨?_, ?_, ?_, ?_, fun x y hxy => ?_, fun x y hxy => ?_, h.usedFreed⟩
  · rw [State.refs, tally_move hab hb]
    exact h.mRefCount
  · rw [State.weaks, tally_move hab hb]
    exact h.mWeakRefCount
  · rw [State.refs, tally_move hab hb, tally_move hab hb]
    exact h.value
  · rw [State.weaks, tally_move hab hb, tally_move hab hb]
    exact h.block
  · obtain ⟨hxa, hxb⟩ := hget x y hxy
    rw [hkeep x hxa hxb] at hxy ⊢
    have hya : y ≠ a := fun hy => hun x (hy ▸ hxy)
    have hyb : y ≠ b := fun hy => hunb x (hy ▸ hxy)
    rw [hkeep y hya hyb]
    exact h.serves x y hxy
  · obtain ⟨hxa, hxb⟩ := hget x y (by rw [hxy]; rfl)
    rw [hkeep x hxa hxb] at hxy
    rw [State.refs, tally_move hab hb]
    exact h.failed x y hxy

/-- The exchange of `lock`, which succeeds only where there is a strong reference. -/
theorem Inv.exchange (h : Inv s) (hA : Fintype.card A < 2 ^ 32) {temp : BitVec 32}
    (ha : s.ptr a = .lock b temp) (spurious : Bool) : Inv (s.exchange a b temp spurious) := by
  have hun : s.Unused a := h.unused (by rw [ha]; nofun) (by rw [ha]; nofun)
  have hold : (s.ptr a).refs = 0 ∧ (s.ptr a).weaks = 0 ∧ (s.ptr a).frees = 0 ∧
      (s.ptr a).freesBlock = 0 := by rw [ha]; exact ⟨rfl, rfl, rfl, rfl⟩
  have hsrc : (s.ptr a).src = some b := by rw [ha]; rfl
  have hw : 0 < s.weaks := weaks_pos (h.src_weaks hsrc)
  have hweak : s.ptr b = .weak := by
    have := h.serves a b hsrc
    rwa [ha] at this
  have hne : b ≠ a := fun hba => by
    rw [hba, ha] at hweak
    cases hweak
  rw [State.exchange]
  split_ifs with hz hx
  · exact h.idle hun nofun nofun ⟨rfl, rfl, rfl, rfl⟩ hold
  · have hr : 0 < s.refs := Nat.pos_of_ne_zero fun hr =>
      hz (hx.1.symm.trans ((h.mRefCount_eq_iff hA (n := 0) (by decide)).mpr hr))
    refine h.addRef hun (fun c hc => ?_) ⟨rfl, rfl, rfl, rfl⟩ hold hr hw
    cases hc
    exact ⟨hne, hweak⟩
  · rw [h.use_eq hw]
    refine h.idle hun (fun c hc => ?_) (fun c hc => ?_) ⟨rfl, rfl, rfl, rfl⟩ hold
    · cases hc
      exact ⟨hne, hweak⟩
    · have hzero : s.counts.mRefCount = 0 := by injection hc
      exact (h.mRefCount_eq_iff hA (n := 0) (by decide)).mp hzero

/-- **Every access keeps the invariant**, in any thread. -/
theorem inv_step (hA : Fintype.card A < 2 ^ 32) {act : Action A} (h : Inv s)
    (hs : step s act = some s') : Inv s' := by
  have hempty : ∀ c, s.ptr c = .empty → s.Unused c := fun c hc =>
    h.unused (by rw [hc]; nofun) (by rw [hc]; nofun)
  have hzero : ∀ c, s.ptr c = .empty → (s.ptr c).refs = 0 ∧ (s.ptr c).weaks = 0 ∧
      (s.ptr c).frees = 0 ∧ (s.ptr c).freesBlock = 0 := fun c hc => by
    rw [hc]
    exact ⟨rfl, rfl, rfl, rfl⟩
  cases act with
  | copy src dst =>
    simp only [step, Option.ite_none_right_eq_some, Option.some.injEq] at hs
    obtain ⟨⟨hsrc, hdst⟩, rfl⟩ := hs
    have hne : src ≠ dst := fun hc => by
      rw [hc, hdst] at hsrc
      cases hsrc
    refine h.addRef (hempty dst hdst) (fun c hc => ?_) ⟨rfl, rfl, rfl, rfl⟩ (hzero dst hdst)
      (refs_pos (a := src) (by rw [hsrc]; rfl)) (weaks_pos (a := src) (by rw [hsrc]; rfl))
    cases hc
    exact ⟨hne, hsrc⟩
  | copied dst =>
    simp only [step] at hs
    split at hs
    · rename_i src hdst
      cases hs
      exact h.addWeak (h.unused (by rw [hdst]; nofun) (by rw [hdst]; nofun)) rfl
        (by rw [hdst]; exact ⟨rfl, rfl, rfl, rfl⟩) (by rw [hdst]; exact ⟨rfl, rfl, rfl⟩)
        (weaks_pos (h.src_weaks (a := dst) (b := src) (by rw [hdst]; rfl)))
    · cases hs
  | copyWeak src dst =>
    simp only [step, Option.ite_none_right_eq_some, Option.some.injEq] at hs
    obtain ⟨⟨hsrc, hdst⟩, rfl⟩ := hs
    refine h.addWeak (hempty dst hdst) rfl (by rw [hdst]; exact ⟨rfl, rfl, rfl, rfl⟩)
      (hzero dst hdst).2 (weaks_pos (a := src) ?_)
    rcases hsrc with hsrc | hsrc <;> rw [hsrc] <;> rfl
  | load src dst =>
    simp only [step, Option.ite_none_right_eq_some, Option.some.injEq] at hs
    obtain ⟨⟨hsrc, hdst⟩, rfl⟩ := hs
    have hne : src ≠ dst := fun hc => by
      rw [hc, hdst] at hsrc
      cases hsrc
    rw [h.use_eq (weaks_pos (a := src) (by rw [hsrc]; rfl))]
    refine h.idle (hempty dst hdst) (fun c hc => ?_) (fun c hc => ?_) ⟨rfl, rfl, rfl, rfl⟩
      (hzero dst hdst)
    · cases hc
      exact ⟨hne, hsrc⟩
    · have hz : s.counts.mRefCount = 0 := by injection hc
      exact (h.mRefCount_eq_iff hA (n := 0) (by decide)).mp hz
  | exchange dst spurious =>
    simp only [step] at hs
    split at hs
    · rename_i src temp hdst
      cases hs
      exact h.exchange hA hdst spurious
    · cases hs
  | locked dst =>
    simp only [step] at hs
    split at hs
    · rename_i src hdst
      cases hs
      exact h.addWeak (h.unused (by rw [hdst]; nofun) (by rw [hdst]; nofun)) rfl
        (by rw [hdst]; exact ⟨rfl, rfl, rfl, rfl⟩) (by rw [hdst]; exact ⟨rfl, rfl, rfl⟩)
        (weaks_pos (h.src_weaks (a := dst) (b := src) (by rw [hdst]; rfl)))
    · cases hs
  | move src dst =>
    simp only [step, Option.ite_none_right_eq_some, Option.some.injEq] at hs
    obtain ⟨⟨hsrc, hun, hdst⟩, rfl⟩ := hs
    exact h.move hsrc hun hdst
  | release c =>
    simp only [step, Option.ite_none_right_eq_some, Option.some.injEq] at hs
    obtain ⟨⟨hc, hun⟩, rfl⟩ := hs
    exact h.release hA hc hun
  | freeValue c =>
    simp only [step, Option.ite_none_right_eq_some, Option.some.injEq] at hs
    obtain ⟨hc, rfl⟩ := hs
    exact h.freeValue hc (h.unused (by rw [hc]; nofun) (by rw [hc]; nofun))
  | weakRelease c =>
    simp only [step, Option.ite_none_right_eq_some, Option.some.injEq] at hs
    obtain ⟨hc, rfl⟩ := hs
    rcases hc with hc | ⟨hc, hun⟩
    · exact h.weakRelease hA (.inl hc) (h.unused (by rw [hc]; nofun) (by rw [hc]; nofun))
    · exact h.weakRelease hA (.inr hc) hun
  | freeBlock c =>
    simp only [step, Option.ite_none_right_eq_some, Option.some.injEq] at hs
    obtain ⟨hc, rfl⟩ := hs
    exact h.freeBlock hc (h.unused (by rw [hc]; nofun) (by rw [hc]; nofun))

theorem inv_init (h : (system A).init s) : Inv s := by
  obtain ⟨a, rfl⟩ := h
  have htally : ∀ w : Ptr A → ℕ, w .empty = 0 →
      tally w (Function.update (fun _ => Ptr.empty) a .strong) = w .strong := fun w hw => by
    have := tally_update (w := w) (f := fun _ : A => Ptr.empty) a .strong
    rwa [hw, tally_eq_zero fun _ => hw, Nat.zero_add] at this
  have hsrc : ∀ x y, (Function.update (fun _ => Ptr.empty) a .strong x : Ptr A).src ≠ some y :=
    fun x y => by
    by_cases hx : x = a
    · rw [hx, Function.update_self]
      nofun
    · rw [Function.update_of_ne hx]
      nofun
  have hrefs :
      State.refs ({ ptr := Function.update (fun _ => Ptr.empty) a .strong } : State A) = 1 :=
    htally Ptr.refs rfl
  have hweaks :
      State.weaks ({ ptr := Function.update (fun _ => Ptr.empty) a .strong } : State A) = 1 :=
    htally Ptr.weaks rfl
  refine ⟨?_, ?_, ?_, ?_, fun x y hxy => absurd hxy (hsrc x y), fun x y hxy => ?_, rfl⟩
  · rw [hrefs]
    rfl
  · rw [hweaks]
    rfl
  · rw [hrefs]
    exact (Nat.zero_add _).trans (htally Ptr.frees rfl)
  · rw [hweaks]
    exact (Nat.zero_add _).trans (htally Ptr.freesBlock rfl)
  · exact absurd (congrArg Ptr.src hxy) (hsrc x y)

end

/-! ## What follows -/

/-- What holds of an object and its counts. -/
structure Safe (s : State A) : Prop where
  alive : ∀ a, s.ptr a = .strong → s.counts.valueFreed = 0
  allocated : ∀ a, s.ptr a ≠ .empty → s.counts.blockFreed = 0
  value_once : s.counts.valueFreed ≤ 1
  block_once : s.counts.blockFreed ≤ s.counts.valueFreed
  freed : (∀ a, s.ptr a = .empty ∨ s.ptr a = .weak) → s.counts.valueFreed = 1
  freedBlock : (∀ a, s.ptr a = .empty) → s.counts.blockFreed = 1
  expired : ∀ a b, s.ptr a = .lock b 0 → ∀ c, s.ptr c ≠ .strong
  usedFreed : s.counts.usedFreed = false

/-- Where there is a strong reference there is one to the counts. -/
theorem Inv.weaks_pos_of_refs {s : State A} (h : Inv s) (hr : 0 < s.refs) : 0 < s.weaks := by
  obtain ⟨a, ha⟩ := exists_of_tally_pos hr
  cases hp : s.ptr a <;> rw [hp] at ha
  case strong => exact weaks_pos (a := a) (by rw [hp]; rfl)
  case addref b => exact weaks_pos (h.src_weaks (a := a) (b := b) (by rw [hp]; rfl))
  case locked b => exact weaks_pos (h.src_weaks (a := a) (b := b) (by rw [hp]; rfl))
  all_goals exact absurd ha (Nat.lt_irrefl 0)

theorem Inv.safe {s : State A} (h : Inv s) : Safe s := by
  have hvalue := h.value
  have hblock := h.block
  have hrw := h.weaks_pos_of_refs
  have hfw : tally Ptr.frees s.ptr ≤ s.weaks := tally_mono fun p => by
    cases p <;> simp [Ptr.frees, Ptr.weaks]
  have hpos : 0 < s.weaks → s.counts.blockFreed = 0 := fun hw => by
    rw [if_neg hw.ne'] at hblock
    omega
  refine ⟨fun a ha => ?_, fun a ha => ?_, ?_, ?_, fun hall => ?_, fun hall => ?_,
    fun a b ha c hc => ?_, h.usedFreed⟩
  · have hr : 0 < s.refs := refs_pos (a := a) (by rw [ha]; rfl)
    rw [if_neg hr.ne'] at hvalue
    omega
  · have hle : (s.ptr a).freesBlock ≤ tally Ptr.freesBlock s.ptr := le_tally a
    cases hp : s.ptr a
    case empty => exact absurd hp ha
    case freeingBlock =>
      rw [hp] at hle
      replace hle : 1 ≤ tally Ptr.freesBlock s.ptr := hle
      split_ifs at hblock <;> omega
    case addref b => exact hpos (weaks_pos (h.src_weaks (a := a) (b := b) (by rw [hp]; rfl)))
    case lock b temp => exact hpos (weaks_pos (h.src_weaks (a := a) (b := b) (by rw [hp]; rfl)))
    case locked b => exact hpos (weaks_pos (h.src_weaks (a := a) (b := b) (by rw [hp]; rfl)))
    all_goals exact hpos (weaks_pos (a := a) (by rw [hp]; rfl))
  · split_ifs at hvalue <;> omega
  · by_cases hw : s.weaks = 0
    · have hr : s.refs = 0 := by omega
      rw [if_pos hr] at hvalue
      rw [if_pos hw] at hblock
      omega
    · rw [hpos (Nat.pos_of_ne_zero hw)]
      exact Nat.zero_le _
  · have hr : s.refs = 0 := tally_eq_zero fun a => by rcases hall a with ha | ha <;> rw [ha] <;> rfl
    have hf : tally Ptr.frees s.ptr = 0 := tally_eq_zero fun a => by
      rcases hall a with ha | ha <;> rw [ha] <;> rfl
    rw [if_pos hr, hf] at hvalue
    exact hvalue
  · have hw : s.weaks = 0 := tally_eq_zero fun a => by rw [hall a]; rfl
    have hf : tally Ptr.freesBlock s.ptr = 0 := tally_eq_zero fun a => by rw [hall a]; rfl
    rw [if_pos hw, hf] at hblock
    exact hblock
  · have hr : 0 < s.refs := refs_pos (a := c) (by rw [hc]; rfl)
    exact absurd (h.failed a b ha) hr.ne'

/-- **An object lives exactly as long as it is owned**: in every reachable state it has not been
freed while a `shared_ptr` has it, nor have the counts while any pointer has them; both are freed
once, when the last pointer has gone, and not used afterwards; and `lock` fails only where no
`shared_ptr` is left. -/
theorem safe_of_reach [DecidableEq A] (hA : Fintype.card A < 2 ^ 32) {s : State A}
    (hr : (system A).Reach s) : Safe s := by
  have hI : (system A).Inductive Inv := ⟨fun _ h => inv_init h, fun _ _ _ h hs => inv_step hA h hs⟩
  exact (hI.reach hr).safe

/-- A pointer is copied, and both are destroyed. -/
theorem safe_copy : ∃ s : State (Fin 2), (system (Fin 2)).Reach s ∧ s.counts.valueFreed = 1 ∧
    s.counts.blockFreed = 1 ∧ Safe s := by
  have hrun : ∃ s : State (Fin 2), (system (Fin 2)).Reach s ∧ s.counts.valueFreed = 1 ∧
      s.counts.blockFreed = 1 :=
    ⟨_, ⟨_, [.copy 0 1, .copied 1, .release 0, .weakRelease 0, .release 1, .freeValue 1,
      .weakRelease 1, .freeBlock 1], ⟨0, rfl⟩, rfl⟩, rfl, rfl⟩
  obtain ⟨s, hr, hv, hb⟩ := hrun
  exact ⟨s, hr, hv, hb, safe_of_reach (by decide) hr⟩

end Dpp.SharedPtr
