import Dpp.String.Edit

/-!
# The life of a string

* `construct_rep`, `rangeInitialize_rep`, `sizeInitialize_rep`: what the constructors make;
  `constructMove_rep`: a string that takes the layout of another one.
* `Rep.contents`: the characters another object reads.
* `Rep.destruct`: **nothing is left of a string** when it is destroyed.
-/

namespace Dpp.BasicString

open Lib

variable {s s' t : BasicString} {b cap n : ℕ} {l cs : List UInt8} {src : Source}

theorem construct_rep : ∃ s, construct = some s ∧ Rep s 0 23 [] := by
  obtain ⟨s₁, hs₁, h⟩ := layout_rep
  obtain ⟨s, hs, hrep⟩ := resetToSSO_rep h.lay.object (fun c hc => h.only c hc hc) h.next
  refine ⟨s, ?_, hrep⟩
  rw [construct, hs₁]
  exact hs

/-- The layout for `n` characters, before there are any. -/
theorem allocateSelf_lay (h : Rep s 0 23 []) (hn : n < 2 ^ 63) :
    ∃ s' b, s.allocateSelf n = some s' ∧ Lay s' b (max 23 n) n ∧
      (∀ c, c ≠ 0 → c ≠ b → s'.size c = none) ∧ b < s'.next := by
  rw [allocateSelf]
  split_ifs with hbig
  · rw [ssoCapacity] at hbig
    have hmax : max 23 n = n := by omega
    have hobject : (s.doAllocate (n + 1)).1.size 0 = some 24 :=
      (Storage.alloc_size_of_ne h.next_ne.1.symm).trans h.lay.object
    obtain ⟨s', hs', hlay, hsize, hnx, -⟩ := setHeapLayout_eq (s := (s.doAllocate (n + 1)).1)
      hobject h.next_ne.1 Storage.alloc_size_self (by omega) hn le_rfl
    refine ⟨s', s.next, hs', by rwa [hmax], fun c hc hcb => ?_, ?_⟩
    · rw [hsize]
      exact (Storage.alloc_size_of_ne hcb).trans (h.only c hc hc)
    · rw [hnx]
      exact Nat.lt_succ_self _
  · rw [ssoCapacity] at hbig
    have hmax : max 23 n = 23 := by omega
    obtain ⟨s', hs', hlay, hsize, hnx, -⟩ := h.lay.setSize (m := n) (by omega)
    have hsso : s.setSize n = s.setSSOSize n := by
      rw [setSize, h.lay.isHeap]
      rfl
    refine ⟨s', 0, hsso.symm.trans hs', by rwa [hmax], fun c hc _ => ?_, ?_⟩
    · rw [hsize]
      exact h.only c hc hc
    · rw [hnx]
      exact h.next

/-- **The constructors from characters.** -/
theorem rangeInitialize_rep (cs : List UInt8) (hfit : cs.length < 2 ^ 63) :
    ∃ s b, rangeInitialize cs = some s ∧ Rep s b (max 23 cs.length) cs := by
  obtain ⟨s₀, hs₀, h₀⟩ := layout_rep
  obtain ⟨s₁, b, hs₁, hlay, honly, hnext⟩ := allocateSelf_lay h₀ hfit
  have hcopy := copyTo_eq (s := s₁) (Source.reads_chars cs) (hlay.liveRun (k := 0) (by omega))
  have hlay₂ := hlay.put_inside (k := 0) (cs.map .byte) (by
    rw [List.length_map]
    omega)
  obtain ⟨m, hm, hmn⟩ := hlay₂.put_nul (k := cs.length) (le_max_right ..)
  rw [hmn rfl] at hm
  refine ⟨_, b, ?_, hm, row_nul Storage.row_put, honly, hnext⟩
  rw [rangeInitialize, hs₀]
  simp only [Option.bind_eq_bind, Option.bind_some, hs₁, hlay.beginPtr]
  rw [show (⟨b, 0⟩ : Ptr) = ⟨b, (0 : ℕ)⟩ from rfl, hcopy, Option.bind_some, hlay₂.endPtr]
  exact hlay₂.writeChar (le_max_right ..) 0

theorem sizeInitialize_eq (n : ℕ) (c : UInt8) :
    sizeInitialize n c = rangeInitialize (List.replicate n c) := by
  rw [sizeInitialize, rangeInitialize, List.length_replicate]
  simp only [fillN_eq]

/-! ## Other objects -/

theorem mapM_charOf (l : List UInt8) : (l.map Cell.byte).mapM charOf = some l := by
  induction l with
  | nil => rfl
  | cons c l ih =>
    rw [List.map_cons, List.mapM_cons, ih]
    rfl

theorem readChars_of_reads {p : Ptr} (h : (Source.own p n).Reads s cs) :
    s.readChars p n = some cs := by
  obtain ⟨rfl, hl, hrow⟩ := h
  have hl' : s.LiveRun p (cs.map Cell.byte).length := by rwa [List.length_map]
  have hread := Storage.readRun_eq hl' hrow
  rw [List.length_map] at hread
  rw [readChars, hread, Option.bind_some, mapM_charOf]

theorem Rep.contents (h : Rep s b cap l) : s.contents = some l := by
  have hreads := (source_own_all b l).reads h.lay h.row.left h.lay.n_le
  rw [BasicString.contents, h.lay.beginPtr]
  simp only [Option.bind_eq_bind, Option.bind_some, h.lay.getSize]
  exact readChars_of_reads hreads

theorem constructMove_rep (s : BasicString) :
    ∃ t, s.constructMove = some (s, t) ∧ Rep t 0 23 [] := by
  obtain ⟨t₁, ht₁, h₁⟩ := layout_rep
  obtain ⟨t, ht, hrep⟩ := resetToSSO_rep h₁.lay.object (fun c hc => h₁.only c hc hc) h₁.next
  refine ⟨t, ?_, hrep⟩
  rw [constructMove, ht₁]
  simp only [Option.bind_eq_bind, Option.bind_some, ht, Option.pure_def]

/-- **Destroyed, a string leaves no storage behind.** -/
theorem Rep.destruct (h : Rep s b cap l) :
    ∃ s', s.destruct = some s' ∧ ∀ a, s'.size a = none := by
  have hobject : (freed s b).size 0 = some 24 := (freed_size (.inl rfl)).trans h.lay.object
  refine ⟨{ freed s b with size := Function.update (freed s b).size 0 none }, ?_, fun a => ?_⟩
  · rw [BasicString.destruct, deallocateSelf_eq h.lay]
    exact Storage.freeTrivial_eq hobject
  · show Function.update (freed s b).size 0 none a = none
    by_cases h0 : a = 0
    · rw [h0]
      exact Function.update_self ..
    rw [Function.update_of_ne h0]
    by_cases hb : a = b
    · exact freed_none h0 hb
    · exact (freed_size (.inr hb)).trans (h.only a h0 hb)

end Dpp.BasicString
