import Dpp.String.Model

/-!
# The two layouts of a string

* `Head`: the fields of either layout say where the characters lie, how many there is room for, and
  how many there are; `Lay`: and the storage for it is there.
* `Lay.isHeap`, `Lay.beginPtr`, `Lay.getSize`, `Lay.capacity`: what the object reads as.
* `Lay.put_inside`, `Lay.put_text`: characters and the terminating `0` leave the fields alone, also
  where the `0` lies in the last byte of the object.
* `Lay.setSize`, `setHeapLayout_eq`: the changes of the fields.
* `Rep`: **a string represents a list** of characters; `Source.Reads`: what a range of characters
  reads as; `copyTo_eq`.
-/

namespace Dpp.BasicString

open Lib

/-- The fields of a layout: the characters lie in allocation `b`, which is the object itself for
`0`, with room for `cap` characters, and are `n`. -/
inductive Head (s : BasicString) : ℕ → ℕ → ℕ → Prop
  | sso {n : ℕ} (hn : n ≤ 23) (hr : s.obj ⟨0, 23⟩ = some (.byte (UInt8.ofNat (23 - n)))) :
    Head s 0 23 n
  | heap {b cap n : ℕ} (hb : b ≠ 0) (hc : 1 < cap) (hcap : cap < 2 ^ 63) (hn : n ≤ cap)
    (hp : s.Row ⟨0, 0⟩ (Cell.ofAddr b)) (hs : s.Row ⟨0, 8⟩ (Cell.ofNat 8 n))
    (hw : s.Row ⟨0, 16⟩ (Cell.ofNat 8 (cap ||| heapMask))) : Head s b cap n

/-- A layout with its storage. -/
structure Lay (s : BasicString) (b cap n : ℕ) : Prop where
  head : Head s b cap n
  object : s.size 0 = some 24
  block : s.size b = some (cap + 1)

variable {s s' : BasicString} {b cap n m k : ℕ} {xs ys : List Cell} {l : List UInt8}

/-! ## Numbers -/

theorem cap_or (h : cap < 2 ^ 63) : cap ||| heapMask = heapMask + cap := by
  have := Nat.two_pow_add_eq_or_of_lt h 1
  rw [Nat.or_comm, heapMask]
  rw [Nat.mul_one] at this
  exact this.symm

theorem cap_or_mod (h : cap < 2 ^ 63) : (cap ||| heapMask) % heapMask = cap := by
  rw [cap_or h, Nat.add_mod_left, Nat.mod_eq_of_lt (by rw [heapMask]; omega)]

theorem cap_or_lt (h : cap < 2 ^ 63) : cap ||| heapMask < 256 ^ 8 := by
  rw [cap_or h, heapMask]
  omega

/-- The last byte of the capacity has the highest bit. -/
theorem cap_or_top (h : cap < 2 ^ 63) :
    128 ≤ (UInt8.ofNat ((cap ||| heapMask) / 256 ^ 7)).toNat := by
  rw [UInt8.toNat_ofNat', cap_or h, heapMask]
  omega

theorem remaining_eq (h : n ≤ 23) :
    UInt8.ofNat ssoCapacity - UInt8.ofNat n = UInt8.ofNat (23 - n) := by
  have : ∀ n < 24, UInt8.ofNat ssoCapacity - UInt8.ofNat n = UInt8.ofNat (23 - n) := by decide
  exact this n (by omega)

/-! ## Reading the fields -/

theorem live_object (h : s.size 0 = some 24) {i : ℤ} (h0 : 0 ≤ i) (hi : i < 24) :
    s.Live ⟨0, i⟩ := Storage.live_of_size h h0 hi

theorem readChar_eq {p : Ptr} {v : UInt8} (hl : s.Live p) (h : s.obj p = some (.byte v)) :
    s.readChar p = some v := by
  rw [readChar, Storage.read_eq hl h]

theorem readSize_eq {off : ℕ} {v : ℕ} (h0 : s.size 0 = some 24) (ho : off + 8 ≤ 24)
    (h : s.Row ⟨0, off⟩ (Cell.ofNat 8 v)) (hv : v < 256 ^ 8) : s.readSize off = some v := by
  have hrun : s.LiveRun ⟨0, (off : ℕ)⟩ (Cell.ofNat 8 v).length := by
    rw [Cell.length_ofNat]
    exact Storage.liveRun_of_size h0 ho
  have hread := Storage.readRun_eq hrun h
  rw [Cell.length_ofNat] at hread
  rw [readSize, hread, Option.bind_some, Cell.toNat_ofNat, Nat.mod_eq_of_lt hv]

theorem Lay.n_le (h : Lay s b cap n) : n ≤ cap := by
  cases h.head with
  | sso hn => exact hn
  | heap _ _ _ hn => exact hn

theorem Lay.one_lt_cap (h : Lay s b cap n) : 1 < cap := by
  cases h.head with
  | sso => decide
  | heap _ hc => exact hc

theorem Lay.cap_sso (h : Lay s 0 cap n) : cap = 23 := by
  cases h.head with
  | sso => rfl
  | heap hb => exact absurd rfl hb

theorem Lay.cap_lt (h : Lay s b cap n) : cap < 2 ^ 63 := by
  cases h.head with
  | sso => decide
  | heap _ _ hcap => exact hcap

theorem Lay.isHeap (h : Lay s b cap n) : s.isHeap = some (decide (b ≠ 0)) := by
  cases h.head with
  | sso hn hr =>
    rw [BasicString.isHeap, readChar_eq (live_object h.object (by omega) (by omega)) hr]
    have : ∀ n < 24, ¬ 128 ≤ (UInt8.ofNat n).toNat := by decide
    simpa using this (23 - n) (by omega)
  | heap hb hc hcap hn hp hs hw =>
    have htop : s.obj ⟨0, 23⟩ = some (.byte (UInt8.ofNat ((cap ||| heapMask) / 256 ^ 7))) := by
      have := hw 7 (by rw [Cell.length_ofNat]; omega)
      rw [Cell.getElem?_ofNat (by omega)] at this
      exact this
    rw [BasicString.isHeap, readChar_eq (live_object h.object (by omega) (by omega)) htop]
    simpa [hb] using cap_or_top hcap

theorem Lay.beginPtr (h : Lay s b cap n) : s.beginPtr = some ⟨b, 0⟩ := by
  rw [BasicString.beginPtr, h.isHeap]
  cases h.head with
  | sso => rfl
  | heap hb hc hcap hn hp hs hw =>
    have hrun : s.LiveRun ⟨0, (0 : ℕ)⟩ (Cell.ofAddr b).length := by
      refine Storage.liveRun_of_size h.object ?_
      rw [Cell.length_ofAddr]
      omega
    have hread : s.readRun ⟨0, 0⟩ 8 = some (Cell.ofAddr b) := Storage.readRun_eq hrun hp
    simp [hb, heapBeginPtr, hread, Cell.toAddr_ofAddr]

theorem Lay.getSize (h : Lay s b cap n) : s.getSize = some n := by
  rw [BasicString.getSize, h.isHeap]
  cases h.head with
  | sso hn hr =>
    have hread := readChar_eq (live_object h.object (by omega) (by omega)) hr
    have : ∀ n < 24, 23 - (UInt8.ofNat (23 - n)).toNat = n := by decide
    simpa [getSSOSize, hread, ssoCapacity] using this n (by omega)
  | heap hb hc hcap hn hp hs hw =>
    have := readSize_eq h.object (by decide) hs (by omega)
    simpa [hb, getHeapSize] using this

theorem Lay.endPtr (h : Lay s b cap n) : s.endPtr = some ⟨b, n⟩ := by
  rw [BasicString.endPtr, h.beginPtr, h.getSize]
  simp [Ptr.plus]

theorem Lay.capacity (h : Lay s b cap n) : s.capacity = some cap := by
  rw [BasicString.capacity, h.isHeap]
  cases h.head with
  | sso => rfl
  | heap hb hc hcap hn hp hs hw =>
    have := readSize_eq h.object (by decide) hw (cap_or_lt hcap)
    have hsize : s.readSize 16 = some (cap ||| heapMask) := this
    simp [hb, getHeapCapacity, hsize, cap_or_mod hcap]

/-! ## Writing characters -/

theorem Lay.liveRun (h : Lay s b cap n) (hk : k + m ≤ cap + 1) : s.LiveRun ⟨b, k⟩ m :=
  Storage.liveRun_of_size h.block hk

theorem Head.put_other (h : Head s b cap n) {p : Ptr} (hp : p.base ≠ 0) :
    Head (s.put p xs) b cap n := by
  cases h with
  | sso hn hr => exact .sso hn ((Storage.put_obj_of_ne_base hp.symm).trans hr)
  | heap hb hc hcap hn hr hs hw =>
    exact .heap hb hc hcap hn (hr.put_base hp.symm) (hs.put_base hp.symm) (hw.put_base hp.symm)

theorem Lay.put_other (h : Lay s b cap n) {p : Ptr} (hp : p.base ≠ 0) :
    Lay (s.put p xs) b cap n := ⟨h.head.put_other hp, h.object, h.block⟩

/-- Characters before the last place leave the fields alone. -/
theorem Lay.put_inside (h : Lay s b cap n) (xs : List Cell) (hk : k + xs.length ≤ cap) :
    Lay (s.put ⟨b, k⟩ xs) b cap n := by
  refine ⟨?_, h.object, h.block⟩
  cases h.head with
  | sso hn hr =>
    refine .sso hn ((Storage.put_obj_of_ge ?_).trans hr)
    show ((k : ℕ) : ℤ) + xs.length ≤ 23
    omega
  | heap hb hc hcap hn hr hs hw =>
    exact (Head.heap hb hc hcap hn hr hs hw).put_other hb

/-- Characters with a terminating `0` leave the layout alone; a `0` in the last byte of the object
means that the object is full. -/
theorem Lay.put_text (h : Lay s b cap n) (xs : List Cell) (hk : k + xs.length ≤ cap) :
    ∃ m, Lay (s.put ⟨b, k⟩ (xs ++ [.byte 0])) b cap m ∧ (k + xs.length = n → m = n) := by
  by_cases hlt : k + xs.length < cap
  · refine ⟨n, h.put_inside _ ?_, fun _ => rfl⟩
    rw [List.length_append, List.length_singleton]
    omega
  · have hcap : k + xs.length = cap := by omega
    cases h.head with
    | sso hn hr =>
      have hrow : (s.put ⟨0, k⟩ (xs ++ [.byte 0])).Row ⟨0, k⟩ (xs ++ [.byte 0]) := Storage.row_put
      have hlast : (⟨0, k⟩ : Ptr).plus xs.length = ⟨0, 23⟩ := by
        show (⟨0, (k : ℤ) + xs.length⟩ : Ptr) = ⟨0, 23⟩
        rw [← Nat.cast_add, hcap]
        rfl
      rw [Storage.row_append, hlast, Storage.row_singleton] at hrow
      exact ⟨23, ⟨.sso le_rfl hrow.2, h.object, h.block⟩, fun hn => hcap.symm.trans hn⟩
    | heap hb hc hcap' hn hp hs hw =>
      exact ⟨n, ⟨(Head.heap hb hc hcap' hn hp hs hw).put_other hb, h.object, h.block⟩,
        fun _ => rfl⟩

theorem Lay.put_nul (h : Lay s b cap n) (hk : k ≤ cap) :
    ∃ m, Lay (s.put ⟨b, k⟩ [.byte 0]) b cap m ∧ (k = n → m = n) :=
  h.put_text [] hk

theorem Lay.writeChar (h : Lay s b cap n) (hk : k ≤ cap) (c : UInt8) :
    s.writeChar ⟨b, k⟩ c = some (s.put ⟨b, k⟩ [.byte c]) :=
  Storage.write_eq (h.liveRun (by rw [List.length_singleton]; omega))

theorem writeChar_object (h0 : s.size 0 = some 24) {i : ℕ} (hi : i < 24) (c : UInt8) :
    s.writeChar ⟨0, i⟩ c = some (s.put ⟨0, i⟩ [.byte c]) := by
  refine Storage.write_eq (Storage.liveRun_of_size h0 ?_)
  rw [List.length_singleton]
  omega

/-! ## Changing the fields -/

/-- The size of a layout becomes `m`; the characters, and a `0` behind `m` of them, stay. -/
theorem Lay.setSize (h : Lay s b cap n) (hm : m ≤ cap) :
    ∃ s', s.setSize m = some s' ∧ Lay s' b cap m ∧ s'.size = s.size ∧ s'.next = s.next ∧
      (∀ xs, xs.length ≤ cap → s.Row ⟨b, 0⟩ xs → s'.Row ⟨b, 0⟩ xs) ∧
      ∀ xs, xs.length = m → s.Row ⟨b, 0⟩ (xs ++ [.byte 0]) → s'.Row ⟨b, 0⟩ (xs ++ [.byte 0]) := by
  rw [BasicString.setSize, h.isHeap]
  cases h.head with
  | sso hn hr =>
    have hw : s.setSSOSize m = some (s.put ⟨0, 23⟩ [.byte (UInt8.ofNat (23 - m))]) := by
      rw [setSSOSize, remaining_eq hm]
      exact Lay.writeChar (k := 23) h le_rfl _
    have hin : ∀ xs : List Cell, xs.length ≤ 23 → s.Row ⟨0, 0⟩ xs →
        (s.put ⟨0, 23⟩ [.byte (UInt8.ofNat (23 - m))]).Row ⟨0, 0⟩ xs := fun xs hx hrow =>
      hrow.put_before (by show (0 : ℤ) + xs.length ≤ 23; omega)
    refine ⟨_, hw, ⟨.sso hm (Storage.row_singleton.mp Storage.row_put), h.object, h.block⟩, rfl,
      rfl, hin, fun xs hx hrow => ?_⟩
    rw [Storage.row_append] at hrow ⊢
    refine ⟨hin xs (hx.trans_le hm) hrow.1, ?_⟩
    by_cases h23 : m = 23
    · -- the last byte is the terminating `0` and says that nothing remains
      subst h23
      rw [hx]
      exact Storage.row_put
    · refine hrow.2.put_before ?_
      show (0 : ℤ) + xs.length + 1 ≤ 23
      omega
  | heap hb hc hcap hn hp hs hw =>
    have hwr : s.setHeapSize m = some (s.put ⟨0, 8⟩ (Cell.ofNat 8 m)) := by
      refine Storage.write_eq (Storage.liveRun_of_size h.object (i := 8) ?_)
      rw [Cell.length_ofNat]
      omega
    have hb' : (⟨b, 0⟩ : Ptr).base ≠ (⟨0, 8⟩ : Ptr).base := hb
    refine ⟨_, ?_, ⟨.heap hb hc hcap hm (hp.put_before ?_) Storage.row_put (hw.put_behind ?_),
      h.object, h.block⟩, rfl, rfl, fun xs _ hrow => hrow.put_base hb',
      fun xs _ hrow => hrow.put_base hb'⟩
    · simpa [hb] using hwr
    · rw [Cell.length_ofAddr]
      decide
    · rw [Cell.length_ofNat]
      decide

/-- The fields of a heap layout are set, whatever the object held before. -/
theorem setHeapLayout_eq (h0 : s.size 0 = some 24) (hb : b ≠ 0) (hsize : s.size b = some (cap + 1))
    (hc : 1 < cap) (hcap : cap < 2 ^ 63) (hn : n ≤ cap) :
    ∃ s', s.setHeapLayout b cap n = some s' ∧ Lay s' b cap n ∧ s'.size = s.size ∧
      s'.next = s.next ∧ ∀ xs, s.Row ⟨b, 0⟩ xs → s'.Row ⟨b, 0⟩ xs := by
  have hrun : ∀ (t : BasicString) (i : ℕ) (xs : List Cell), t.size = s.size → xs.length = 8 →
      i + 8 ≤ 24 → t.write ⟨0, i⟩ xs = some (t.put ⟨0, i⟩ xs) := by
    intro t i xs ht hx hi
    refine Storage.write_eq (Storage.liveRun_of_size ((congrFun ht 0).trans h0) ?_)
    omega
  have hb' : ∀ i : ℤ, (⟨b, 0⟩ : Ptr).base ≠ (⟨0, i⟩ : Ptr).base := fun _ => hb
  let s₁ := s.put ⟨0, 0⟩ (Cell.ofAddr b)
  let s₂ := s₁.put ⟨0, 16⟩ (Cell.ofNat 8 (cap ||| heapMask))
  refine ⟨s₂.put ⟨0, 8⟩ (Cell.ofNat 8 n), ?_,
    ⟨.heap hb hc hcap hn ?_ Storage.row_put ?_, h0, hsize⟩, rfl, rfl,
    fun xs hrow => ((hrow.put_base (hb' 0)).put_base (hb' 16)).put_base (hb' 8)⟩
  · have h1 : s.setHeapBeginPtr b = some s₁ := hrun s 0 _ rfl rfl (by omega)
    have h2 : setHeapCapacity s₁ cap = some s₂ :=
      hrun s₁ 16 _ rfl (Cell.length_ofNat 8 _) (by omega)
    have h3 : setHeapSize s₂ n = some (s₂.put ⟨0, 8⟩ (Cell.ofNat 8 n)) :=
      hrun s₂ 8 _ rfl (Cell.length_ofNat 8 _) (by omega)
    rw [setHeapLayout, h1]
    show ((setHeapCapacity s₁ cap).bind fun s => s.setHeapSize n) = _
    rw [h2]
    exact h3
  · refine ((Storage.row_put (s := s)).put_before ?_).put_before ?_
    · rw [Cell.length_ofAddr]
      decide
    · rw [Cell.length_ofAddr]
      decide
  · refine (Storage.row_put (s := s₁)).put_behind ?_
    rw [Cell.length_ofNat]
    decide

/-! ## What a string represents -/

/-- **The string represents `l`**: its layout says so, the characters and a `0` are there, and it
has no other block. -/
structure Rep (s : BasicString) (b cap : ℕ) (l : List UInt8) : Prop where
  lay : Lay s b cap l.length
  row : s.Row ⟨b, 0⟩ (l.map .byte ++ [.byte 0])
  only : ∀ c, c ≠ 0 → c ≠ b → s.size c = none
  next : b < s.next

/-- A range of characters reads `cs`. -/
def Source.Reads (s : BasicString) (cs : List UInt8) : Source → Prop
  | .chars ds => ds = cs
  | .own p n => n = cs.length ∧ s.LiveRun p n ∧ s.Row p (cs.map .byte)

variable {src : Source} {cs : List UInt8} {p dst : Ptr}

theorem Source.reads_chars (cs : List UInt8) : (Source.chars cs).Reads s cs := rfl

theorem Source.Reads.length (h : src.Reads s cs) : src.length = cs.length := by
  cases src with
  | chars ds => exact congrArg List.length h
  | own p n => exact h.1

theorem copyTo_eq (h : src.Reads s cs) (hd : s.LiveRun dst cs.length) :
    s.copyTo src dst = some (s.put dst (cs.map .byte)) := by
  have hd' : s.LiveRun dst (cs.map Cell.byte).length := by rwa [List.length_map]
  cases src with
  | chars ds =>
    obtain rfl : ds = cs := h
    exact Storage.write_eq hd'
  | own p n =>
    obtain ⟨rfl, hl, hrow⟩ := h
    have hl' : s.LiveRun p (cs.map Cell.byte).length := by rwa [List.length_map]
    have hread := Storage.readRun_eq hl' hrow
    rw [List.length_map] at hread
    rw [copyTo, hread]
    exact Storage.write_eq hd'

/-- The range is `cs`: characters from elsewhere, or a part of the characters `l` of the string
itself. -/
inductive Source.Is (b : ℕ) (l : List UInt8) : Source → List UInt8 → Prop
  | chars (cs : List UInt8) : Is b l (.chars cs) cs
  | own (i n : ℕ) (h : i + n ≤ l.length) : Is b l (.own ⟨b, i⟩ n) ((l.drop i).take n)

/-- As long as the characters of the string are there, a part of them reads as it was. -/
theorem Source.Is.reads (h : src.Is b l cs) (hlay : Lay s b cap n)
    (hrow : s.Row ⟨b, 0⟩ (l.map .byte)) (hl : l.length ≤ cap) : src.Reads s cs := by
  cases h with
  | chars cs => exact rfl
  | own i n h =>
    have hlen : ((l.drop i).take n).length = n := by
      rw [List.length_take, List.length_drop]
      omega
    have hrow' := (hrow.drop (n := i) (by rw [List.length_map]; omega)).take n
    have hp : (⟨b, 0⟩ : Ptr).plus i = ⟨b, i⟩ := by simp [Ptr.plus]
    refine ⟨hlen.symm, hlay.liveRun (by omega), ?_⟩
    rwa [List.map_take, List.map_drop, ← hp]

theorem source_own_all (b : ℕ) (l : List UInt8) : (Source.own ⟨b, 0⟩ l.length).Is b l l := by
  have := Source.Is.own (b := b) (l := l) 0 l.length (by omega)
  simpa using this

end Dpp.BasicString
