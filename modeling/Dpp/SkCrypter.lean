import Mathlib.Data.BitVec
import Mathlib.Data.Fin.Basic
import Mathlib.Data.List.FinRange
import Mathlib.Tactic.SplitIfs

/-!
# Strings that are stored encrypted

`skCrypter` keeps a string in an array that it encrypts and decrypts in place, and tells the two
states apart by the last character: of a string that is not encrypted it is `0`.

* `CharType`, `keyAt`, `cryptChar`: the character a round of the loop of `crypt` computes.
* `crypt`, `construct`, `Op`, `step`: the class, and a program that uses one object of it.
* `Text`, `Text.step`: a text that is hidden or shown, which is what the object stands for.
* **`results_iff`**: the object gives the results of the text in every program exactly if the key
  of the last character is not `0`.
* **`results_skCrypt`**: so it is for the keys that `skCrypt` takes from the clock.
-/

namespace Dpp.Skc

/-- The type `T` of a character, `char` or `wchar_t`; it is no wider than `int`. -/
structure CharType where
  bits : ℕ
  signed : Bool
  bits_le : bits ≤ 32

def CharType.char : CharType := ⟨8, true, by decide⟩

def CharType.wchar : CharType := ⟨16, false, by decide⟩

variable {T : CharType} {n : ℕ}

/-- A character as an `int`. -/
def CharType.promote (T : CharType) (c : BitVec T.bits) : BitVec 32 :=
  if T.signed then c.signExtend 32 else c.setWidth 32

/-- The array `_storage`, with `_size` = `n + 1` characters. -/
abbrev Chars (T : CharType) (n : ℕ) := Fin (n + 1) → BitVec T.bits

/-- `_key1 + i % (1 + _key2)`, an `int`; with `-1` for `_key2` the constructor is no constant
expression. -/
def keyAt (key1 key2 : BitVec 8) (i : ℕ) : BitVec 32 :=
  key1.signExtend 32 + (BitVec.ofNat 32 i).srem (1 + key2.signExtend 32)

/-- `c ^ (_key1 + i % (1 + _key2))`, stored as a character. -/
def cryptChar (key1 key2 : BitVec 8) (i : ℕ) (c : BitVec T.bits) : BitVec T.bits :=
  (T.promote c ^^^ keyAt key1 key2 i).setWidth T.bits

/-- The loop of `crypt`, where the pointer `data` shows `data storage`: the array itself, or
another one. -/
def crypt (key1 key2 : BitVec 8) (data : Chars T n → Chars T n) (storage : Chars T n) :
    Chars T n :=
  (List.finRange (n + 1)).foldl
    (fun storage i => Function.update storage i (cryptChar key1 key2 i (data storage i))) storage

/-- The constructor; `_storage` starts as zeros. -/
def construct (key1 key2 : BitVec 8) (data : Chars T n) : Chars T n :=
  crypt key1 key2 (fun _ => data) fun _ => 0

/-- `_storage[_size - 1] != 0`. -/
def isEncrypted (storage : Chars T n) : Bool := storage (Fin.last n) != 0

def encrypt (key1 key2 : BitVec 8) (storage : Chars T n) : Chars T n :=
  if isEncrypted storage then storage else crypt key1 key2 id storage

def decrypt (key1 key2 : BitVec 8) (storage : Chars T n) : Chars T n :=
  if isEncrypted storage then crypt key1 key2 id storage else storage

def clear (storage : Chars T n) : Chars T n :=
  (List.finRange (n + 1)).foldl (fun storage i => Function.update storage i 0) storage

/-! ## Programs -/

/-- What a program does with an object: the calls, of which `toPointer` is `operator T*`, and a
store through a pointer to the array that leaves the last character alone. -/
inductive Op (T : CharType) (n : ℕ)
  | get
  | encrypt
  | decrypt
  | isEncrypted
  | clear
  | toPointer
  | store (i : Fin n) (c : BitVec T.bits)

/-- What a call returns; of a pointer, the characters it points to. -/
inductive Result (T : CharType) (n : ℕ)
  | chars (cs : Chars T n)
  | bool (b : Bool)
  | void

/-- The array after an operation, and its result. -/
def step (key1 key2 : BitVec 8) (storage : Chars T n) : Op T n → Chars T n × Result T n
  | .get => (storage, .chars storage)
  | .encrypt => (encrypt key1 key2 storage, .chars (encrypt key1 key2 storage))
  | .decrypt | .toPointer => (decrypt key1 key2 storage, .chars (decrypt key1 key2 storage))
  | .isEncrypted => (storage, .bool (isEncrypted storage))
  | .clear => (clear storage, .void)
  | .store i c => (Function.update storage i.castSucc c, .void)

/-- The results of a program. -/
def results {σ : Type} (step : σ → Op T n → σ × Result T n) : σ → List (Op T n) → List (Result T n)
  | _, [] => []
  | s, op :: ops => (step s op).2 :: results step (step s op).1 ops

/-! ## What an object stands for -/

/-- The characters of a text, which are shown or hidden. -/
structure Text (T : CharType) (n : ℕ) where
  chars : Chars T n
  hidden : Bool

/-- The characters of a text with the key of each. -/
def masked (key1 key2 : BitVec 8) (chars : Chars T n) : Chars T n :=
  fun i => chars i ^^^ (keyAt key1 key2 i).setWidth T.bits

/-- What is seen of a text. -/
def Text.seen (key1 key2 : BitVec 8) (t : Text T n) : Chars T n :=
  if t.hidden then masked key1 key2 t.chars else t.chars

/-- The operations on a text. What is stored into a hidden text is seen there. -/
def Text.step (key1 key2 : BitVec 8) (t : Text T n) : Op T n → Text T n × Result T n
  | .get => (t, .chars (t.seen key1 key2))
  | .encrypt => (⟨t.chars, true⟩, .chars (masked key1 key2 t.chars))
  | .decrypt | .toPointer => (⟨t.chars, false⟩, .chars t.chars)
  | .isEncrypted => (t, .bool t.hidden)
  | .clear => (⟨fun _ => 0, false⟩, .void)
  | .store i c =>
    let c' := if t.hidden then c ^^^ (keyAt key1 key2 i).setWidth T.bits else c
    (⟨Function.update t.chars i.castSucc c', t.hidden⟩, .void)

variable {key1 key2 : BitVec 8} {s : Chars T n} {t : Text T n} {i : ℕ}

/-! ## The loops -/

/-- A loop over an array whose rounds each compute one character from that character. -/
theorem foldl_update {f : Chars T n → Fin (n + 1) → BitVec T.bits}
    (hf : ∀ s s' i, s i = s' i → f s i = f s' i) (s : Chars T n) :
    (List.finRange (n + 1)).foldl (fun s i => Function.update s i (f s i)) s = fun i => f s i := by
  have h : ∀ (is : List (Fin (n + 1))) (s : Chars T n), is.Nodup →
      is.foldl (fun s i => Function.update s i (f s i)) s =
        fun i => if i ∈ is then f s i else s i := by
    intro is
    induction is with
    | nil => intro s _; rfl
    | cons j is ih =>
      intro s hnd
      rw [List.nodup_cons] at hnd
      rw [List.foldl_cons, ih _ hnd.2]
      funext i
      by_cases hij : i = j
      · subst hij
        rw [if_neg hnd.1, if_pos List.mem_cons_self, Function.update_self]
      · have hu : Function.update s j (f s j) i = s i := Function.update_of_ne hij _ _
        simp only [List.mem_cons, hij, false_or, hu, hf _ _ _ hu]
  rw [h _ s (List.nodup_finRange _)]
  funext i
  rw [if_pos (List.mem_finRange i)]

theorem setWidth_promote (c : BitVec T.bits) : (T.promote c).setWidth T.bits = c := by
  have hle := T.bits_le
  rw [CharType.promote]
  split_ifs
  · apply BitVec.eq_of_getLsbD_eq
    intro j hj
    rw [BitVec.getLsbD_setWidth, BitVec.getLsbD_signExtend]
    simp [hj, show j < 32 by omega]
  · rw [BitVec.setWidth_setWidth_of_le _ hle, BitVec.setWidth_eq]

/-- The width of `int` leaves no trace in the character. -/
theorem cryptChar_eq (c : BitVec T.bits) :
    cryptChar key1 key2 i c = c ^^^ (keyAt key1 key2 i).setWidth T.bits := by
  rw [cryptChar, BitVec.setWidth_xor, setWidth_promote]

theorem crypt_id (s : Chars T n) : crypt key1 key2 id s = masked key1 key2 s := by
  rw [crypt, foldl_update fun s s' i h => by rw [id, id, h]]
  funext i
  exact cryptChar_eq _

theorem construct_eq (data : Chars T n) : construct key1 key2 data = masked key1 key2 data := by
  rw [construct, crypt, foldl_update fun _ _ _ _ => rfl]
  funext i
  exact cryptChar_eq _

theorem clear_eq (s : Chars T n) : clear s = fun _ => 0 := by
  rw [clear, foldl_update fun _ _ _ _ => rfl]

theorem masked_masked (cs : Chars T n) :
    masked key1 key2 (masked key1 key2 cs) = cs := by
  funext i
  rw [masked, masked, BitVec.xor_assoc, BitVec.xor_self, BitVec.xor_zero]

/-! ## The object and its text -/

/-- The array shows the text, whose last character is `0`. -/
structure Shows (key1 key2 : BitVec 8) (s : Chars T n) (t : Text T n) : Prop where
  seen : s = t.seen key1 key2
  last : t.chars (Fin.last n) = 0

theorem shows_construct {data : Chars T n} (h : data (Fin.last n) = 0) :
    Shows key1 key2 (construct key1 key2 data) ⟨data, true⟩ := ⟨construct_eq data, h⟩

namespace Shows

variable (hk : (keyAt key1 key2 n).setWidth T.bits ≠ 0)

include hk in
/-- The last character tells whether the text is hidden. -/
theorem isEncrypted (h : Shows key1 key2 s t) : isEncrypted s = t.hidden := by
  rw [Skc.isEncrypted, h.seen, Text.seen]
  cases t.hidden with
  | false => simp [h.last]
  | true => simpa [masked, h.last] using hk

include hk in
theorem encrypt (h : Shows key1 key2 s t) :
    encrypt key1 key2 s = masked key1 key2 t.chars := by
  rw [Skc.encrypt, h.isEncrypted hk, crypt_id, h.seen, Text.seen]
  cases t.hidden <;> rfl

include hk in
theorem decrypt (h : Shows key1 key2 s t) : decrypt key1 key2 s = t.chars := by
  rw [Skc.decrypt, h.isEncrypted hk, crypt_id, h.seen, Text.seen]
  cases t.hidden with
  | false => rfl
  | true => exact masked_masked t.chars

/-- A store through the pointer changes one character of the text. -/
theorem store (h : Shows key1 key2 s t) (i : Fin n) (c : BitVec T.bits) :
    Shows key1 key2 (step key1 key2 s (.store i c)).1 (t.step key1 key2 (.store i c)).1 := by
  refine ⟨?_, ?_⟩
  · change Function.update s i.castSucc c = _
    rw [h.seen]
    funext j
    by_cases hj : j = i.castSucc
    · subst hj
      rw [Function.update_self]
      cases hh : t.hidden with
      | false => simp [Text.step, Text.seen, hh]
      | true =>
        simp only [Text.step, Text.seen, masked, hh, if_true, Function.update_self,
          Fin.val_castSucc, BitVec.xor_assoc, BitVec.xor_self, BitVec.xor_zero]
    · rw [Function.update_of_ne hj]
      cases hh : t.hidden <;> simp [Text.step, Text.seen, masked, hh, hj]
  · change Function.update t.chars i.castSucc _ (Fin.last n) = 0
    rw [Function.update_of_ne (Fin.castSucc_lt_last i).ne', h.last]

include hk in
/-- An operation on the object is the operation on its text. -/
theorem step (h : Shows key1 key2 s t) (op : Op T n) :
    Shows key1 key2 (step key1 key2 s op).1 (t.step key1 key2 op).1 ∧
      (Skc.step key1 key2 s op).2 = (t.step key1 key2 op).2 := by
  cases op with
  | get => exact ⟨h, congrArg _ h.seen⟩
  | encrypt =>
    have hs := h.encrypt hk
    exact ⟨⟨hs, h.last⟩, congrArg _ hs⟩
  | decrypt =>
    have hs := h.decrypt hk
    exact ⟨⟨hs, h.last⟩, congrArg _ hs⟩
  | toPointer =>
    have hs := h.decrypt hk
    exact ⟨⟨hs, h.last⟩, congrArg _ hs⟩
  | isEncrypted => exact ⟨h, congrArg _ (h.isEncrypted hk)⟩
  | clear => exact ⟨⟨clear_eq s, rfl⟩, rfl⟩
  | store i c => exact ⟨h.store i c, rfl⟩

include hk in
theorem results (h : Shows key1 key2 s t) (ops : List (Op T n)) :
    results (Skc.step key1 key2) s ops = results (Text.step key1 key2) t ops := by
  induction ops generalizing s t with
  | nil => rfl
  | cons op ops ih =>
    obtain ⟨hs, hr⟩ := h.step hk op
    exact congrArg₂ List.cons hr (ih hs)

end Shows

/-- The digit `d` of `__TIME__`. -/
def digit (d : Fin 10) : BitVec 8 := BitVec.ofNat 8 (48 + d)

/-- The key of a character, for keys that are digits. -/
theorem keyAt_digit (a b : Fin 10) (hi : i < 2 ^ 31) :
    (keyAt (digit a) (digit b) i).toNat = 48 + a + i % (49 + b) := by
  have ha : (digit a).signExtend 32 = BitVec.ofNat 32 (48 + a) := by decide +revert
  have hb : 1 + (digit b).signExtend 32 = BitVec.ofNat 32 (49 + b) := by decide +revert
  have hmod : i % (49 + b) < 49 + b := Nat.mod_lt _ (by omega)
  have hn : ∀ {m : ℕ}, m < 2 ^ 31 → (BitVec.ofNat 32 m).toNat = m := fun h => by
    rw [BitVec.toNat_ofNat, Nat.mod_eq_of_lt (by omega)]
  have hm : ∀ {m : ℕ}, m < 2 ^ 31 → (BitVec.ofNat 32 m).msb = false := fun h => by
    rw [BitVec.msb_eq_false_iff_two_mul_lt, hn h]
    omega
  rw [keyAt, ha, hb, BitVec.srem_eq, hm hi, hm (by omega)]
  simp only [BitVec.toNat_add, BitVec.toNat_umod, hn hi, hn (show 49 + b.val < 2 ^ 31 by omega),
    hn (show 48 + a.val < 2 ^ 31 by omega)]
  exact Nat.mod_eq_of_lt (by omega)

/-- **Whatever the time of the compilation, a string of `char` or `wchar_t` that `skCrypt` stores
gives the results of its text in every program.** -/
theorem results_skCrypt (a b : Fin 10) (hT : T = .char ∨ T = .wchar) (hn : n < 2 ^ 31)
    {data : Chars T n} (hd : data (Fin.last n) = 0) (ops : List (Op T n)) :
    results (step (digit a) (digit b)) (construct (digit a) (digit b) data) ops =
      results (Text.step (digit a) (digit b)) ⟨data, true⟩ ops := by
  refine (shows_construct hd).results (fun hk => ?_) ops
  have hbits : 2 ^ 8 ≤ 2 ^ T.bits := by
    rcases hT with rfl | rfl <;> decide
  have hmod : n % (49 + b) < 49 + b := Nat.mod_lt _ (by omega)
  have h0 := congrArg BitVec.toNat hk
  rw [BitVec.toNat_setWidth, keyAt_digit a b hn, Nat.mod_eq_of_lt (by omega)] at h0
  simp at h0

end Dpp.Skc
