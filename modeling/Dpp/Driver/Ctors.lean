import Dpp.Driver.Model
import Dpp.Lib.Potential
import Mathlib.Data.BitVec
import Mathlib.Data.List.Range
import Mathlib.Tactic.Ring
import Mathlib.Tactic.SplitIfs

/-!
# The constructor list

`__ctors` takes the number of constructors from the head of `__CTOR_LIST__`, or counts up to the
`NULL` if the head is `-1`, and calls them with a counter and a pointer that both go down.

* `CtorList`: the list in memory, with either head.
* `State`, `Action`, `step`, `system`: the two loops, word by word.
* `At`: where the counter and the pointer are.
* `InReverse`: the entries are called from the last to the first, and nothing else is called or
  read; **`inReverse_of_exec`**: so it is in every run, and every run ends.
* **`simulates`**: a run is one of the driver, which has its constructors in a list.
-/

namespace Dpp.Driver.Ctors

open Lib

/-- A `ULONGLONG`, or a pointer. -/
abbrev Word := BitVec 64

/-- `__CTOR_LIST__` with the constructors `ctors`: a head, the constructors and a `NULL`, in words
of eight bytes from `l` on. -/
structure CtorList where
  l : Word
  /-- The words of the memory by their addresses. -/
  word : Word → Word
  ctors : List Word
  /-- The list lies in the memory. -/
  fits : l.toNat + 8 * (ctors.length + 2) ≤ 2 ^ 64
  head : word l = BitVec.ofNat 64 ctors.length ∨ word l = -1
  entry : ∀ k (h : k < ctors.length), word (l + 8 * BitVec.ofNat 64 (k + 1)) = ctors[k]
  nonnull : 0 ∉ ctors
  last : word (l + 8 * BitVec.ofNat 64 (ctors.length + 1)) = 0

/-! ## The two loops -/

/-- Where `__ctors` is. -/
inductive Point
  /-- At `i = (unsigned long long int)*l`. -/
  | head
  /-- At the test `l[i] != NULL`. -/
  | count (i : Word)
  /-- At the test `i--`. -/
  | loop (i p : Word)
  /-- In the constructor `func`, with `i` and `p` decremented. -/
  | ctor (i p func : Word)
  | returned

/-- Where `__ctors` is, the addresses it has read from, and the entries it has called. -/
structure State where
  point : Point := .head
  reads : List Word := []
  calls : List Word := []

inductive Action
  /-- `__ctors` goes on. -/
  | crt
  /-- The constructor returns. -/
  | returns

variable (c : CtorList)

/-- `&l[i]`. -/
def CtorList.addr (i : Word) : Word := c.l + 8 * i

/-- The next step of `__ctors`. -/
def State.crt (s : State) : Option State :=
  match s.point with
  | .head =>
    let i := c.word c.l
    some { s with
      point := if i = -1 then .count 1 else .loop i (c.addr i)
      reads := s.reads ++ [c.l] }
  | .count i =>
    some { s with
      point := if c.word (c.addr i) ≠ 0 then .count (i + 1) else .loop (i - 1) (c.addr (i - 1))
      reads := s.reads ++ [c.addr i] }
  | .loop i p =>
    if i ≠ 0 then
      some
        { point := .ctor (i - 1) (p - 8) (c.word p)
          reads := s.reads ++ [p]
          calls := s.calls ++ [p] }
    else some { s with point := .returned }
  | _ => none

def step (s : State) : Action → Option State
  | .crt => s.crt c
  | .returns =>
    match s.point with
    | .ctor i p _ => some { s with point := .loop i p }
    | _ => none

def system : System State Action where
  init s := s = {}
  step := step c

/-! ## What a step can do -/

/-- The steps, one by one. -/
inductive Does (s : State) : Action → State → Prop
  | headCount (h : s.point = .head) (hl : c.word c.l = -1) :
      Does s .crt { s with point := .count 1, reads := s.reads ++ [c.l] }
  | headLoop (h : s.point = .head) (hl : c.word c.l ≠ -1) :
      Does s .crt { s with
        point := .loop (c.word c.l) (c.addr (c.word c.l)), reads := s.reads ++ [c.l] }
  | count (i : Word) (h : s.point = .count i) (hi : c.word (c.addr i) ≠ 0) :
      Does s .crt { s with point := .count (i + 1), reads := s.reads ++ [c.addr i] }
  | counted (i : Word) (h : s.point = .count i) (hi : c.word (c.addr i) = 0) :
      Does s .crt { s with point := .loop (i - 1) (c.addr (i - 1)), reads := s.reads ++ [c.addr i] }
  | call (i p : Word) (h : s.point = .loop i p) (hi : i ≠ 0) :
      Does s .crt
        { point := .ctor (i - 1) (p - 8) (c.word p)
          reads := s.reads ++ [p]
          calls := s.calls ++ [p] }
  | finish (p : Word) (h : s.point = .loop 0 p) : Does s .crt { s with point := .returned }
  | returns (i p func : Word) (h : s.point = .ctor i p func) :
      Does s .returns { s with point := .loop i p }

variable {c} {s s' : State} {a : Action}

theorem step_cases (h : step c s a = some s') : Does c s a s' := by
  cases a with
  | crt =>
    simp only [step, State.crt] at h
    split at h
    · rename_i hp
      cases h
      split_ifs with hl
      · exact .headCount hp hl
      · exact .headLoop hp hl
    · rename_i i hp
      cases h
      split_ifs with hi
      · exact .count i hp hi
      · exact .counted i hp (not_not.mp hi)
    · rename_i i p hp
      split_ifs at h with hi
      · cases h
        exact .call i p hp hi
      · cases h
        obtain rfl := not_not.mp hi
        exact .finish p hp
    · cases h
  | returns =>
    simp only [step] at h
    split at h
    · rename_i i p func hp
      cases h
      exact .returns i p func hp
    · cases h

/-- `__ctors` is never stuck. -/
theorem exists_isSome_step (h : s.point ≠ .returned) : ∃ a, (step c s a).isSome := by
  cases hp : s.point with
  | head | count i => exact ⟨.crt, by simp only [step, State.crt, hp, Option.isSome_some]⟩
  | loop i p =>
    refine ⟨.crt, ?_⟩
    simp only [step, State.crt, hp]
    split_ifs <;> rfl
  | ctor i p func => exact ⟨.returns, by simp only [step, hp, Option.isSome_some]⟩
  | returned => exact absurd hp h

/-! ## The entries -/

namespace CtorList

variable (c)

/-- The number of constructors. -/
def n : ℕ := c.ctors.length

/-- The addresses of `l[1]`, .., `l[n]`. -/
def entries : List Word := (List.range c.n).map fun k => c.addr (BitVec.ofNat 64 (k + 1))

/-- The entries that have been called when `k` are left. -/
def called (k : ℕ) : List Word := (c.entries.drop k).reverse

variable {c} {j k : ℕ}

theorem lt_of_le (hk : k ≤ c.n + 1) : k < 2 ^ 64 - 1 := by
  have := c.fits
  unfold n at hk
  omega

/-- Nothing wraps in the list. -/
theorem toNat_addr (hk : k ≤ c.n + 1) : (c.addr (BitVec.ofNat 64 k)).toNat = c.l.toNat + 8 * k := by
  have hfits := c.fits
  have hlt := lt_of_le hk
  have h8 : (8 : Word).toNat = 8 := rfl
  unfold n at hk
  unfold CtorList.addr
  rw [BitVec.toNat_add, BitVec.toNat_mul, BitVec.toNat_ofNat, h8,
    Nat.mod_eq_of_lt (a := k) (by omega), Nat.mod_eq_of_lt (a := 8 * k) (by omega),
    Nat.mod_eq_of_lt (by omega)]

theorem addr_injective (hj : j ≤ c.n + 1) (hk : k ≤ c.n + 1)
    (h : c.addr (BitVec.ofNat 64 j) = c.addr (BitVec.ofNat 64 k)) : j = k := by
  have := congrArg BitVec.toNat h
  rw [toNat_addr hj, toNat_addr hk] at this
  omega

theorem addr_zero : c.addr (BitVec.ofNat 64 0) = c.l := by
  simp [CtorList.addr]

theorem succ_ofNat (k : ℕ) : BitVec.ofNat 64 k + 1 = BitVec.ofNat 64 (k + 1) :=
  (BitVec.ofNat_add k 1).symm

theorem addr_pred (k : ℕ) : c.addr (BitVec.ofNat 64 (k + 1)) - 8 = c.addr (BitVec.ofNat 64 k) := by
  unfold CtorList.addr
  rw [← succ_ofNat]
  ring

theorem pred_ofNat (k : ℕ) : BitVec.ofNat 64 (k + 1) - 1 = BitVec.ofNat 64 k := by
  rw [BitVec.ofNat_add]
  exact BitVec.add_sub_cancel _ _

theorem ofNat_ne_zero (hk : k < c.n) : BitVec.ofNat 64 (k + 1) ≠ 0 := by
  intro h
  have hlt := lt_of_le (c := c) (k := k + 1) (by omega)
  have := congrArg BitVec.toNat h
  rw [BitVec.toNat_ofNat, Nat.mod_eq_of_lt (by omega)] at this
  cases this

theorem length_entries : c.entries.length = c.n := by
  simp [entries]

theorem called_n : c.called c.n = [] := by
  rw [called, List.drop_of_length_le length_entries.le, List.reverse_nil]

theorem length_called (k : ℕ) : (c.called k).length = c.n - k := by
  rw [called, List.length_reverse, List.length_drop, length_entries]

/-- One more entry. -/
theorem called_append (hk : k < c.n) :
    c.called (k + 1) ++ [c.addr (BitVec.ofNat 64 (k + 1))] = c.called k := by
  have hlen : k < c.entries.length := length_entries.symm ▸ hk
  have hget : c.entries[k] = c.addr (BitVec.ofNat 64 (k + 1)) := by
    simp [entries]
  rw [called, called, List.drop_eq_getElem_cons hlen, List.reverse_cons, hget]

theorem called_prefix (k : ℕ) : c.called k <+: c.entries.reverse := by
  refine ⟨(c.entries.take k).reverse, ?_⟩
  rw [called, ← List.reverse_append, List.take_append_drop]

theorem mem_entries {a : Word} :
    a ∈ c.entries ↔ ∃ k < c.n, a = c.addr (BitVec.ofNat 64 (k + 1)) := by
  simp only [entries, List.mem_map, List.mem_range, eq_comm]

theorem nodup_entries : c.entries.Nodup := by
  refine List.Nodup.map_on (fun j hj k hk h => ?_) List.nodup_range
  rw [List.mem_range] at hj hk
  have := addr_injective (c := c) (by omega) (by omega) h
  omega

theorem word_entries : c.entries.map c.word = c.ctors := by
  refine List.ext_getElem (by rw [List.length_map, length_entries]; rfl) fun k hk hc => ?_
  rw [List.getElem_map, ← c.entry k hc]
  simp [entries, CtorList.addr]

theorem word_ne_zero (hk : k < c.n) : c.word (c.addr (BitVec.ofNat 64 (k + 1))) ≠ 0 := by
  have hk' : k < c.ctors.length := hk
  have hword : c.word (c.addr (BitVec.ofNat 64 (k + 1))) = c.ctors[k] := c.entry k hk'
  rw [hword]
  intro h
  exact c.nonnull (h ▸ List.getElem_mem hk')

/-- The `NULL` is behind the last entry. -/
theorem word_eq_zero_iff (hk : k ≤ c.n) :
    c.word (c.addr (BitVec.ofNat 64 (k + 1))) = 0 ↔ k = c.n := by
  constructor
  · intro h
    by_contra hne
    exact word_ne_zero (lt_of_le_of_ne hk hne) h
  · rintro rfl
    exact c.last

theorem toNat_ofNat (hk : k ≤ c.n + 1) : (BitVec.ofNat 64 k).toNat = k := by
  have := lt_of_le hk
  rw [BitVec.toNat_ofNat, Nat.mod_eq_of_lt (by omega)]

end CtorList

open CtorList

/-! ## The calls -/

/-- The calls so far are those of the entries from the last on, each once and none of the head or
the `NULL`; nothing else is read; and in the end all entries have been called. -/
structure InReverse (c : CtorList) (s : State) : Prop where
  calls : s.calls <+: c.entries.reverse
  funcs : s.calls.map c.word <+: c.ctors.reverse
  once : s.calls.Nodup
  inner : c.l ∉ s.calls ∧ c.addr (BitVec.ofNat 64 (c.n + 1)) ∉ s.calls
  reads : ∀ a ∈ s.reads, ∃ k ≤ c.n + 1, a = c.addr (BitVec.ofNat 64 k)
  all : s.point = .returned → s.calls = c.entries.reverse

/-! ## What every run keeps -/

/-- Where the counter and the pointer are, and what has been called. -/
def At (c : CtorList) (s : State) : Prop :=
  match s.point with
  | .head => s.calls = []
  | .count i => s.calls = [] ∧ ∃ k ≤ c.n, i = BitVec.ofNat 64 (k + 1)
  | .loop i p => ∃ k ≤ c.n, i = BitVec.ofNat 64 k ∧ p = c.addr i ∧ s.calls = c.called k
  | .ctor i p func => ∃ k, ∃ h : k < c.ctors.length,
      i = BitVec.ofNat 64 k ∧ p = c.addr i ∧ func = c.ctors[k] ∧ s.calls = c.called k
  | .returned => s.calls = c.called 0

/-- What has been read lies in the list. -/
def ReadsList (c : CtorList) (s : State) : Prop :=
  ∀ a ∈ s.reads, ∃ k ≤ c.n + 1, a = c.addr (BitVec.ofNat 64 k)

/-- The steps that are left at most. -/
def stepsLeft (c : CtorList) (s : State) : ℕ :=
  match s.point with
  | .head => 3 * c.n + 3
  | .count i => 3 * c.n + 3 - i.toNat
  | .loop i _ => 2 * i.toNat + 1
  | .ctor i .. => 2 * i.toNat + 2
  | .returned => 0

theorem At.step (hi : At c s) (h : Ctors.step c s a = some s') : At c s' := by
  unfold At at hi
  cases step_cases h with
  | headCount hp hl =>
    rw [hp] at hi
    exact ⟨hi, 0, Nat.zero_le _, rfl⟩
  | headLoop hp hl =>
    rw [hp] at hi
    exact ⟨c.n, le_rfl, c.head.resolve_right hl, rfl, hi.trans called_n.symm⟩
  | count i hp hne =>
    rw [hp] at hi
    obtain ⟨hc, k, hk, rfl⟩ := hi
    have hlt : k < c.n := lt_of_le_of_ne hk fun h => hne ((word_eq_zero_iff hk).mpr h)
    exact ⟨hc, k + 1, hlt, succ_ofNat (k + 1)⟩
  | counted i hp hz =>
    rw [hp] at hi
    obtain ⟨hc, k, hk, rfl⟩ := hi
    obtain rfl := (word_eq_zero_iff hk).mp hz
    exact ⟨c.n, le_rfl, pred_ofNat _, rfl, hc.trans called_n.symm⟩
  | call i p hp hne =>
    rw [hp] at hi
    obtain ⟨k, hk, rfl, rfl, hc⟩ := hi
    cases k with
    | zero => exact absurd rfl hne
    | succ k =>
      have hcalled : s.calls ++ [c.addr (BitVec.ofNat 64 (k + 1))] = c.called k := by
        rw [hc, called_append hk]
      have hat : c.addr (BitVec.ofNat 64 (k + 1)) - 8 = c.addr (BitVec.ofNat 64 (k + 1) - 1) := by
        rw [addr_pred, pred_ofNat]
      exact ⟨k, hk, pred_ofNat k, hat, c.entry k hk, hcalled⟩
  | finish p hp =>
    rw [hp] at hi
    obtain ⟨k, hk, hz, -, hc⟩ := hi
    cases k with
    | zero => exact hc
    | succ k => exact absurd hz.symm (ofNat_ne_zero hk)
  | returns i p func hp =>
    rw [hp] at hi
    obtain ⟨k, hk, hik, hpk, -, hc⟩ := hi
    exact ⟨k, hk.le, hik, hpk, hc⟩

theorem ReadsList.append (hr : ReadsList c s) {x : Word} {k : ℕ} (hk : k ≤ c.n + 1)
    (hx : x = c.addr (BitVec.ofNat 64 k)) {p : Point} {calls : List Word} :
    ReadsList c { point := p, reads := s.reads ++ [x], calls } := by
  intro y hy
  rcases List.mem_append.mp hy with hy | hy
  · exact hr y hy
  · exact ⟨k, hk, (List.mem_singleton.mp hy).trans hx⟩

theorem ReadsList.step (hr : ReadsList c s) (hi : At c s) (h : Ctors.step c s a = some s') :
    ReadsList c s' := by
  unfold At at hi
  cases step_cases h with
  | headCount hp hl | headLoop hp hl => exact hr.append (Nat.zero_le _) addr_zero.symm
  | count i hp hne | counted i hp hz =>
    rw [hp] at hi
    obtain ⟨-, k, hk, rfl⟩ := hi
    exact hr.append (Nat.succ_le_succ hk) rfl
  | call i p hp hne =>
    rw [hp] at hi
    obtain ⟨k, hk, rfl, rfl, -⟩ := hi
    exact hr.append (Nat.le_succ_of_le hk) rfl
  | finish p hp | returns i p func hp => exact hr

/-- **Every step** is one that was left. -/
theorem stepsLeft_step (hi : At c s) (h : Ctors.step c s a = some s') :
    1 + stepsLeft c s' ≤ stepsLeft c s := by
  have hi' := hi.step h
  unfold At at hi hi'
  unfold stepsLeft
  cases step_cases h with
  | headCount hp hl =>
    rw [hp]
    have h1 : (1 : Word).toNat = 1 := rfl
    simp only [h1]
    omega
  | headLoop hp hl =>
    obtain ⟨k, hk, he, -⟩ := hi'
    rw [hp]
    simp only [he, toNat_ofNat (Nat.le_succ_of_le hk)]
    omega
  | count i hp hne =>
    rw [hp] at hi ⊢
    obtain ⟨-, k, hk, rfl⟩ := hi
    have hlt : k < c.n := lt_of_le_of_ne hk fun h => hne ((word_eq_zero_iff hk).mpr h)
    simp only [succ_ofNat, toNat_ofNat (Nat.succ_le_succ hk), toNat_ofNat (Nat.succ_le_succ hlt)]
    omega
  | counted i hp hz =>
    rw [hp] at hi ⊢
    obtain ⟨-, k, hk, rfl⟩ := hi
    obtain ⟨j, hj, he, -⟩ := hi'
    simp only [he, toNat_ofNat (Nat.succ_le_succ hk), toNat_ofNat (Nat.le_succ_of_le hj)]
    omega
  | call i p hp hne =>
    rw [hp] at hi ⊢
    obtain ⟨k, hk, rfl, -⟩ := hi
    cases k with
    | zero => exact absurd rfl hne
    | succ k =>
      simp only [pred_ofNat, toNat_ofNat (Nat.le_succ_of_le hk),
        toNat_ofNat (Nat.le_succ_of_le (Nat.le_of_succ_le hk))]
      omega
  | finish p hp =>
    rw [hp]
    exact Nat.le_add_left _ _
  | returns i p func hp =>
    rw [hp]
    exact (Nat.add_comm ..).le

/-! ## Runs -/

theorem At.called_eq (hi : At c s) :
    ∃ k ≤ c.n, s.calls = c.called k ∧ (s.point = .returned → k = 0) := by
  unfold At at hi
  cases hp : s.point with
  | head =>
    rw [hp] at hi
    exact ⟨c.n, le_rfl, hi.trans called_n.symm, Point.noConfusion⟩
  | count i =>
    rw [hp] at hi
    exact ⟨c.n, le_rfl, hi.1.trans called_n.symm, Point.noConfusion⟩
  | loop i p =>
    rw [hp] at hi
    obtain ⟨k, hk, -, -, hc⟩ := hi
    exact ⟨k, hk, hc, Point.noConfusion⟩
  | ctor i p func =>
    rw [hp] at hi
    obtain ⟨k, hk, -, -, -, hc⟩ := hi
    exact ⟨k, hk.le, hc, Point.noConfusion⟩
  | returned =>
    rw [hp] at hi
    exact ⟨0, Nat.zero_le _, hi, fun _ => rfl⟩

theorem not_mem_entries_l : c.l ∉ c.entries := by
  intro h
  obtain ⟨k, hk, he⟩ := mem_entries.mp h
  have := addr_injective (Nat.zero_le _) (by omega) (addr_zero.trans he)
  cases this

theorem not_mem_entries_last : c.addr (BitVec.ofNat 64 (c.n + 1)) ∉ c.entries := by
  intro h
  obtain ⟨k, hk, he⟩ := mem_entries.mp h
  have := addr_injective le_rfl (by omega) he
  omega

theorem At.inReverse (hi : At c s) (hr : ReadsList c s) : InReverse c s := by
  obtain ⟨k, -, hc, hk⟩ := hi.called_eq
  have hcalls : s.calls <+: c.entries.reverse := hc ▸ called_prefix k
  have hmem : ∀ a ∈ s.calls, a ∈ c.entries := fun a ha => List.mem_reverse.mp (hcalls.subset ha)
  refine ⟨hcalls, ?_, ?_, ⟨?_, ?_⟩, hr, fun hp => ?_⟩
  · rw [← word_entries, ← List.map_reverse]
    exact hcalls.map _
  · exact (List.nodup_reverse.mpr nodup_entries).sublist hcalls.sublist
  · exact fun h => not_mem_entries_l (hmem _ h)
  · exact fun h => not_mem_entries_last (hmem _ h)
  · rw [hc, hk hp]
    rfl

/-- What every run keeps. -/
def Sound (c : CtorList) (s : State) : Prop := At c s ∧ ReadsList c s

theorem sound_preserved : (system c).Preserves (Sound c) := by
  rintro s a s' ⟨hi, hr⟩ h
  exact ⟨hi.step h, hr.step hi h⟩

theorem sound_initial : Sound c {} := ⟨rfl, fun _ ha => absurd ha List.not_mem_nil⟩

/-- **The constructors are called once each, the last one first**, in a run that ends and is the
same with either head. -/
theorem inReverse_of_exec (c : CtorList) (as : List Action) (s : State)
    (he : (system c).exec {} as = some s) :
    InReverse c s ∧ as.length ≤ 3 * c.n + 3 ∧
      (s.point ≠ .returned → ∃ a, (step c s a).isSome) ∧
      ∀ (c' : CtorList) (as' : List Action) (s' : State), c'.ctors = c.ctors →
        (system c').exec {} as' = some s' → s.point = .returned → s'.point = .returned →
          s.calls.map c.word = s'.calls.map c'.word := by
  have hall : ∀ (c : CtorList) as s, (system c).exec {} as = some s → InReverse c s := by
    intro c as s he
    obtain ⟨hi, hr⟩ := sound_preserved.exec sound_initial he
    exact hi.inReverse hr
  have hfuncs : ∀ (c : CtorList) as s, (system c).exec {} as = some s → s.point = .returned →
      s.calls.map c.word = c.ctors.reverse := by
    intro c as s he hp
    rw [(hall c as s he).all hp, List.map_reverse, word_entries]
  have hlength : as.length ≤ stepsLeft c {} :=
    System.length_le sound_preserved (fun s a s' hi h => stepsLeft_step hi.1 h) sound_initial he
  refine ⟨hall c as s he, hlength, exists_isSome_step, ?_⟩
  intro c' as' s' hc he' hp hp'
  rw [hfuncs c as s he hp, hfuncs c' as' s' he' hp', hc]

/-! ## The constructors of the driver -/

/-- Where the driver is. -/
def driverPoint (c : CtorList) (s : State) : Driver.Point Word :=
  let rest := c.ctors.reverse.drop s.calls.length
  match s.point with
  | .head | .count _ | .loop .. => .ctors rest
  | .ctor _ _ func => .ctor func rest
  | .returned => .resolve

/-- The state of the driver; nothing but the point has changed since the start. -/
def driverState (c : CtorList) (s : State) : Driver.State Word :=
  { Driver.State.initial c.ctors with point := driverPoint c s }

/-- What is left to call. -/
theorem drop_calls {k : ℕ} (hk : k ≤ c.n) (hc : s.calls = c.called k) :
    c.ctors.reverse.drop s.calls.length = (c.ctors.take k).reverse := by
  have hleft : c.ctors.length - (c.n - k) = k := Nat.sub_sub_self hk
  rw [hc, length_called, List.drop_reverse, hleft]

theorem reverse_take_succ {k : ℕ} (hk : k < c.ctors.length) :
    (c.ctors.take (k + 1)).reverse = c.ctors[k] :: (c.ctors.take k).reverse := by
  rw [List.take_add_one, List.getElem?_eq_getElem hk, Option.toList_some, List.reverse_append,
    List.reverse_singleton, List.singleton_append]

/-- **A run of `__ctors` is one of the driver**, which has its constructors in a list. -/
theorem simulates (c : CtorList) : (system c).Simulates (Driver.system Word)
    fun s t => At c s ∧ t = driverState c s := by
  refine ⟨?_, ?_⟩
  · rintro s rfl
    exact ⟨_, ⟨c.ctors, rfl⟩, rfl, rfl⟩
  · rintro s a s' t ⟨hi, rfl⟩ h
    have hi' := hi.step h
    cases step_cases h with
    | headCount hp hl | headLoop hp hl | count i hp hne | counted i hp hz =>
      refine ⟨[], _, rfl, hi', ?_⟩
      simp only [driverState, driverPoint, hp]
    | call i p hp hne =>
      refine ⟨[.crt], _, ?_, hi', rfl⟩
      unfold At at hi hi'
      rw [hp] at hi
      obtain ⟨m, hm, rfl, -, hc⟩ := hi
      obtain ⟨k, hk, hik, -, hfunc, hc'⟩ := hi'
      obtain rfl : m = k + 1 := by
        have hlen := congrArg List.length hc'
        rw [List.length_append, hc, length_called, length_called, List.length_singleton] at hlen
        have hkn : k < c.n := hk
        omega
      simp only [driverState, driverPoint, hp, hfunc, drop_calls hm hc, drop_calls hk.le hc',
        reverse_take_succ hk]
      rfl
    | finish p hp =>
      refine ⟨[.crt], _, ?_, hi', rfl⟩
      have hc : s.calls = c.called 0 := hi'
      simp only [driverState, driverPoint, hp, drop_calls (Nat.zero_le _) hc, List.take_zero,
        List.reverse_nil]
      rfl
    | returns i p func hp =>
      refine ⟨[.returns statusSuccess], _, ?_, hi', rfl⟩
      simp only [driverState, driverPoint, hp]
      rfl

/-- Two constructors at `0x1000`, with the head `head`. -/
def twoCtors (head : Word) (h : head = 2 ∨ head = -1) : CtorList where
  l := 0x1000
  word a := [head, 0x5000, 0x6000, 0].getD ((a - 0x1000) / 8).toNat 0
  ctors := [0x5000, 0x6000]
  fits := by decide
  head := by
    rcases h with rfl | rfl
    · exact .inl rfl
    · exact .inr rfl
  entry k h := by
    have hk : k = 0 ∨ k = 1 := by
      simp only [List.length_cons, List.length_nil] at h
      omega
    rcases hk with rfl | rfl <;> rfl
  nonnull := by decide
  last := rfl

/-- Both heads, and the last constructor first. -/
theorem inReverse_of_exec_two :
    ∃ s s' : State, s.calls.map (twoCtors 2 (.inl rfl)).word = [0x6000, 0x5000] ∧
      InReverse (twoCtors 2 (.inl rfl)) s ∧
      s.calls.map (twoCtors 2 (.inl rfl)).word = s'.calls.map (twoCtors (-1) (.inr rfl)).word := by
  have h := inReverse_of_exec (twoCtors 2 (.inl rfl))
    [.crt, .crt, .returns, .crt, .returns, .crt] _ rfl
  exact ⟨_, _, rfl, h.1, h.2.2.2 (twoCtors (-1) (.inr rfl))
    [.crt, .crt, .crt, .crt, .crt, .returns, .crt, .returns, .crt] _ rfl rfl rfl rfl⟩

end Dpp.Driver.Ctors
