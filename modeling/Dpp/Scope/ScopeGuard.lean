import Dpp.Lib.System
import Mathlib.Data.Nat.Notation
import Mathlib.Logic.Function.Basic
import Mathlib.Order.Nat
import Mathlib.Tactic.SplitIfs

/-!
# `ScopeGuard`

Guards are constructed from callables, moved, released and destroyed in any order. The move
constructor takes the callable and releases the guard it moves from, and does not initialise
`active`: the new guard has what its storage held.

* `Guard`: the members and the functions; `State`, `Action`, `step`, `system`.
* `Chain`: the guards a callable has been moved through; `State.holds`: the guard that still has
  its callable.
* `FiresOnce`: a callable is invoked once, when the last guard of its chain is destroyed, unless
  that chain was released.
* **`firesOnce_iff_storageRight`**: so it is exactly if every guard that is destroyed as it was
  moved into was built in a storage that held the right `active`.
-/

namespace Dpp.ScopeGuard

open Lib

/-- The members of `ScopeGuard`. The callable of the guard with number `k` is `k`. -/
structure Guard where
  func : ℕ
  active : Bool

namespace Guard

/-- Construction from a callable. -/
def construct (func : ℕ) : Guard := { func, active := true }

def release (g : Guard) : Guard := { g with active := false }

/-- Move construction in a storage whose `active` holds `storage`: the new guard and `other`. -/
def move (other : Guard) (storage : Bool) : Guard × Guard :=
  ({ func := other.func, active := storage }, other.release)

/-- The destructor: the callable it invokes. -/
def destroy (g : Guard) : Option ℕ := if g.active then some g.func else none

end Guard

/-- The guards a callable was moved through: the last one, whether it was released while it was the
last one, and whether it was destroyed. -/
structure Chain where
  last : ℕ
  released : Bool := false
  ended : Bool := false

namespace Chain

variable (c : Chain)

def moveTo (g : ℕ) : Chain := { c with last := g }

def release : Chain := { c with released := true }

def finish : Chain := { c with ended := true }

end Chain

/-- How a guard was move-constructed: what its storage held, and whether the guard it was moved from
still had its callable. -/
structure Birth where
  storage : Bool
  owed : Bool

/-- The guards in memory by their numbers, and the callables invoked. The history: the chain of
each callable, and the births of the guards that were neither released nor moved from since. -/
structure State where
  guard : ℕ → Option Guard := fun _ => none
  next : ℕ := 0
  invoked : List ℕ := []
  chain : ℕ → Chain := fun k => { last := k }
  birth : ℕ → Option Birth := fun _ => none

inductive Action
  | construct
  | move (g : ℕ) (storage : Bool)
  | release (g : ℕ)
  | destroy (g : ℕ)

namespace State

variable (s : State) (g : ℕ) (x : Guard)

/-- Guard `g` is the last of its chain. -/
def isLast : Bool := (s.chain x.func).last = g

/-- Guard `g` still has its callable. -/
def holds : Bool := s.isLast g x && !(s.chain x.func).released

/-- Change the chain of `g` if `g` is the last of it. -/
def onChain (f : Chain → Chain) : ℕ → Chain :=
  if s.isLast g x then Function.update s.chain x.func (f (s.chain x.func)) else s.chain

/-- A new guard. -/
def put (b : Option Birth) : State :=
  { s with
    guard := Function.update s.guard s.next (some x)
    birth := Function.update s.birth s.next b
    next := s.next + 1 }

/-- Replace guard `g`, which was `x`, and change its chain. -/
def replace (v : Option Guard) (f : Chain → Chain) : State :=
  { s with
    guard := Function.update s.guard g v
    birth := Function.update s.birth g none
    chain := s.onChain g x f }

def construct : State := s.put (.construct s.next) none

def move (storage : Bool) : State :=
  let (new, other) := x.move storage
  (s.replace g x (some other) (·.moveTo s.next)).put new (some { storage, owed := s.holds g x })

def release : State := s.replace g x (some x.release) Chain.release

def destroy : State :=
  { s.replace g x none Chain.finish with invoked := s.invoked ++ x.destroy.toList }

end State

/-- The operations; all but the first need a guard that exists. -/
def step (s : State) : Action → Option State
  | .construct => some s.construct
  | .move g storage => (s.guard g).map fun x => s.move g x storage
  | .release g => (s.guard g).map fun x => s.release g x
  | .destroy g => (s.guard g).map fun x => s.destroy g x

def system : System State Action where
  init s := s = {}
  step := step

/-- The callable of guard `k` was invoked once if the last guard of its chain was destroyed and
not released, and never otherwise. -/
def FiresOnce (s : State) : Prop :=
  ∀ k, s.invoked.count k = if (s.chain k).ended ∧ ¬ (s.chain k).released then 1 else 0

/-- A guard that is destroyed as it was moved into was built in a storage whose `active` told
whether the guard it was moved from still had its callable. -/
def StorageRight (s : State) : Action → Prop
  | .destroy g => ∀ b, s.birth g = some b → b.storage = b.owed
  | _ => True

/-! ## What every run keeps -/

/-- A guard is active as its storage was if it is as it was moved into, and otherwise exactly if it
still has its callable. -/
structure Sound (s : State) : Prop where
  fresh : ∀ g, s.next ≤ g → s.guard g = none ∧ s.birth g = none
  func : ∀ g x, s.guard g = some x → x.func < s.next
  last : ∀ k, k < s.next → (s.chain k).last < s.next
  later : ∀ k, s.next ≤ k → s.chain k = { last := k }
  live : ∀ g x, s.guard g = some x → s.isLast g x → (s.chain x.func).ended = false
  born : ∀ g x b, s.guard g = some x → s.birth g = some b →
    x.active = b.storage ∧ s.holds g x = b.owed
  active : ∀ g x, s.guard g = some x → s.birth g = none → x.active = s.holds g x

variable {s s' : State} {a : Action} {g h : ℕ} {x y : Guard} {f : Chain → Chain}

theorem onChain_of_isLast (hl : s.isLast g x) (k : ℕ) :
    s.onChain g x f k = if k = x.func then f (s.chain x.func) else s.chain k := by
  unfold State.onChain
  rw [if_pos hl]
  exact Function.update_apply ..

theorem onChain_of_not_isLast (hl : s.isLast g x = false) : s.onChain g x f = s.chain := by
  unfold State.onChain
  rw [if_neg (by rw [hl]; exact Bool.noConfusion)]

theorem onChain_of_ne {k : ℕ} (hk : k ≠ x.func) : s.onChain g x f k = s.chain k := by
  unfold State.onChain
  split_ifs
  · exact Function.update_of_ne hk ..
  · rfl

theorem onChain_func :
    s.onChain g x f x.func = if s.isLast g x then f (s.chain x.func) else s.chain x.func := by
  cases hl : s.isLast g x with
  | false => rw [onChain_of_not_isLast hl, if_neg Bool.noConfusion]
  | true => rw [onChain_of_isLast hl, if_pos rfl, if_pos rfl]

/-- The chain of `g` is nobody else's, unless `f` makes it so. -/
theorem holds_onChain (hne : h ≠ g) (hf : s.isLast g x → (f (s.chain x.func)).last ≠ h) {t : State}
    (ht : t.chain = s.onChain g x f) : t.isLast h y = s.isLast h y ∧ t.holds h y = s.holds h y := by
  unfold State.holds State.isLast
  rw [ht]
  cases hl : s.isLast g x with
  | false => rw [onChain_of_not_isLast hl]; exact ⟨rfl, rfl⟩
  | true =>
    rw [onChain_of_isLast hl]
    split_ifs with hk
    · have hg : (s.chain x.func).last = g := of_decide_eq_true hl
      rw [hk, hg]
      simp [hf hl, hne.symm]
    · exact ⟨rfl, rfl⟩

/-- Only the last guard changes the chain. -/
theorem chain_onChain_of_ne (hne : h ≠ g) (hl : s.isLast h y) :
    s.onChain g x f y.func = s.chain y.func := by
  by_cases hk : y.func = x.func
  · have hg : s.isLast g x = false := by
      have hh : (s.chain y.func).last = h := of_decide_eq_true hl
      rw [hk] at hh
      simp [State.isLast, hh, hne]
    rw [onChain_of_not_isLast hg]
  · exact onChain_of_ne hk

theorem Sound.lt (hi : Sound s) (hx : s.guard g = some x) : g < s.next := by
  by_contra hg
  have := (hi.fresh g (not_lt.mp hg)).1
  rw [hx] at this
  cases this

/-- A number that no guard has yet. -/
theorem Sound.skip (hi : Sound s) : Sound { s with next := s.next + 1 } := by
  refine ⟨fun h hh => hi.fresh h (Nat.le_of_succ_le hh),
    fun h y hy => Nat.lt_succ_of_lt (hi.func h y hy), fun k hk => ?_,
    fun k hk => hi.later k (Nat.le_of_succ_le hk), hi.live, hi.born, hi.active⟩
  rcases Nat.lt_succ_iff_lt_or_eq.mp hk with hk | rfl
  · exact Nat.lt_succ_of_lt (hi.last k hk)
  · show (s.chain s.next).last < s.next + 1
    rw [hi.later s.next le_rfl]
    exact Nat.lt_succ_self _

/-- The guards after `Function.update`. -/
theorem guard_cases {m : ℕ → Option Guard} {v : Option Guard}
    (hy : Function.update m g v h = some y) : (h = g ∧ v = some y) ∨ (h ≠ g ∧ m h = some y) := by
  by_cases hg : h = g
  · rw [hg, Function.update_self] at hy
    exact .inl ⟨hg, hy⟩
  · rw [Function.update_of_ne hg] at hy
    exact .inr ⟨hg, hy⟩

/-- A guard under a free number. -/
theorem Sound.place (hi : Sound s) {b : Option Birth} (hg : g < s.next) (hx : x.func < s.next)
    (hl : s.isLast g x → (s.chain x.func).ended = false)
    (hb : ∀ b', b = some b' → x.active = b'.storage ∧ s.holds g x = b'.owed)
    (ha : b = none → x.active = s.holds g x) :
    Sound { s with
      guard := Function.update s.guard g (some x)
      birth := Function.update s.birth g b } := by
  have hne : ∀ h, s.next ≤ h → h ≠ g := fun h hh => (hg.trans_le hh).ne'
  refine ⟨fun h hh => ?_, fun h y hy => ?_, hi.last, hi.later, fun h y hy hl' => ?_,
    fun h y b' hy hb' => ?_, fun h y hy hb' => ?_⟩
  · exact ⟨(Function.update_of_ne (hne h hh) ..).trans (hi.fresh h hh).1,
      (Function.update_of_ne (hne h hh) ..).trans (hi.fresh h hh).2⟩
  · rcases guard_cases hy with ⟨-, hv⟩ | ⟨-, hy⟩
    · obtain rfl := Option.some.inj hv
      exact hx
    · exact hi.func h y hy
  · rcases guard_cases hy with ⟨rfl, hv⟩ | ⟨-, hy⟩
    · obtain rfl := Option.some.inj hv
      exact hl hl'
    · exact hi.live h y hy hl'
  · change Function.update s.birth g b h = some b' at hb'
    rcases guard_cases hy with ⟨rfl, hv⟩ | ⟨hhg, hy⟩
    · obtain rfl := Option.some.inj hv
      rw [Function.update_self] at hb'
      exact hb b' hb'
    · rw [Function.update_of_ne hhg] at hb'
      exact hi.born h y b' hy hb'
  · change Function.update s.birth g b h = none at hb'
    rcases guard_cases hy with ⟨rfl, hv⟩ | ⟨hhg, hy⟩
    · obtain rfl := Option.some.inj hv
      rw [Function.update_self] at hb'
      exact ha hb'
    · rw [Function.update_of_ne hhg] at hb'
      exact hi.active h y hy hb'

theorem Sound.last_onChain (hi : Sound s) (hf : (f (s.chain x.func)).last < s.next) {k : ℕ}
    (hk : k < s.next) : (s.onChain g x f k).last < s.next := by
  cases hl : s.isLast g x with
  | false =>
    rw [onChain_of_not_isLast hl]
    exact hi.last k hk
  | true =>
    rw [onChain_of_isLast hl]
    split_ifs
    · exact hf
    · exact hi.last k hk

/-- A guard that is the last one afterwards was so before. -/
theorem Sound.live_onChain (hi : Sound s) (hx : s.guard g = some x)
    (he : (f (s.chain x.func)).ended = (s.chain x.func).ended) {t : State}
    (ht : t.chain = s.onChain g x f) (hl : t.isLast g x.release) :
    (t.chain x.func).ended = false := by
  rw [ht]
  cases hx' : s.isLast g x with
  | false =>
    unfold State.isLast at hl hx'
    rw [ht, onChain_of_not_isLast hx'] at hl
    cases hx'.symm.trans hl
  | true =>
    rw [onChain_of_isLast hx', if_pos rfl, he]
    exact hi.live g x hx hx'

/-- A guard that goes, or stays without its callable. -/
theorem Sound.replace (hi : Sound s) {v : Option Guard} (hx : s.guard g = some x)
    (hf : (f (s.chain x.func)).last < s.next)
    (hne : ∀ h y, s.guard h = some y → h ≠ g → s.isLast g x → (f (s.chain x.func)).last ≠ h)
    (hv : ∀ y, v = some y → y = x.release ∧ (f (s.chain x.func)).ended = (s.chain x.func).ended ∧
      (s.replace g x v f).holds g y = false) : Sound (s.replace g x v f) := by
  have hg := hi.lt hx
  have hfunc := hi.func g x hx
  have hother : ∀ h y, s.guard h = some y → h ≠ g →
      (s.replace g x v f).isLast h y = s.isLast h y ∧
        (s.replace g x v f).holds h y = s.holds h y :=
    fun h y hy hhg => holds_onChain hhg (hne h y hy hhg) rfl
  refine ⟨fun h hh => ?_, fun h y hy => ?_, fun k hk => ?_, fun k hk => ?_, fun h y hy hl => ?_,
    fun h y b hy hb => ?_, fun h y hy hb => ?_⟩
  · have hhg : h ≠ g := (hg.trans_le hh).ne'
    exact ⟨(Function.update_of_ne hhg ..).trans (hi.fresh h hh).1,
      (Function.update_of_ne hhg ..).trans (hi.fresh h hh).2⟩
  · rcases guard_cases hy with ⟨-, hy⟩ | ⟨-, hy⟩
    · rw [(hv y hy).1]
      exact hfunc
    · exact hi.func h y hy
  · exact hi.last_onChain hf hk
  · have hkx : k ≠ x.func := (hfunc.trans_le hk).ne'
    exact (onChain_of_ne hkx).trans (hi.later k hk)
  · rcases guard_cases hy with ⟨rfl, hvy⟩ | ⟨hhg, hy⟩
    · obtain ⟨rfl, he, -⟩ := hv y hvy
      exact hi.live_onChain hx he rfl hl
    · rw [(hother h y hy hhg).1] at hl
      show (s.onChain g x f y.func).ended = false
      rw [chain_onChain_of_ne hhg hl]
      exact hi.live h y hy hl
  · change Function.update s.birth g none h = some b at hb
    rcases guard_cases hy with ⟨rfl, -⟩ | ⟨hhg, hy⟩
    · rw [Function.update_self] at hb
      cases hb
    · rw [Function.update_of_ne hhg] at hb
      rw [(hother h y hy hhg).2]
      exact hi.born h y b hy hb
  · change Function.update s.birth g none h = none at hb
    rcases guard_cases hy with ⟨rfl, hvy⟩ | ⟨hhg, hy⟩
    · obtain ⟨rfl, -, hh⟩ := hv y hvy
      exact hh.symm
    · rw [Function.update_of_ne hhg] at hb
      rw [(hother h y hy hhg).2]
      exact hi.active h y hy hb

theorem Sound.construct (hi : Sound s) : Sound s.construct := by
  have hnew : s.chain s.next = { last := s.next } := hi.later s.next le_rfl
  refine hi.skip.place (Nat.lt_succ_self _) (Nat.lt_succ_self _) (fun _ => ?_) nofun fun _ => ?_
  · exact congrArg Chain.ended hnew
  · show true = (decide ((s.chain s.next).last = s.next) && !(s.chain s.next).released)
    simp [hnew]

theorem Sound.release (hi : Sound s) (hx : s.guard g = some x) : Sound (s.release g x) := by
  refine hi.replace hx (hi.last _ (hi.func g x hx)) (fun h y _ hhg hl => ?_) fun y hy => ?_
  · have hg : (s.chain x.func).last = g := of_decide_eq_true hl
    exact hg.trans_ne hhg.symm
  · obtain rfl := Option.some.inj hy
    refine ⟨rfl, rfl, ?_⟩
    show (decide ((s.onChain g x Chain.release x.func).last = g) &&
      !(s.onChain g x Chain.release x.func).released) = false
    rw [onChain_func]
    split_ifs with hl
    · exact Bool.and_false _
    · rw [State.isLast, decide_eq_true_eq] at hl
      simp [hl]

/-- The guard that is moved from loses its callable, and the new one has it. -/
theorem Sound.move (hi : Sound s) (hx : s.guard g = some x) (storage : Bool) :
    Sound (s.move g x storage) := by
  have hlast := hi.last _ (hi.func g x hx)
  have hr : Sound
      (({ s with next := s.next + 1 } : State).replace g x (some x.release) (·.moveTo s.next)) := by
    refine hi.skip.replace hx (Nat.lt_succ_self _) (fun h y hy _ _ => (hi.lt hy).ne') fun y hy => ?_
    obtain rfl := Option.some.inj hy
    refine ⟨rfl, rfl, ?_⟩
    show (decide ((s.onChain g x (·.moveTo s.next) x.func).last = g) &&
      !(s.onChain g x (·.moveTo s.next) x.func).released) = false
    rw [onChain_func]
    split_ifs with hl
    · simp [Chain.moveTo, (hi.lt hx).ne']
    · rw [State.isLast, decide_eq_true_eq] at hl
      simp [hl]
  refine hr.place (Nat.lt_succ_self s.next) (Nat.lt_succ_of_lt (hi.func g x hx)) (fun hl => ?_)
    (fun b hb => ?_) nofun
  · show (s.onChain g x (·.moveTo s.next) x.func).ended = false
    replace hl : (s.onChain g x (·.moveTo s.next) x.func).last = s.next :=
      of_decide_eq_true hl
    rw [onChain_func] at hl ⊢
    split_ifs at hl ⊢ with hg
    · exact hi.live g x hx hg
    · exact absurd hl hlast.ne
  · obtain rfl := Option.some.inj hb
    refine ⟨rfl, ?_⟩
    show (decide ((s.onChain g x (·.moveTo s.next) x.func).last = s.next) &&
      !(s.onChain g x (·.moveTo s.next) x.func).released) =
        (s.isLast g x && !(s.chain x.func).released)
    rw [onChain_func]
    split_ifs with hg
    · simp [Chain.moveTo, hg]
    · simp [hg, hlast.ne]

theorem Sound.destroy (hi : Sound s) (hx : s.guard g = some x) : Sound (s.destroy g x) := by
  have hr : Sound (s.replace g x none Chain.finish) := by
    refine hi.replace hx (hi.last _ (hi.func g x hx)) (fun h y _ hhg hl => ?_) nofun
    have hg : (s.chain x.func).last = g := of_decide_eq_true hl
    exact hg.trans_ne hhg.symm
  exact ⟨hr.fresh, hr.func, hr.last, hr.later, hr.live, hr.born, hr.active⟩

/-- The operations, one by one. -/
theorem step_cases (h : step s a = some s') :
    (a = .construct ∧ s' = s.construct) ∨
      (∃ g storage x, a = .move g storage ∧ s.guard g = some x ∧ s' = s.move g x storage) ∨
      (∃ g x, a = .release g ∧ s.guard g = some x ∧ s' = s.release g x) ∨
      ∃ g x, a = .destroy g ∧ s.guard g = some x ∧ s' = s.destroy g x := by
  cases a with
  | construct => exact .inl ⟨rfl, (Option.some.inj h).symm⟩
  | move g storage =>
    obtain ⟨x, hx, rfl⟩ := Option.map_eq_some_iff.mp h
    exact .inr (.inl ⟨g, storage, x, rfl, hx, rfl⟩)
  | release g =>
    obtain ⟨x, hx, rfl⟩ := Option.map_eq_some_iff.mp h
    exact .inr (.inr (.inl ⟨g, x, rfl, hx, rfl⟩))
  | destroy g =>
    obtain ⟨x, hx, rfl⟩ := Option.map_eq_some_iff.mp h
    exact .inr (.inr (.inr ⟨g, x, rfl, hx, rfl⟩))

theorem sound_inductive : system.Inductive Sound := by
  refine ⟨fun s h0 => ?_, fun s a s' hi h => ?_⟩
  · obtain rfl := h0
    exact ⟨fun _ _ => ⟨rfl, rfl⟩, nofun, nofun, fun _ _ => rfl, nofun, nofun, nofun⟩
  · rcases step_cases h with ⟨-, rfl⟩ | ⟨g, storage, x, -, hx, rfl⟩ | ⟨g, x, -, hx, rfl⟩ |
      ⟨g, x, -, hx, rfl⟩
    · exact hi.construct
    · exact hi.move hx storage
    · exact hi.release hx
    · exact hi.destroy hx

/-! ## Invocations -/

/-- The callable of the chain `c` was invoked `n` times, as it should. -/
def Chain.Fired (c : Chain) (n : ℕ) : Prop := n = if c.ended ∧ ¬ c.released then 1 else 0

/-- Before its end a chain that is released has nothing to invoke either way. -/
theorem Chain.fired_release {c : Chain} {n : ℕ} (he : c.ended = false) :
    c.release.Fired n ↔ c.Fired n := by
  simp [Chain.Fired, Chain.release, he]

/-- The end of a chain is right if it invokes exactly what was not released. -/
theorem Chain.fired_finish {c : Chain} {n m : ℕ} (he : c.ended = false) (hn : c.Fired n) :
    c.finish.Fired (n + m) ↔ m = if c.released then 0 else 1 := by
  have h0 : n = 0 := by simpa [Chain.Fired, he] using hn
  subst h0
  cases hr : c.released <;> simp [Chain.Fired, Chain.finish, hr]

/-- Moves and releases leave `FiresOnce` as it is. -/
theorem firesOnce_onChain {t : State} (hc : t.chain = s.onChain g x f) (ht : t.invoked = s.invoked)
    (hf : s.isLast g x → ∀ n, (s.chain x.func).Fired n → (f (s.chain x.func)).Fired n)
    (h : FiresOnce s) : FiresOnce t := by
  intro k
  have hk := h k
  show (t.chain k).Fired (t.invoked.count k)
  rw [hc, ht]
  by_cases hkx : k = x.func
  · rw [hkx, onChain_func]
    split_ifs with hl
    · exact hf hl _ (hkx ▸ hk)
    · exact hkx ▸ hk
  · rw [onChain_of_ne hkx]
    exact hk

/-- **A destruction is right exactly if** the guard is active when it still has its callable. -/
theorem firesOnce_destroy_iff (hi : Sound s) (hx : s.guard g = some x) (h : FiresOnce s) :
    FiresOnce (s.destroy g x) ↔ x.active = s.holds g x := by
  have hcount : ∀ k, (s.destroy g x).invoked.count k =
      s.invoked.count k + if k = x.func ∧ x.active then 1 else 0 := by
    intro k
    show (s.invoked ++ x.destroy.toList).count k = _
    rw [List.count_append]
    cases ha : x.active with
    | false => simp [Guard.destroy, ha]
    | true =>
      have hd : x.destroy.toList = [x.func] := by simp [Guard.destroy, ha]
      rw [hd, List.count_singleton]
      by_cases hk : k = x.func
      · simp [hk]
      · simp [hk, Ne.symm hk]
  have hself : (s.onChain g x Chain.finish x.func).Fired ((s.destroy g x).invoked.count x.func) ↔
      x.active = s.holds g x := by
    rw [hcount, onChain_func]
    cases hl : s.isLast g x with
    | false =>
      have hn : s.invoked.count x.func = _ := h x.func
      simp only [Chain.Fired, State.holds, hl, Bool.false_and, Bool.false_eq_true, if_false]
      cases x.active <;> simp [hn]
    | true =>
      rw [if_pos rfl, Chain.fired_finish (hi.live g x hx hl) (h x.func)]
      unfold State.holds
      rw [hl]
      cases x.active <;> cases (s.chain x.func).released <;> simp
  constructor
  · exact fun h' => hself.mp (h' x.func)
  · intro ha k
    show (s.onChain g x Chain.finish k).Fired _
    by_cases hk : k = x.func
    · rw [hk]
      exact hself.mpr ha
    · rw [onChain_of_ne hk, hcount, if_neg fun h => hk h.1]
      exact h k

/-- A guard is active as it should be exactly if its storage was right. -/
theorem Sound.storageRight_iff (hi : Sound s) (hx : s.guard g = some x) :
    StorageRight s (.destroy g) ↔ x.active = s.holds g x := by
  cases hb : s.birth g with
  | none => exact iff_of_true (fun b hb' => by cases hb.symm.trans hb') (hi.active g x hx hb)
  | some b =>
    obtain ⟨ha, ho⟩ := hi.born g x b hx hb
    rw [ha, ho]
    exact ⟨fun h => h b hb, fun h b' hb' => by cases hb.symm.trans hb'; exact h⟩

theorem Sound.firesOnce_step_iff (hi : Sound s) (h : FiresOnce s) (hs : step s a = some s') :
    FiresOnce s' ↔ StorageRight s a := by
  rcases step_cases hs with ⟨rfl, rfl⟩ | ⟨g, storage, x, rfl, hx, rfl⟩ | ⟨g, x, rfl, hx, rfl⟩ |
    ⟨g, x, rfl, hx, rfl⟩
  · exact iff_of_true h trivial
  · have hf : s.isLast g x → ∀ n, (s.chain x.func).Fired n →
        ((s.chain x.func).moveTo s.next).Fired n := fun _ _ => id
    have hc : (s.move g x storage).chain = s.onChain g x (·.moveTo s.next) := rfl
    exact iff_of_true (firesOnce_onChain hc rfl hf h) trivial
  · have hf : s.isLast g x → ∀ n, (s.chain x.func).Fired n → (s.chain x.func).release.Fired n :=
      fun hl n => (Chain.fired_release (hi.live g x hx hl)).mpr
    have hc : (s.release g x).chain = s.onChain g x Chain.release := rfl
    exact iff_of_true (firesOnce_onChain hc rfl hf h) trivial
  · exact (firesOnce_destroy_iff hi hx h).trans (hi.storageRight_iff hx).symm

/-- **Every callable is invoked once, by the last guard of its chain, exactly if** the storages the
guards were moved into were right. -/
theorem firesOnce_iff_storageRight (as : List Action) :
    system.Always FiresOnce {} as ↔ system.Meets StorageRight {} as := by
  have h0 : Sound {} := sound_inductive.init _ rfl
  constructor
  · intro h
    refine System.Meets.of_always (fun s a s' hs hi hi' => ?_) (h.and (sound_inductive.always h0))
    exact (hi.2.firesOnce_step_iff hi.1 hs).mp hi'.1
  · intro h
    have hk : system.Keeps StorageRight fun s => Sound s ∧ FiresOnce s := by
      rintro s a s' ⟨hi, hf⟩ hc hs
      exact ⟨sound_inductive.step s a s' hi hs, (hi.firesOnce_step_iff hf hs).mpr hc⟩
    exact (hk.always ⟨h0, fun _ => rfl⟩ h).mono fun _ => And.right

/-- **A guard moved into a storage that held `false`** does not invoke the callable. -/
theorem not_firesOnce_moved : ¬ ∀ as, system.Always FiresOnce {} as := by
  intro h
  have := (h [.construct, .move 0 false, .destroy 0, .destroy 1]).last rfl 0
  exact absurd this (by decide)

end Dpp.ScopeGuard
