import Dpp.Driver.Wrappers
import Mathlib.Data.List.Count

/-!
# The list of exit functions

The nodes from the head of `atexit_list`, and from the cursor of the loop in `__dtors`, form a
chain. A function registered while the loop runs goes to the head, behind the cursor.

* `Chain`: the nodes a pointer leads to.
* `Walks s st lost`: `st` is the chain still to walk, newest first, and `lost` are the nodes that
  were registered behind the cursor; every registered node is called, ahead or lost, and freed,
  being called, ahead or lost.
* **`Walks.step`**: a step keeps this, and only a registration during the loop loses its node.
-/

namespace Dpp.Driver

open Lib

variable {F : Type}

/-! ## Chains -/

/-- The pointer `p` leads to the nodes `ks` and then to `NULL`. -/
def Chain (node : ℕ → Option (Node F)) : Option ℕ → List ℕ → Prop
  | p, [] => p = none
  | p, k :: ks => p = some k ∧ ∃ n, node k = some n ∧ Chain node n.next ks

section Chain

variable {node node' : ℕ → Option (Node F)} {p : Option ℕ} {ks : List ℕ}

theorem Chain.congr (hc : Chain node p ks) (h : ∀ k ∈ ks, node' k = node k) :
    Chain node' p ks := by
  induction ks generalizing p with
  | nil => exact hc
  | cons k ks ih =>
    obtain ⟨hp, n, hn, hc⟩ := hc
    refine ⟨hp, n, ?_, ih hc fun j hj => h j (List.mem_cons_of_mem k hj)⟩
    rw [h k List.mem_cons_self, hn]

theorem Chain.update (hc : Chain node p ks) {k : ℕ} (hk : k ∉ ks) (v : Option (Node F)) :
    Chain (Function.update node k v) p ks := by
  refine hc.congr fun j hj => Function.update_of_ne ?_ _ _
  rintro rfl
  exact hk hj

theorem Chain.eq_nil (hc : Chain node none ks) : ks = [] := by
  cases ks with
  | nil => rfl
  | cons k ks => exact absurd hc.1 (Option.some_ne_none k).symm

theorem Chain.eq_cons {k : ℕ} (hc : Chain node (some k) ks) :
    ∃ n js, ks = k :: js ∧ node k = some n ∧ Chain node n.next js := by
  cases ks with
  | nil => exact absurd hc (Option.some_ne_none k)
  | cons j js =>
    obtain ⟨hp, n, hn, hc⟩ := hc
    cases hp
    exact ⟨n, js, rfl, hn, hc⟩

end Chain

/-! ## The walk -/

/-- The node whose function the loop is calling. -/
def Walk.current : Walk → List ℕ
  | .node p => [p]
  | _ => []

namespace State

variable (s : State F)

/-- With `st` still to walk, the nodes are walked in the order in which they were linked when the
loop began. -/
def InLine (st : List ℕ) : Prop := Lifo.pops s.log ++ st = Lifo.firstStack s.log

/-- Where the nodes still to be called begin. -/
def ahead : Option ℕ :=
  match s.point.walk with
  | .before => s.atexitList
  | .test p => p
  | .node p | .advance p => (s.node p).bind Node.next
  | .after => none

/-- The lost nodes after the action. -/
def lostAfter (lost : List ℕ) : Action F → List ℕ
  | .atexit (some _) true => if s.point.walk = .before then lost else s.registered :: lost
  | _ => lost

end State

/-- A freed node is left alone until the loop has read its `next`. -/
def CursorKept (s : State F) : Action F → Prop
  | .overwrite k _ => s.point.walk ≠ .advance k
  | _ => True

/-- No function is registered in the loop. -/
def NoneRegistered (s : State F) : Action F → Prop
  | .atexit (some _) true => s.point.walk = .before
  | _ => True

structure Walks (s : State F) (st lost : List ℕ) : Prop where
  chain : Chain s.node s.ahead st
  calls : ∀ k, s.log.count (.pop k) + st.count k + lost.count k = if k < s.registered then 1 else 0
  nodes : ∀ k, s.frees.count k + s.point.walk.current.count k + st.count k + lost.count k =
    if k < s.registered then 1 else 0
  order : lost = [] → Lifo.replay [] s.log = some st
  early : s.point.walk = .before → lost = [] ∧ ∀ k, s.log.count (.pop k) = 0
  cleared : s.point.walk = .after → s.atexitList = none

variable {s s' : State F} {a : Action F} {st lost : List ℕ}

namespace Walks

theorem lt_of_mem (hw : Walks s st lost) {k : ℕ} (hk : k ∈ st) : k < s.registered := by
  have h := hw.calls k
  have := List.count_pos_iff.mpr hk
  by_contra hlt
  rw [if_neg hlt] at h
  omega

theorem not_mem_of_freed (hw : Walks s st lost) {k : ℕ} (hk : k ∈ s.frees) : k ∉ st := by
  intro hs
  have h := hw.nodes k
  have := List.count_pos_iff.mpr hk
  have := List.count_pos_iff.mpr hs
  split_ifs at h <;> omega

theorem current_lt (hw : Walks s st lost) {k : ℕ} (hk : s.point.walk = .node k) :
    k < s.registered := by
  have h := hw.nodes k
  rw [hk, Walk.current, List.count_singleton_self] at h
  by_contra hlt
  rw [if_neg hlt] at h
  omega

theorem current_not_freed (hw : Walks s st lost) {k : ℕ} (hk : s.point.walk = .node k) :
    k ∉ s.frees := by
  intro hf
  have h := hw.nodes k
  have := List.count_pos_iff.mpr hf
  rw [hk, Walk.current, List.count_singleton_self] at h
  split_ifs at h <;> omega

/-- A step that leaves the loop where it was and the nodes as they were. -/
theorem quiet (hw : Walks s st lost) {t : State F} (hp : t.point.walk = s.point.walk)
    (hh : t.atexitList = s.atexitList) (hn : t.node = s.node) (hr : t.registered = s.registered)
    (hl : t.log = s.log) (hf : t.frees = s.frees) : Walks t st lost := by
  have ha : t.ahead = s.ahead := by
    unfold State.ahead
    rw [hp, hh, hn]
  refine ⟨?_, fun k => ?_, fun k => ?_, ?_, ?_, ?_⟩
  · rw [ha, hn]
    exact hw.chain
  · rw [hl, hr]
    exact hw.calls k
  · rw [hf, hp, hr]
    exact hw.nodes k
  · rw [hl]
    exact hw.order
  · rw [hp, hl]
    exact hw.early
  · rw [hp, hh]
    exact hw.cleared

/-! ### The steps of the loop -/

theorem call (hw : Walks s st lost) {p : ℕ} {n : Node F} (hp : s.point = .dtors (some p))
    (hn : s.node p = some n) :
    ∃ js, st = p :: js ∧
      Walks { s with point := .exitFunc p n.func, log := s.log ++ [.pop p] } js lost := by
  have hc := hw.chain
  simp only [State.ahead, hp, Point.walk] at hc
  obtain ⟨m, js, rfl, hm, hc⟩ := hc.eq_cons
  obtain rfl : m = n := Option.some.inj (hm.symm.trans hn)
  refine ⟨js, rfl, ?_, fun k => ?_, fun k => ?_, fun hl => ?_, Walk.noConfusion, Walk.noConfusion⟩
  · simpa [State.ahead, Point.walk, hm] using hc
  · have := hw.calls k
    by_cases hk : p = k
    · subst hk
      simp only [List.count_append, List.count_cons_self, List.count_nil] at this ⊢
      omega
    · have hpop : Lifo.Event.pop p ≠ .pop k := fun h => hk (Lifo.Event.pop.inj h)
      simpa [List.count_append, List.count_cons, hk, hpop] using this
  · have := hw.nodes k
    simp only [hp, Point.walk, Walk.current, List.count_cons, List.count_nil] at this ⊢
    omega
  · exact Lifo.replay_pop (hw.order hl)

theorem dtorsEnd (hw : Walks s st lost) (hp : s.point = .dtors none) :
    Walks { s with point := .unloaded, atexitList := none } st lost := by
  have hc := hw.chain
  simp only [State.ahead, hp, Point.walk] at hc
  obtain rfl := hc.eq_nil
  refine ⟨rfl, hw.calls, fun k => ?_, hw.order, Walk.noConfusion, fun _ => rfl⟩
  have := hw.nodes k
  rw [hp] at this
  exact this

theorem free (hw : Walks s st lost) {p : ℕ} (hp : s.point = .free p) :
    Walks { s with point := .next p, frees := s.frees ++ [p] } st lost := by
  refine ⟨?_, hw.calls, fun k => ?_, hw.order, Walk.noConfusion, Walk.noConfusion⟩
  · have := hw.chain
    simp only [State.ahead, hp, Point.walk] at this
    exact this
  · have := hw.nodes k
    simp only [hp, Point.walk, Walk.current, List.count_append, List.count_nil] at this ⊢
    omega

theorem next (hw : Walks s st lost) {p : ℕ} {n : Node F} (hp : s.point = .next p)
    (hn : s.node p = some n) : Walks { s with point := .dtors n.next } st lost := by
  refine ⟨?_, hw.calls, fun k => ?_, hw.order, Walk.noConfusion, Walk.noConfusion⟩
  · have := hw.chain
    simp only [State.ahead, hp, Point.walk, hn, Option.bind_some] at this
    exact this
  · have := hw.nodes k
    rw [hp] at this
    exact this

theorem unloadReturns (hw : Walks s st lost) (hp : s.point = .driverUnload) :
    Walks { s with point := .dtors s.atexitList } st lost := by
  refine ⟨?_, hw.calls, fun k => ?_, hw.order, Walk.noConfusion, Walk.noConfusion⟩
  · have := hw.chain
    simp only [State.ahead, hp, Point.walk] at this
    exact this
  · have := hw.nodes k
    rw [hp] at this
    exact this

/-! ### The steps of the driver's code -/

theorem overwrite (hw : Walks s st lost) {k : ℕ} (n : Option (Node F)) (hf : k ∈ s.frees)
    (hk : s.point.walk ≠ .advance k) :
    Walks { s with node := Function.update s.node k n } st lost := by
  have ha : State.ahead { s with node := Function.update s.node k n } = s.ahead := by
    unfold State.ahead
    simp only
    split
    · rfl
    · rfl
    · rename_i p hp
      rw [Function.update_of_ne]
      rintro rfl
      exact hw.current_not_freed hp hf
    · rename_i p hp
      rw [Function.update_of_ne]
      rintro rfl
      exact hk hp
    · rfl
  refine ⟨?_, hw.calls, hw.nodes, hw.order, hw.early, hw.cleared⟩
  rw [ha]
  exact hw.chain.update (hw.not_mem_of_freed hf) n

/-- One more node is registered. -/
theorem count_registered {j k r : ℕ} (h : j = if k < r then 1 else 0) :
    j + List.count k [r] = if k < r + 1 then 1 else 0 := by
  rw [List.count_singleton, beq_eq_decide]
  by_cases hk : r = k
  · subst hk
    simp at h ⊢
    exact h
  · simp only [hk, decide_false, Bool.false_eq_true, if_false]
    split_ifs at h ⊢ <;> omega

theorem count_push (log : List (Lifo.Event ℕ)) (r k : ℕ) :
    (log ++ [Lifo.Event.push r]).count (Lifo.Event.pop k) = log.count (Lifo.Event.pop k) := by
  simp [List.count_append]

theorem register_before (hw : Walks s st lost) (func : F) (hb : s.point.walk = .before) :
    Walks (s.register func) (s.registered :: st) lost := by
  have hn : s.registered ∉ st := fun h => lt_irrefl _ (hw.lt_of_mem h)
  refine ⟨?_, fun k => ?_, fun k => ?_, fun hl => ?_, fun _ => ⟨(hw.early hb).1, fun k => ?_⟩,
    fun ha => ?_⟩
  · have hc := hw.chain
    simp only [State.ahead, hb] at hc
    have ha : (s.register func).ahead = some s.registered := by
      simp only [State.ahead, State.register, hb]
    rw [ha]
    exact ⟨rfl, { func, next := s.atexitList }, Function.update_self .., hc.update hn _⟩
  · refine Eq.trans ?_ (count_registered (hw.calls k))
    rw [State.register, count_push]
    simp only [List.count_cons, List.count_nil]
    omega
  · refine Eq.trans ?_ (count_registered (hw.nodes k))
    simp only [State.register, List.count_cons, List.count_nil]
    omega
  · exact Lifo.replay_push (hw.order hl)
  · rw [State.register, count_push]
    exact (hw.early hb).2 k
  · exact absurd (hb.symm.trans ha) Walk.noConfusion

/-- A function registered in the loop is behind the cursor. -/
theorem register_lost (hw : Walks s st lost) (func : F) {p : ℕ} {f : F}
    (hp : s.point = .exitFunc p f) : Walks (s.register func) st (s.registered :: lost) := by
  have hn : s.registered ∉ st := fun h => lt_irrefl _ (hw.lt_of_mem h)
  have hlt : p < s.registered := hw.current_lt (by rw [hp]; rfl)
  refine ⟨?_, fun k => ?_, fun k => ?_, fun hl => ?_, fun hb => ?_, fun ha => ?_⟩
  · have hc := hw.chain
    have ha : (s.register func).ahead = s.ahead := by
      simp only [State.ahead, State.register, hp, Point.walk]
      rw [Function.update_of_ne (by omega)]
    rw [ha]
    exact hc.update hn _
  · refine Eq.trans ?_ (count_registered (hw.calls k))
    rw [State.register, count_push]
    simp only [List.count_cons, List.count_nil]
    omega
  · refine Eq.trans ?_ (count_registered (hw.nodes k))
    simp only [State.register, List.count_cons, List.count_nil]
    omega
  · exact absurd hl (List.cons_ne_nil _ _)
  · rw [State.register, hp] at hb
    exact Walk.noConfusion hb
  · rw [State.register, hp] at ha
    exact Walk.noConfusion ha

end Walks

/-- Outside the constructors and the exit functions the loop has not begun. -/
theorem walk_of_hook (hh : s.point.hook) :
    s.point.walk = .before ∨ ∃ p f, s.point = .exitFunc p f := by
  cases hp : s.point with
  | ctor func rest | driverEntry | driverUnload | returned status => exact .inl rfl
  | exitFunc p f => exact .inr ⟨p, f, rfl⟩
  | ctors rest | resolve | dtors p | free p | next p | unloaded | dropped | bugCheck =>
    exact .inl (by rw [hp] at hh; exact Bool.noConfusion hh)

theorem resolve_walk (found : Routine → Bool) : (s.resolve found).point.walk = .before := by
  unfold State.resolve
  simp only
  split_ifs <;> rfl

theorem lostAfter_refuse {func : Option F} {alloc : Bool} (h : func = none ∨ alloc = false) :
    s.lostAfter lost (.atexit func alloc) = lost := by
  rcases h with rfl | rfl
  · rfl
  · cases func <;> rfl

/-! ## The order of the walk -/

section InLine

variable {js : List ℕ}

theorem State.InLine.call {p : ℕ} {t : State F} (hl : s.InLine (p :: js))
    (ht : t.log = s.log ++ [.pop p]) : t.InLine js := by
  unfold State.InLine
  rw [ht, Lifo.pops_pop, Lifo.firstStack_pop, List.append_assoc]
  exact hl

theorem State.InLine.register_before (hl : s.InLine st) (hw : Walks s st lost) (func : F)
    (hb : s.point.walk = .before) : (s.register func).InLine (s.registered :: st) := by
  have hpops : Lifo.pops s.log = [] := by
    refine List.eq_nil_iff_forall_not_mem.mpr fun k hk => ?_
    have hpos := List.count_pos_iff.mpr (Lifo.mem_pops.mp hk)
    rw [(hw.early hb).2 k] at hpos
    exact lt_irrefl _ hpos
  unfold State.InLine at hl ⊢
  rw [hpops, List.nil_append] at hl
  rw [State.register, Lifo.pops_push, Lifo.firstStack_push hpops, hpops, ← hl]
  rfl

/-- The node whose function runs has been called. -/
theorem Walks.current_popped (hw : Walks s st lost) {k : ℕ} (hk : s.point.walk = .node k) :
    .pop k ∈ s.log := by
  have hcalls := hw.calls k
  have hnodes := hw.nodes k
  rw [if_pos (hw.current_lt hk)] at hcalls hnodes
  rw [hk, Walk.current, List.count_singleton_self] at hnodes
  exact List.count_pos_iff.mp (by omega)

theorem State.InLine.register_lost (hl : s.InLine st) (hw : Walks s st lost) (func : F) {p : ℕ}
    (hp : s.point.walk = .node p) : (s.register func).InLine st := by
  unfold State.InLine at hl ⊢
  rw [State.register, Lifo.pops_push, Lifo.firstStack_push_of_pop (hw.current_popped hp)]
  exact hl

end InLine

/-- **A step keeps the walk in order**, if freed nodes are left alone until they are read. -/
theorem Walks.step (hw : Walks s st lost) (hf : Filled s) (hc : CursorKept s a)
    (h : Driver.step s a = some s') :
    ∃ st', Walks s' st' (s.lostAfter lost a) ∧ (s.InLine st → s'.InLine st') := by
  cases step_cases h with
  | ctor func rest hp | ctorsEnd hp | ctorReturns func rest status hp | entryReturns status hp
  | exitReturns p func status hp | unload status hp hs | drop status hp hs =>
    exact ⟨st, hw.quiet (by rw [hp]; rfl) rfl rfl rfl rfl rfl, id⟩
  | resolve found hp =>
    exact ⟨st, hw.quiet (by rw [hp]; exact resolve_walk found) rfl rfl rfl rfl rfl, id⟩
  | call p n hp hn =>
    obtain ⟨js, rfl, hw'⟩ := hw.call hp hn
    exact ⟨js, hw', fun hl => hl.call rfl⟩
  | dtorsEnd hp => exact ⟨st, hw.dtorsEnd hp, id⟩
  | free p hp hr hn => exact ⟨st, hw.free hp, id⟩
  | next p n hp hn => exact ⟨st, hw.next hp hn, id⟩
  | unloadReturns status hp => exact ⟨st, hw.unloadReturns hp, id⟩
  | register func hh =>
    rcases walk_of_hook hh with hb | ⟨p, f, hp⟩
    · rw [State.lostAfter, if_pos hb]
      exact ⟨_, hw.register_before func hb, fun hl => hl.register_before hw func hb⟩
    · rw [State.lostAfter, if_neg (by rw [hp]; exact Walk.noConfusion)]
      exact ⟨st, hw.register_lost func hp, fun hl => hl.register_lost hw func (by rw [hp]; rfl)⟩
  | refuse func alloc hh hr =>
    rw [lostAfter_refuse hr]
    exact ⟨st, hw, id⟩
  | enter w hh ht => exact ⟨st, hw, id⟩
  | crash w hh ht =>
    -- an exit function finds the whole table filled
    rcases walk_of_hook hh with hb | ⟨p, f, hp⟩
    · exact ⟨st, hw.quiet hb.symm rfl rfl rfl rfl rfl, id⟩
    · have := hf.resolved (by rw [hp]; rfl) w
      rw [ht] at this
      exact Bool.noConfusion this
  | overwrite k n hk => exact ⟨st, hw.overwrite n hk hc, id⟩

theorem walks_initial (ctorList : List F) : Walks (.initial ctorList) [] [] := by
  refine ⟨rfl, fun k => ?_, fun k => ?_, fun _ => rfl, fun _ => ⟨rfl, fun k => ?_⟩,
    Walk.noConfusion⟩
  all_goals simp [State.initial, Point.walk, Walk.current]

end Dpp.Driver
