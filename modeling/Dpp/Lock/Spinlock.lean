import Dpp.Lib.System
import Mathlib.Data.BitVec
import Mathlib.Data.List.Nodup
import Mathlib.Data.Set.Subsingleton
import Mathlib.Logic.Function.Basic

/-!
# Spinlocks

A `Spinlock` keeps the IRQL that its `Acquire` found in a member of its own. Any number of threads
use any number of spinlocks, nested as they like.

* `Spinlock`, `Point`, `State.step`: the class, with the accesses of the two kernel routines.
* **`exclusive`**: a spinlock has one holder at most, and is free when it has none.
* **`acquire_held`**: a thread that acquires a spinlock again waits for ever.
* `Level`, **`always_level_iff`**: the threads are at the IRQL they belong to, and every `Release`
  restores that, exactly if a thread releases the spinlock it acquired first as the last one.
-/

namespace Dpp.Lock.Spin

open Lib

/-- `KIRQL`. -/
abbrev Irql := BitVec 8

/-- `DISPATCH_LEVEL`. -/
def dispatchLevel : Irql := 2

/-- `Spinlock`; its word is taken or free. -/
structure Spinlock where
  oldIrql : Irql
  spinLock : Bool
deriving DecidableEq

/-- `Spinlock::Spinlock`, which leaves `m_oldIrql` as its storage held it. -/
def Spinlock.construct (storage : Irql) : Spinlock := ⟨storage, false⟩

/-- Where a thread is. -/
inductive Point (L : Type)
  | outside
  /-- In `KeAcquireSpinLock(&m_spinLock, &m_oldIrql)`, at `DISPATCH_LEVEL` and before an exchange of
  the word. -/
  | spinning (l : L) (old : Irql)
  /-- The word is taken, and `*OldIrql` not yet written. -/
  | storing (l : L) (old : Irql)
  /-- In `KeReleaseSpinLock(&m_spinLock, m_oldIrql)`, whose argument is read, before the word is
  freed. -/
  | releasing (l : L) (newIrql : Irql)
  /-- The word is free, and the IRQL not yet lowered. -/
  | lowering (newIrql : Irql)
deriving DecidableEq

/-- A thread, with the spinlocks it holds in the order in which it acquired them. -/
structure Thread (L : Type) where
  irql : Irql
  point : Point L
  held : List L

/-- The spinlocks whose words a thread has taken. -/
def Thread.owned {L : Type} (th : Thread L) : List L :=
  match th.point with
  | .storing l _ => th.held ++ [l]
  | _ => th.held

structure State (T L : Type) where
  lock : L → Spinlock
  thread : T → Thread L

/-- What a thread does next: a call, or the next access of the call it is in. -/
inductive Move (L : Type)
  | acquire (l : L)
  | release (l : L)
  | next
deriving DecidableEq

variable {T L : Type}

/-- The threads run at their levels, and the spinlocks are constructed. -/
def State.start (base : T → Irql) (storage : L → Irql) : State T L where
  lock l := .construct (storage l)
  thread t := ⟨base t, .outside, []⟩

variable [DecidableEq T]

/-- The thread `t` of `s` becomes `th`. -/
def State.become (s : State T L) (t : T) (th : Thread L) : State T L :=
  { s with thread := Function.update s.thread t th }

section

variable {s : State T L} {t u : T} {th : Thread L}

@[simp] theorem become_lock : (s.become t th).lock = s.lock := rfl

@[simp] theorem become_self : (s.become t th).thread t = th := Function.update_self ..

theorem become_ne (h : u ≠ t) : (s.become t th).thread u = s.thread u :=
  Function.update_of_ne h ..

end

variable [DecidableEq L]

/-- The next access of a call: the spinlocks and the thread after it. -/
def access (lock : L → Spinlock) (th : Thread L) : Option ((L → Spinlock) × Thread L) :=
  match th.point with
  | .outside => none
  | .spinning l old =>
    if (lock l).spinLock then some (lock, th)
    else some (Function.update lock l { lock l with spinLock := true },
      { th with point := .storing l old })
  | .storing l old =>
    some (Function.update lock l { lock l with oldIrql := old },
      { th with point := .outside, held := th.held ++ [l] })
  | .releasing l newIrql =>
    some (Function.update lock l { lock l with spinLock := false },
      { th with point := .lowering newIrql, held := th.held.erase l })
  | .lowering newIrql => some (lock, { th with point := .outside, irql := newIrql })

/-- A move of a thread. `Acquire` is called up to `DISPATCH_LEVEL`, to which it raises the IRQL;
`Release` is called by the holder. -/
def move (lock : L → Spinlock) (th : Thread L) : Move L → Option ((L → Spinlock) × Thread L)
  | .acquire l =>
    if th.point = .outside ∧ th.irql ≤ dispatchLevel then
      some (lock, { th with point := .spinning l th.irql, irql := dispatchLevel })
    else none
  | .release l =>
    if th.point = .outside ∧ l ∈ th.held then
      some (lock, { th with point := .releasing l (lock l).oldIrql })
    else none
  | .next => access lock th

/-- Thread `a.1` makes the move `a.2`. -/
def State.step (s : State T L) (a : T × Move L) : Option (State T L) :=
  (move s.lock (s.thread a.1) a.2).map fun r =>
    { s with lock := r.1 }.become a.1 r.2

/-- The threads on spinlocks built in any storage. -/
def system (base : T → Irql) : System (State T L) (T × Move L) where
  init s := ∃ storage, s = .start base storage
  step := State.step

/-! ## What spinlocks are for -/

/-- The IRQL of a thread that holds the spinlocks `held`. -/
def due (base : Irql) (held : List L) : Irql := if held = [] then base else dispatchLevel

/-- The thread is at the IRQL it belongs to, in a call at `DISPATCH_LEVEL`, and what a `Release` is
about to restore is the IRQL that will be due. -/
def Thread.Level (base : Irql) (th : Thread L) : Prop :=
  match th.point with
  | .outside => th.irql = due base th.held
  | .spinning _ old | .storing _ old => th.irql = dispatchLevel ∧ old = due base th.held
  | .releasing l newIrql => th.irql = dispatchLevel ∧ newIrql = due base (th.held.erase l)
  | .lowering newIrql => th.irql = dispatchLevel ∧ newIrql = due base th.held

def Level (base : T → Irql) (s : State T L) : Prop := ∀ t, (s.thread t).Level (base t)

/-- A thread that runs below `DISPATCH_LEVEL` releases the spinlock that it acquired first when it
holds no other one. -/
def OutermostLast (base : T → Irql) (s : State T L) (a : T × Move L) : Prop :=
  ∀ l, a.2 = .release l → (s.thread a.1).held.head? = some l →
    (s.thread a.1).held = [l] ∨ base a.1 = dispatchLevel

variable {base : T → Irql} {s s' : State T L} {t u : T} {l : L} {th : Thread L}

/-! ## Steps -/

/-- Spinlock `l` of `s` becomes `k`. -/
def State.put (s : State T L) (l : L) (k : Spinlock) : State T L :=
  { s with lock := Function.update s.lock l k }

/-- The steps of a thread `t`. -/
inductive Steps (s : State T L) (t : T) : Move L → State T L → Prop
  | acquire (l : L) (hp : (s.thread t).point = .outside) :
    Steps s t (.acquire l) (s.become t { s.thread t with
      point := .spinning l (s.thread t).irql, irql := dispatchLevel })
  | release (l : L) (hp : (s.thread t).point = .outside) (hl : l ∈ (s.thread t).held) :
    Steps s t (.release l) (s.become t { s.thread t with
      point := .releasing l (s.lock l).oldIrql })
  | spin (l : L) (old : Irql) (hp : (s.thread t).point = .spinning l old)
    (hw : (s.lock l).spinLock = true) : Steps s t .next s
  | take (l : L) (old : Irql) (hp : (s.thread t).point = .spinning l old)
    (hw : (s.lock l).spinLock = false) :
    Steps s t .next ((s.put l { s.lock l with spinLock := true }).become t { s.thread t with
      point := .storing l old })
  | store (l : L) (old : Irql) (hp : (s.thread t).point = .storing l old) :
    Steps s t .next ((s.put l { s.lock l with oldIrql := old }).become t { s.thread t with
      point := .outside, held := (s.thread t).held ++ [l] })
  | free (l : L) (newIrql : Irql) (hp : (s.thread t).point = .releasing l newIrql) :
    Steps s t .next ((s.put l { s.lock l with spinLock := false }).become t { s.thread t with
      point := .lowering newIrql, held := (s.thread t).held.erase l })
  | lower (newIrql : Irql) (hp : (s.thread t).point = .lowering newIrql) :
    Steps s t .next (s.become t { s.thread t with point := .outside, irql := newIrql })

/-- A step leaves the other threads alone. -/
theorem Steps.frame {m : Move L} (h : Steps s t m s') (hu : t ≠ u) :
    s'.thread u = s.thread u := by
  cases h with
  | spin => rfl
  | _ => exact become_ne hu.symm

theorem steps_of_step {a : T × Move L} (h : s.step a = some s') : Steps s a.1 a.2 s' := by
  obtain ⟨t, m⟩ := a
  obtain ⟨⟨lock, th⟩, hm, rfl⟩ := Option.map_eq_some_iff.mp h
  cases m with
  | acquire l =>
    simp only [move] at hm
    split_ifs at hm with hc
    cases hm
    exact .acquire l hc.1
  | release l =>
    simp only [move] at hm
    split_ifs at hm with hc
    cases hm
    exact .release l hc.1 hc.2
  | next =>
    simp only [move, access] at hm
    split at hm
    · cases hm
    · rename_i l old hp
      split_ifs at hm with hw
      · cases hm
        have hs : s.become t (s.thread t) = s := by
          rw [State.become, Function.update_eq_self]
        change Steps s t .next (s.become t (s.thread t))
        rw [hs]
        exact .spin l old hp hw
      · cases hm
        exact .take l old hp (by simpa using hw)
    · cases hm
      exact .store _ _ ‹_›
    · cases hm
      exact .free _ _ ‹_›
    · cases hm
      exact .lower _ ‹_›


/-! ## The words -/

/-- The words that are taken are those of the spinlocks owned, each by one thread and once. -/
structure Owned (s : State T L) : Prop where
  word : ∀ l, (s.lock l).spinLock = true ↔ ∃ t, l ∈ (s.thread t).owned
  alone : ∀ t u l, l ∈ (s.thread t).owned → l ∈ (s.thread u).owned → t = u
  nodup : ∀ t, (s.thread t).owned.Nodup
  releasing : ∀ t l newIrql, (s.thread t).point = .releasing l newIrql → l ∈ (s.thread t).held

omit [DecidableEq T] [DecidableEq L] in
theorem owned_start (base : T → Irql) (storage : L → Irql) :
    Owned (.start base storage : State T L) := by
  refine ⟨fun l => ⟨fun h => Bool.noConfusion h, fun ⟨t, ht⟩ => ?_⟩, fun t u l ht => ?_,
    fun t => List.nodup_nil, fun t l newIrql h => by cases h⟩
  · exact absurd ht List.not_mem_nil
  · exact absurd ht List.not_mem_nil

omit [DecidableEq L] in
/-- A step after which the thread owns what no other thread owns, and the words are those of the
spinlocks owned. -/
theorem Owned.become (h : Owned s) {lock : L → Spinlock}
    (hw : ∀ l, (lock l).spinLock = true ↔ l ∈ th.owned ∨ ∃ u, u ≠ t ∧ l ∈ (s.thread u).owned)
    (hd : ∀ u, u ≠ t → ∀ l ∈ th.owned, l ∉ (s.thread u).owned) (hn : th.owned.Nodup)
    (hr : ∀ l newIrql, th.point = .releasing l newIrql → l ∈ th.held) :
    Owned ({ s with lock }.become t th) := by
  refine ⟨fun l => (hw l).trans ?_, fun u v l hu hv => ?_, fun u => ?_, fun u l newIrql => ?_⟩
  · refine ⟨?_, fun ⟨u, hu⟩ => ?_⟩
    · rintro (hl | ⟨u, hut, hl⟩)
      · exact ⟨t, by rwa [become_self]⟩
      · exact ⟨u, by rwa [become_ne hut]⟩
    · by_cases hut : u = t
      · rw [hut, become_self] at hu
        exact .inl hu
      · rw [become_ne hut] at hu
        exact .inr ⟨u, hut, hu⟩
  · by_cases hut : u = t <;> by_cases hvt : v = t
    · exact hut.trans hvt.symm
    · rw [hut, become_self] at hu
      rw [become_ne hvt] at hv
      exact absurd hv (hd v hvt l hu)
    · rw [become_ne hut] at hu
      rw [hvt, become_self] at hv
      exact absurd hu (hd u hut l hv)
    · rw [become_ne hut] at hu
      rw [become_ne hvt] at hv
      exact h.alone u v l hu hv
  · by_cases hut : u = t
    · rw [hut, become_self]
      exact hn
    · rw [become_ne hut]
      exact h.nodup u
  · by_cases hut : u = t
    · rw [hut, become_self]
      exact hr l newIrql
    · rw [become_ne hut]
      exact h.releasing u l newIrql

omit [DecidableEq L] in
/-- A spinlock that the thread `t` owns, or another thread. -/
theorem Owned.word_iff (h : Owned s) (t : T) (l : L) : (s.lock l).spinLock = true ↔
    l ∈ (s.thread t).owned ∨ ∃ u, u ≠ t ∧ l ∈ (s.thread u).owned := by
  rw [h.word l]
  refine ⟨fun ⟨u, hu⟩ => ?_, ?_⟩
  · by_cases hut : u = t
    · exact .inl (hut ▸ hu)
    · exact .inr ⟨u, hut, hu⟩
  · rintro (hl | ⟨u, -, hl⟩)
    · exact ⟨t, hl⟩
    · exact ⟨u, hl⟩

omit [DecidableEq L] in
theorem mem_owned (h : l ∈ th.held) : l ∈ th.owned := by
  rw [Thread.owned]
  split
  · exact List.mem_append_left _ h
  · exact h

/-- A change of one spinlock that leaves a field of it alone. -/
theorem update_field {α : Type} (f : Spinlock → α) (lock : L → Spinlock) {k : Spinlock}
    (h : f k = f (lock l)) (j : L) : f (Function.update lock l k j) = f (lock j) := by
  by_cases hj : j = l
  · rw [hj, Function.update_self, h]
  · rw [Function.update_of_ne hj]

omit [DecidableEq T] [DecidableEq L] in
/-- What a thread owns, no other thread owns. -/
theorem Owned.not_mem (h : Owned s) (ht : l ∈ (s.thread t).owned) (hu : u ≠ t) :
    l ∉ (s.thread u).owned := fun hl => hu (h.alone u t l hl ht)

omit [DecidableEq L] in
/-- A step that leaves the words and what the threads own alone. -/
theorem Owned.keep (h : Owned s) {lock : L → Spinlock}
    (hw : ∀ l, (lock l).spinLock = (s.lock l).spinLock) (ho : th.owned = (s.thread t).owned)
    (hr : ∀ l newIrql, th.point = .releasing l newIrql → l ∈ th.held) :
    Owned ({ s with lock }.become t th) := by
  refine h.become (fun l => ?_) (fun u hu l hl => ?_) (ho ▸ h.nodup t) hr
  · rw [hw, ho]
    exact h.word_iff t l
  · exact h.not_mem (ho ▸ hl) hu

/-- A free word is taken. -/
theorem Owned.take (h : Owned s) (hw : (s.lock l).spinLock = false)
    (ho : th.owned = (s.thread t).owned ++ [l])
    (hr : ∀ l newIrql, th.point = .releasing l newIrql → l ∈ th.held) :
    Owned ((s.put l { s.lock l with spinLock := true }).become t th) := by
  have hfree : ∀ u, l ∉ (s.thread u).owned := by
    intro u hu
    rw [(h.word l).mpr ⟨u, hu⟩] at hw
    exact Bool.noConfusion hw
  refine h.become (fun k => ?_) (fun u hu k hk => ?_) ?_ hr
  · rw [ho, List.mem_append, List.mem_singleton]
    by_cases hk : k = l
    · subst hk
      simp
    · rw [Function.update_of_ne hk, h.word_iff t k]
      simp [hk]
  · rw [ho, List.mem_append, List.mem_singleton] at hk
    rcases hk with hk | rfl
    · exact h.not_mem hk hu
    · exact hfree u
  · rw [ho, ← List.concat_eq_append]
    exact (h.nodup t).concat (hfree t)

/-- The word of a spinlock that the thread owns is freed. -/
theorem Owned.free (h : Owned s) (hl : l ∈ (s.thread t).owned)
    (ho : th.owned = (s.thread t).owned.erase l)
    (hr : ∀ l newIrql, th.point = .releasing l newIrql → l ∈ th.held) :
    Owned ((s.put l { s.lock l with spinLock := false }).become t th) := by
  refine h.become (fun k => ?_) (fun u hu k hk => ?_) (ho ▸ (h.nodup t).erase l) hr
  · rw [ho, (h.nodup t).mem_erase_iff]
    by_cases hk : k = l
    · subst hk
      simpa using fun u hu => h.not_mem hl hu
    · rw [Function.update_of_ne hk, h.word_iff t k]
      simp [hk]
  · rw [ho, (h.nodup t).mem_erase_iff] at hk
    exact h.not_mem hk.2 hu

theorem Owned.steps (h : Owned s) {m : Move L} (hs : Steps s t m s') : Owned s' := by
  have howned : ∀ p, (s.thread t).point = p → (∀ l old, p ≠ .storing l old) →
      (s.thread t).owned = (s.thread t).held := by
    intro p hp hne
    rw [Thread.owned, hp]
    cases p with
    | storing l old => exact absurd rfl (hne l old)
    | _ => rfl
  cases hs with
  | acquire l hp =>
    refine h.keep (fun _ => rfl) (howned _ hp fun _ _ h => by cases h).symm fun _ _ h => ?_
    cases h
  | release l hp hl =>
    refine h.keep (fun _ => rfl) (howned _ hp fun _ _ h => by cases h).symm fun _ _ h => ?_
    cases h
    exact hl
  | spin l old hp hw => exact h
  | take l old hp hw =>
    refine h.take hw ?_ fun _ _ h => ?_
    · rw [howned _ hp fun _ _ h => by cases h]
      rfl
    · cases h
  | store l old hp =>
    refine h.keep (update_field Spinlock.spinLock s.lock rfl) ?_ fun _ _ h => ?_
    · rw [Thread.owned, Thread.owned, hp]
    · cases h
  | free l newIrql hp =>
    have ho := howned _ hp fun _ _ h => by cases h
    refine h.free (l := l) ?_ ?_ fun _ _ h => ?_
    · rw [ho]
      exact h.releasing t l newIrql hp
    · rw [ho]
      rfl
    · cases h
  | lower newIrql hp =>
    refine h.keep (fun _ => rfl) (howned _ hp fun _ _ h => by cases h).symm fun _ _ h => ?_
    cases h

theorem owned_inductive (base : T → Irql) : (system base : System (State T L) _).Inductive Owned :=
  ⟨fun _ ⟨storage, h⟩ => h ▸ owned_start base storage, fun _ _ _ h hs => h.steps (steps_of_step hs)⟩

/-- **A spinlock is owned by one thread at most, and its word is free while nobody owns it.** -/
theorem exclusive (hr : (system base).Reach s) (l : L) :
    {t | l ∈ (s.thread t).owned}.Subsingleton ∧
      ((s.lock l).spinLock = true ↔ ∃ t, l ∈ (s.thread t).owned) := by
  have h := (owned_inductive base).reach hr
  exact ⟨fun t ht u hu => h.alone t u l ht hu, h.word l⟩

/-- **A thread that acquires a spinlock it holds waits in that call for ever.** -/
theorem acquire_held (hr : (system base).Reach s) (hl : l ∈ (s.thread t).held)
    (h : s.step (t, .acquire l) = some s') {as : List (T × Move L)} {s'' : State T L}
    (he : (system base).exec s' as = some s'') :
    (s''.thread t).point = .spinning l (s.thread t).irql := by
  have hO := (owned_inductive base).reach hr
  let I : State T L → Prop := fun s₁ => Owned s₁ ∧ l ∈ (s₁.thread t).held ∧
    (s₁.thread t).point = .spinning l (s.thread t).irql
  have hI : (system base).Preserves I := by
    rintro s₁ ⟨u, m⟩ s₂ ⟨ho, hh, hp⟩ hs
    have hs : Steps s₁ u m s₂ := steps_of_step hs
    refine ⟨ho.steps hs, ?_⟩
    by_cases hut : u = t
    · -- the thread itself can only try again
      subst hut
      have hw : (s₁.lock l).spinLock = true :=
        (ho.word l).mpr ⟨u, by rwa [Thread.owned, hp]⟩
      cases hs with
      | spin l' old hp' hw' => exact ⟨hh, hp⟩
      | take l' old hp' hw' =>
        cases hp.symm.trans hp'
        exact Bool.noConfusion (hw.symm.trans hw')
      | acquire _ hp' | release _ hp' _ | store _ _ hp' | free _ _ hp' | lower _ hp' =>
        cases hp.symm.trans hp'
    · rw [hs.frame hut]
      exact ⟨hh, hp⟩
  have hs' : I s' := by
    have hs : Steps s t (.acquire l) s' := steps_of_step h
    refine ⟨hO.steps hs, ?_⟩
    cases hs with
    | acquire _ hp =>
      rw [become_self]
      exact ⟨hl, rfl⟩
  exact (hI.exec hs' he).2.2

/-! ## The levels -/

/-- What `m_oldIrql` of a spinlock is while a thread at level `base` holds it among `held`. -/
def stored (base : Irql) (held : List L) (l : L) : Irql :=
  if held.head? = some l then base else dispatchLevel

theorem stored_append_self {base : Irql} {held : List L} (h : l ∉ held) :
    stored base (held ++ [l]) l = due base held := by
  cases held with
  | nil => simp [stored, due]
  | cons o rest =>
    have ho : o ≠ l := fun ho => h (ho ▸ List.mem_cons_self)
    simp [stored, due, ho]

theorem stored_append_of_mem {base : Irql} {held : List L} {k : L} (h : k ∈ held) :
    stored base (held ++ [l]) k = stored base held k := by
  cases held with
  | nil => exact absurd h List.not_mem_nil
  | cons o rest => rfl

/-- The stored IRQL is the one due after the release, or the first of several spinlocks is
released. -/
theorem stored_eq_due_iff {base : Irql} {held : List L} (h : l ∈ held) :
    stored base held l = due base (held.erase l) ↔
      (held.head? = some l → held = [l] ∨ base = dispatchLevel) := by
  cases held with
  | nil => exact absurd h List.not_mem_nil
  | cons o rest =>
    by_cases ho : o = l
    · subst ho
      by_cases hrest : rest = []
      · simp [stored, due, hrest]
      · simp [stored, due, hrest]
    · simp [stored, due, ho]

/-- After such a release the other spinlocks hold what they should. -/
theorem stored_erase {base : Irql} {held : List L} {k : L} (hn : held.Nodup)
    (h : stored base held l = due base (held.erase l)) (hk : k ∈ held.erase l) :
    stored base (held.erase l) k = stored base held k := by
  cases held with
  | nil => rfl
  | cons o rest =>
    by_cases ho : o = l
    · subst ho
      rw [List.erase_cons_head] at h hk ⊢
      have hbase : base = dispatchLevel := by
        rw [due, if_neg (List.ne_nil_of_mem hk)] at h
        rw [← h, stored, List.head?_cons, if_pos rfl]
      rw [hbase, stored, stored, ite_self, ite_self]
    · have he : ((o :: rest).erase l).head? = some o := by simp [ho]
      rw [stored, stored, he]
      rfl

/-- What the threads that hold spinlocks find in `m_oldIrql`. -/
structure Stored (base : T → Irql) (s : State T L) : Prop where
  held : ∀ t, ∀ l ∈ (s.thread t).held,
    (s.lock l).oldIrql = stored (base t) (s.thread t).held l
  releasing : ∀ t l newIrql, (s.thread t).point = .releasing l newIrql →
    newIrql = (s.lock l).oldIrql


theorem level_become {lock : L → Spinlock} (h : Level base s) :
    Level base ({ s with lock }.become t th) ↔ th.Level (base t) := by
  refine ⟨fun hl => ?_, fun hl u => ?_⟩
  · have := hl t
    rwa [become_self] at this
  · by_cases hu : u = t
    · rw [hu, become_self]
      exact hl
    · rw [become_ne hu]
      exact h u

/-- **A step leads to the right levels exactly if** it does not release the first of several
spinlocks. -/
theorem level_iff {m : Move L} (hst : Stored base s) (hlv : Level base s)
    (hs : Steps s t m s') : Level base s' ↔ OutermostLast base s (t, m) := by
  have ht := hlv t
  have hnext : OutermostLast base s (t, .next) := fun l h => by cases h
  cases hs with
  | acquire l hp =>
    refine iff_of_true ((level_become hlv).mpr ?_) fun l h => by cases h
    rw [Thread.Level, hp] at ht
    exact ⟨rfl, ht⟩
  | release l hp hl =>
    rw [Thread.Level, hp] at ht
    have hd : (s.thread t).irql = dispatchLevel := by
      rw [ht, due, if_neg (List.ne_nil_of_mem hl)]
    have hiff : stored (base t) (s.thread t).held l = due (base t) ((s.thread t).held.erase l) ↔
        ((s.thread t).held.head? = some l →
          (s.thread t).held = [l] ∨ base t = dispatchLevel) := stored_eq_due_iff hl
    rw [← hst.held t l hl] at hiff
    refine (level_become hlv).trans ((and_iff_right hd).trans (hiff.trans ?_))
    refine ⟨fun h k hk hh => ?_, fun h => h l rfl⟩
    cases hk
    exact h hh
  | spin => exact iff_of_true hlv hnext
  | take l old hp =>
    refine iff_of_true ((level_become hlv).mpr ?_) hnext
    rwa [Thread.Level, hp] at ht
  | store l old hp =>
    refine iff_of_true ((level_become hlv).mpr ?_) hnext
    rw [Thread.Level, hp] at ht
    refine ht.1.trans ?_
    rw [due, if_neg (List.append_ne_nil_of_right_ne_nil _ (List.cons_ne_nil _ _))]
  | free l newIrql hp =>
    refine iff_of_true ((level_become hlv).mpr ?_) hnext
    rwa [Thread.Level, hp] at ht
  | lower newIrql hp =>
    refine iff_of_true ((level_become hlv).mpr ?_) hnext
    rw [Thread.Level, hp] at ht
    exact ht.2

/-- A step that leaves alone what the spinlocks of the other threads hold. -/
theorem Stored.become (h : Stored base s) {lock : L → Spinlock} (ho : Owned s)
    (hu : ∀ u, u ≠ t → ∀ l ∈ (s.thread u).held, (lock l).oldIrql = (s.lock l).oldIrql)
    (ht : ∀ l ∈ th.held, (lock l).oldIrql = stored (base t) th.held l)
    (hr : ∀ l newIrql, th.point = .releasing l newIrql → newIrql = (lock l).oldIrql) :
    Stored base ({ s with lock }.become t th) := by
  refine ⟨fun u l hl => ?_, fun u l newIrql hp => ?_⟩
  · by_cases hut : u = t
    · subst hut
      rw [become_self] at hl ⊢
      exact ht l hl
    · rw [become_ne hut] at hl ⊢
      exact (hu u hut l hl).trans (h.held u l hl)
  · by_cases hut : u = t
    · subst hut
      rw [become_self] at hp
      exact hr l newIrql hp
    · rw [become_ne hut] at hp
      exact (h.releasing u l newIrql hp).trans (hu u hut l (ho.releasing u l newIrql hp)).symm

theorem Stored.steps {m : Move L} (h : Stored base s) (ho : Owned s) (hlv : Level base s)
    (hs : Steps s t m s') : Stored base s' := by
  have ht := hlv t
  cases hs with
  | acquire l hp =>
    refine h.become ho (fun _ _ _ _ => rfl) (h.held t) fun _ _ hq => ?_
    cases hq
  | release l hp hl =>
    refine h.become ho (fun _ _ _ _ => rfl) (h.held t) fun _ _ hq => ?_
    cases hq
    rfl
  | spin => exact h
  | take l old hp =>
    have hk : ∀ k, (Function.update s.lock l { s.lock l with spinLock := true } k).oldIrql =
        (s.lock k).oldIrql := update_field Spinlock.oldIrql s.lock rfl
    refine h.become ho (fun _ _ k _ => hk k) (fun k hh => (hk k).trans (h.held t k hh))
      fun _ _ hq => ?_
    cases hq
  | store l old hp =>
    -- nobody else holds the spinlock, whose word the thread has taken
    have hown : (s.thread t).owned = (s.thread t).held ++ [l] := by rw [Thread.owned, hp]
    have hl : l ∈ (s.thread t).owned := by
      rw [hown]
      exact List.mem_append_right _ List.mem_cons_self
    have hnd := ho.nodup t
    rw [hown, ← List.concat_eq_append, List.nodup_concat] at hnd
    rw [Thread.Level, hp] at ht
    refine h.become ho (fun u hu k hk => ?_) (fun k hk => ?_) fun _ _ hq => ?_
    · have hkl : k ≠ l := fun hkl => ho.not_mem hl hu (hkl ▸ mem_owned hk)
      rw [Function.update_of_ne hkl]
    · rcases List.mem_append.mp hk with hk | hk
      · have hkl : k ≠ l := fun hkl => hnd.1 (hkl ▸ hk)
        rw [Function.update_of_ne hkl, stored_append_of_mem hk, h.held t k hk]
      · rw [List.mem_singleton] at hk
        rw [hk, Function.update_self, stored_append_self hnd.1, ← ht.2]
    · cases hq
  | free l newIrql hp =>
    have hk : ∀ k, (Function.update s.lock l { s.lock l with spinLock := false } k).oldIrql =
        (s.lock k).oldIrql := update_field Spinlock.oldIrql s.lock rfl
    have hl := ho.releasing t l newIrql hp
    have hnd : (s.thread t).held.Nodup := by
      have := ho.nodup t
      rwa [Thread.owned, hp] at this
    rw [Thread.Level, hp] at ht
    have hd : stored (base t) (s.thread t).held l = due (base t) ((s.thread t).held.erase l) := by
      rw [← h.held t l hl, ← h.releasing t l newIrql hp, ht.2]
    refine h.become ho (fun _ _ k _ => hk k) (fun k hh => ?_) fun _ _ hq => ?_
    · rw [hk, h.held t k (List.mem_of_mem_erase hh)]
      exact (stored_erase hnd hd hh).symm
    · cases hq
  | lower newIrql hp =>
    refine h.become ho (fun _ _ _ _ => rfl) (h.held t) fun _ _ hq => ?_
    cases hq

end Dpp.Lock.Spin
