import Dpp.Thread.Steps
import Mathlib.Data.Set.Subsingleton

/-!
# At most one live routine

`Start` refuses while `m_threadObject` is set. That keeps two routines apart as long as no thread
is abandoned when `Start` finds it null: a wait call clears `m_threadObject` before the thread has
ended, and goes on without it when it times out.

* `OneLive`, `Refused`: one thread between its creation and its last access, which clears its own
  `m_threadId` and `m_threadContext`; a `Start` issued meanwhile is refused.
* `StartsAlone`: a `Start` that finds `m_threadObject` null finds no abandoned thread.
* **`oneLive_iff_startsAlone`**: a run keeps the first two exactly if its steps meet the third.
-/

namespace Dpp.Thread

open Lib

variable {C R A : Type}

/-- Between the two guard blocks of `InterceptorThreadRoutine`. -/
def Point.identified : Point → Bool
  | call | routine | epilogue => true
  | _ => false

theorem Point.accessing_of_identified {p : Point} (h : p.identified) : p.accessing := by
  cases p <;> simp_all [identified, accessing]

/-- At most one created thread is between its creation and its last access, and at its second
guard block the members are its own. -/
structure OneLive (s : State C R A) : Prop where
  one : {k | (s.thread k).point.accessing}.Subsingleton
  own : ∀ k, (s.thread k).point = .epilogue →
    s.obj.threadId = some (.created k) ∧ s.obj.threadContext = (s.thread k).args

/-- A `Start` issued while a thread has accesses to make changes nothing, whatever the kernel
would answer. -/
def Refused (s : State C R A) : Action C R A → Prop
  | .start _ routine args _ => (∃ k, (s.thread k).point.accessing) →
    ∀ k, s.obj.start s.next routine args k = (s.obj, statusUnsuccessful, none)
  | _ => True

/-- A `Start` that finds `m_threadObject` null finds no abandoned thread. -/
def StartsAlone (s : State C R A) : Action C R A → Prop
  | .start .. => s.obj.threadObject = none → ∀ k, ¬ Abandoned s k
  | _ => True

/-- What a run keeps whose `Start`s find no abandoned thread. -/
structure Alone (s : State C R A) : Prop where
  tracked : Tracked s
  one : {k | (s.thread k).point.accessing}.Subsingleton
  identified : ∀ k, (s.thread k).point.identified → s.obj.threadId = some (.created k)
  context : ∀ k, (s.thread k).point.accessing → (s.thread k).point ≠ .release →
    s.obj.threadContext = (s.thread k).args

section Steps

variable {s s' : State C R A} {a : Action C R A}

/-- **No thread has accesses to make when a `Start` gets past its check.** -/
theorem Tracked.not_accessing (hi : Tracked s) (hn : s.obj.threadObject = none)
    (ha : ∀ k, ¬ Abandoned s k) (k : ℕ) : ¬ (s.thread k).point.accessing := by
  intro hk
  rcases hi.abandoned_or hk with h | h
  · exact ha k h
  · rw [hn] at h; cases h

theorem Alone.start (hi : Alone s) {routine : R} {args : Option A} {k : StartOutcome}
    (hc : s.obj.threadObject = none → ∀ k, ¬ Abandoned s k)
    (ht : Tracked (s.start routine args k)) : Alone (s.start routine args k) := by
  rcases start_cases s routine args k with ⟨-, h⟩ | ⟨hn, o, h, -⟩ | ⟨hn, o, th, h, hp, ha, -, ho, -⟩
  · rw [h]; exact hi
  · rw [h] at ht ⊢
    have hna := hi.tracked.not_accessing hn (hc hn)
    exact ⟨ht, hi.one, fun j hj => absurd (Point.accessing_of_identified hj) (hna j),
      fun j hj => absurd hj (hna j)⟩
  · rw [h] at ht ⊢
    have hna := hi.tracked.not_accessing hn (hc hn)
    -- only the new thread has accesses to make
    have hnew : ∀ j, ((s.create o th).thread j).point.accessing → j = s.next := by
      intro j hj
      by_contra hne
      rw [create_thread, if_neg hne] at hj
      exact hna j hj
    refine ⟨ht, fun i hi j hj => (hnew i hi).trans (hnew j hj).symm, fun j hj => ?_,
      fun j hj _ => ?_⟩
    · obtain rfl := hnew j (Point.accessing_of_identified hj)
      rw [create_thread, if_pos rfl, hp] at hj
      cases hj
    · obtain rfl := hnew j hj
      rw [create_thread, if_pos rfl, create_obj, ho, ha]

theorem Alone.waits (hi : Alone s) (hw : Waits s s') (ht : Tracked s') : Alone s' := by
  have hf := hw.toFades
  have hsame : ∀ j, (s'.thread j).point.accessing → (s'.thread j).point = (s.thread j).point :=
    fun j hj => (hw.point j).resolve_right fun h => by rw [h.2] at hj; cases hj
  refine ⟨ht, hi.one.anti fun j hj => (hf.thread j).accessing hj, fun j hj => ?_, fun j hj hr => ?_⟩
  · rw [hw.threadId]
    exact hi.identified j (hsame j (Point.accessing_of_identified hj) ▸ hj)
  · rw [hw.threadContext, (hf.thread j).args]
    exact hi.context j ((hf.thread j).accessing hj) (hsame j hj ▸ hr)

/-- A step of the one thread that has accesses to make. -/
theorem Alone.move (hi : Alone s) {k : ℕ} {q : Point} (ht : Tracked s') (hf : Fades s s')
    (hk : (s.thread k).point.accessing) (hq : (s'.thread k).point = q)
    (hid : q.identified → s'.obj.threadId = some (.created k))
    (hctx : q.accessing → q ≠ .release → s'.obj.threadContext = (s.thread k).args) : Alone s' := by
  have hone : ∀ j, (s'.thread j).point.accessing → j = k := fun j hj =>
    hi.one ((hf.thread j).accessing hj) hk
  refine ⟨ht, fun i hi' j hj => (hone i hi').trans (hone j hj).symm, fun j hj => ?_,
    fun j hj hr => ?_⟩
  · obtain rfl := hone j (Point.accessing_of_identified hj)
    exact hid (hq ▸ hj)
  · obtain rfl := hone j hj
    rw [(hf.thread j).args]
    exact hctx (hq ▸ hj) (hq ▸ hr)

theorem Alone.thread (hi : Alone s) {k : ℕ} {last : Bool}
    (h : s.interceptorThreadRoutine k last = some s') (ht : Tracked s') : Alone s' := by
  have hf := fades_interceptorThreadRoutine h
  cases intercepts_of_step h with
  | identify hp =>
    have hk : (s.thread k).point.accessing := by rw [hp]; rfl
    exact hi.move ht hf hk (setPoint_point ..) (fun _ => rfl)
      fun _ _ => hi.context k hk (by rw [hp]; decide)
  | call hp =>
    have hk : (s.thread k).point.accessing := by rw [hp]; rfl
    exact hi.move ht hf hk (setPoint_point ..) (fun _ => hi.identified k (by rw [hp]; rfl))
      fun _ _ => hi.context k hk (by rw [hp]; decide)
  | returned hp =>
    have hk : (s.thread k).point.accessing := by rw [hp]; rfl
    exact hi.move ht hf hk (setPoint_point ..) (fun _ => hi.identified k (by rw [hp]; rfl))
      fun _ _ => hi.context k hk (by rw [hp]; decide)
  | clear hp =>
    have hk : (s.thread k).point.accessing := by rw [hp]; rfl
    refine hi.move ht hf hk (setPoint_point ..) (fun hid => ?_) fun hacc hr => ?_
    · split_ifs at hid <;> cases hid
    · split_ifs at hacc hr
      · exact absurd rfl hr
      · cases hacc
  | terminate hp =>
    -- the thread has made its last access; the others have not moved
    have hne : ∀ j, ((s.setPoint k .ended).thread j).point.accessing →
        (s.setPoint k .ended).thread j = s.thread j := by
      intro j hj
      rw [State.setPoint, modify_thread] at hj ⊢
      split_ifs at hj ⊢ with hjk
      · cases hj
      · rfl
    refine ⟨ht, hi.one.anti fun j hj => (hf.thread j).accessing hj, fun j hj => ?_,
      fun j hj hr => ?_⟩
    · exact hi.identified j (hne j (Point.accessing_of_identified hj) ▸ hj)
    · have h := hne j hj
      rw [h] at hj hr ⊢
      exact hi.context j hj hr

end Steps

section Runs

variable [DecidableEq C]

theorem alone_init : Alone ({} : State C R A) :=
  ⟨tracked_inductive.init _ rfl, by simp [Point.accessing], by simp [Point.identified],
    by simp [Point.accessing]⟩

theorem keeps_alone : (system C R A).Keeps StartsAlone Alone := by
  intro s a s' hi hc h
  have ht := hi.tracked.step h
  rcases action_cases h with ⟨t, routine, args, k, rfl, -, rfl⟩ | ⟨k, last, -, hk⟩ | hw
  · exact hi.start hc ht
  · exact hi.thread hk ht
  · exact hi.waits hw ht

omit [DecidableEq C] in
theorem Alone.oneLive {s : State C R A} (hi : Alone s) : OneLive s :=
  ⟨hi.one, fun k hk => ⟨hi.identified k (by rw [hk]; rfl),
    hi.context k (by rw [hk]; rfl) (by rw [hk]; nofun)⟩⟩

omit [DecidableEq C] in
theorem refused_of_startsAlone {s : State C R A} {a : Action C R A} (hi : Alone s)
    (hc : StartsAlone s a) : Refused s a := by
  cases a with
  | start t routine args k =>
    rintro ⟨j, hj⟩ k
    refine start_refused _ (fun hn => ?_) ..
    exact hi.tracked.not_accessing hn (hc hn) j hj
  | _ => trivial

omit [DecidableEq C] in
theorem startsAlone_of_refused {s : State C R A} {a : Action C R A} (hr : Refused s a) :
    StartsAlone s a := by
  cases a with
  | start t routine args k =>
    intro hn j hj
    -- the kernel could have created a thread
    have h := hr ⟨j, hj.1⟩ {}
    simp [Obj.start, hn, ntSuccess, statusSuccess] at h
  | _ => trivial

/-- **A run keeps at most one live routine and refuses every `Start` issued while one is live,
exactly if none of its `Start`s finds `m_threadObject` null and a thread abandoned.** -/
theorem oneLive_iff_startsAlone (as : List (Action C R A)) :
    (system C R A).Always OneLive {} as ∧ (system C R A).Meets Refused {} as ↔
      (system C R A).Meets StartsAlone {} as := by
  constructor
  · intro h
    exact h.2.mono fun _ _ => startsAlone_of_refused
  · intro h
    have h0 : Alone ({} : State C R A) := alone_init
    exact ⟨(keeps_alone.always h0 h).mono fun _ => Alone.oneLive,
      keeps_alone.meets (fun s a _ hi hc _ => refused_of_startsAlone hi hc) h0 h⟩

end Runs

/-- **A wait that times out lets a second `Start` create a second routine.** -/
theorem not_oneLive_timeout : ¬ ∀ as, (system Unit Unit Unit).Always OneLive {} as := by
  intro h
  have := (h [.start (.caller ()) () none {}, .thread 0 false,
    .wait (.caller ()) (.waitForTermination 0), .waitReturns (.caller ()) statusTimeout,
    .dereference (.caller ()), .start (.caller ()) () none {}]).last rfl
  have h0 : Point.accessing .call := rfl
  have h1 : Point.accessing .entry := rfl
  exact absurd (this.one (show 0 ∈ _ from h0) (show 1 ∈ _ from h1)) Nat.zero_ne_one

end Dpp.Thread
