import Dpp.Thread.Single

/-!
# A created thread that waits for itself

A wait call returns `STATUS_UNSUCCESSFUL` at once to the thread `m_threadId` names. The epilogue
of `InterceptorThreadRoutine` clears `m_threadId` before it drops `m_threadContext`; when that was
the last reference to `ThreadArgs` that own the object, `~Thread` runs in the created thread with
the check disarmed, and waits for the thread it runs in unless `m_threadObject` is null.

* `NoSelfWait`: every call of a created thread returns at once and leaves the members alone.
* `ReleasesTaken`: the epilogue drops the last reference only after a wait took `m_threadObject`.
* **`noSelfWait_of_releasesTaken`**.
-/

namespace Dpp.Thread

open Lib

variable {C R A : Type} [DecidableEq C]

/-- Wherever a created thread can call the object, a wait call returns `STATUS_UNSUCCESSFUL` and
leaves the members as they are; so no created thread is ever inside a wait call. -/
structure NoSelfWait (s : State C R A) : Prop where
  returns : ∀ k, (s.thread k).point.calling →
    s.obj.takeThreadObject (.created k) = (s.obj, .returns statusUnsuccessful)
  idle : ∀ k, s.frame (.created k) = .idle

omit [DecidableEq C] in
/-- The epilogue drops the last reference to the owner of the object only when `m_threadObject` is
null. -/
def ReleasesTaken (s : State C R A) : Action C R A → Prop
  | .thread k true => (s.thread k).point = .epilogue → s.obj.threadContext.isSome →
    s.obj.threadObject = none
  | _ => True

omit [DecidableEq C] in
/-- Both conditions on a step. -/
def SelfChecked (s : State C R A) (a : Action C R A) : Prop := StartsAlone s a ∧ ReleasesTaken s a

/-- What a run keeps whose steps are `SelfChecked`. -/
structure Checked (s : State C R A) : Prop where
  alone : Alone s
  released : ∀ k, (s.thread k).point = .release → s.obj.threadObject = none
  idle : ∀ k, s.frame (.created k) = .idle

theorem Checked.noSelfWait {s : State C R A} (hi : Checked s) : NoSelfWait s := by
  refine ⟨fun k hk => ?_, hi.idle⟩
  rcases takeThreadObject_cases s.obj (.created k) with ⟨-, h⟩ | ⟨j, hid, hj, -⟩
  · exact h
  · -- in the routine `m_threadId` is the thread's own; in the epilogue nothing is left to take
    cases hp : (s.thread k).point with
    | routine => exact absurd (hi.alone.identified k (by rw [hp]; rfl)) hid
    | release => rw [hi.released k hp] at hj; cases hj
    | _ => rw [hp] at hk; cases hk

section Steps

variable {s s' : State C R A} {a : Action C R A}

theorem Checked.released_step (hi : Checked s) (hc : SelfChecked s a) (h : step s a = some s')
    (k : ℕ) (hk : (s'.thread k).point = .release) : s'.obj.threadObject = none := by
  rcases action_cases h with ⟨t, routine, args, o, rfl, -, rfl⟩ | ⟨j, last, rfl, hj⟩ | hw
  · rcases start_cases s routine args o with ⟨-, hs⟩ | ⟨-, o, hs, ho⟩ | ⟨hn, o, th, hs, hp, -⟩
    · rw [hs] at hk ⊢; exact hi.released k hk
    · rw [hs]; exact ho
    · rw [hs, create_thread] at hk
      split_ifs at hk with hkn
      · rw [hp] at hk; cases hk
      · exact absurd (by rw [hk]; rfl) (hi.alone.tracked.not_accessing hn (hc.1 hn) k)
  · have hset : ∀ q, ((s.setPoint j q).thread k).point = .release →
        q = .release ∨ (s.thread k).point = .release := by
      intro q hq
      rw [State.setPoint, modify_thread] at hq
      split_ifs at hq
      · exact .inl hq
      · exact .inr hq
    cases intercepts_of_step hj with
    | clear hp =>
      rcases hset _ hk with hq | hq
      · split_ifs at hq with hl
        obtain ⟨rfl, hl⟩ : last = true ∧ s.obj.threadContext.isSome = true := by simpa using hl
        exact hc.2 hp hl
      · exact hi.released k hq
    | _ => exact hi.released k ((hset _ hk).resolve_left (by decide))
  · have hr : (s.thread k).point = .release := by
      rcases hw.point k with h | ⟨h, -⟩
      · exact h ▸ hk
      · exact h
    rcases hw.object with ⟨ho, -⟩ | ⟨-, -, ho, -⟩
    · rw [ho]; exact hi.released k hr
    · exact ho

/-- A wait call of a created thread ends in its guard block. -/
theorem Checked.idle_step (hi : Checked s) (h : step s a = some s') (k : ℕ) :
    s'.frame (.created k) = .idle := by
  rcases frame_cases h (.created k) with h | h | ⟨call, j, hm, hid, hj, -⟩ | ⟨call, j, hf, -⟩
  · rw [h, hi.idle k]
  · exact h
  · have hr := hi.noSelfWait.returns k (calling_of_mayWait hm)
    simp [Obj.takeThreadObject, hid, hj] at hr
  · rw [hi.idle k] at hf; cases hf

end Steps

theorem keeps_checked : (system C R A).Keeps SelfChecked Checked := fun s a s' hi hc h =>
  ⟨keeps_alone s a s' hi.alone hc.1 h, hi.released_step hc h, hi.idle_step h⟩

/-- **No created thread waits for itself in a run whose `Start`s find no abandoned thread and
whose epilogues drop the last reference only after a wait took `m_threadObject`.** -/
theorem noSelfWait_of_releasesTaken (as : List (Action C R A))
    (hc : (system C R A).Meets SelfChecked {} as) : (system C R A).Always NoSelfWait {} as := by
  have h0 : Checked ({} : State C R A) := ⟨alone_init, by simp, fun _ => rfl⟩
  exact (keeps_checked.always h0 hc).mono fun _ => Checked.noSelfWait

/-- The created thread waits for itself in its routine, and destroys the object in its epilogue
after a caller has taken `m_threadObject`. -/
theorem noSelfWait_of_releasesTaken_run :
    (system Unit Unit Unit).Always NoSelfWait {}
      [.start (.caller ()) () (some ()) {}, .thread 0 false, .thread 0 false,
        .wait (.created 0) (.waitForTermination 0),
        .wait (.caller ()) .waitForTerminationIndefinitely, .thread 0 false, .thread 0 true,
        .wait (.created 0) .dtor, .thread 0 false,
        .waitReturns (.caller ()) statusSuccess] :=
  noSelfWait_of_releasesTaken _ <|
    .cons rfl ⟨fun _ _ hk => Bool.noConfusion hk.1, trivial⟩ <|
    .cons rfl ⟨trivial, trivial⟩ <| .cons rfl ⟨trivial, trivial⟩ <|
    .cons rfl ⟨trivial, trivial⟩ <| .cons rfl ⟨trivial, trivial⟩ <|
    .cons rfl ⟨trivial, trivial⟩ <| .cons rfl ⟨trivial, fun _ _ => rfl⟩ <|
    .cons rfl ⟨trivial, trivial⟩ <| .cons rfl ⟨trivial, trivial⟩ <|
    .cons rfl ⟨trivial, trivial⟩ .nil

/-- **A created thread whose epilogue drops the last reference to the owner of the object waits
for itself.** -/
theorem not_noSelfWait_release : ¬ ∀ as, (system Unit Unit Unit).Always NoSelfWait {} as := by
  intro h
  have := (h [.start (.caller ()) () (some ()) {}, .thread 0 false, .thread 0 false,
    .thread 0 false, .thread 0 true, .wait (.created 0) .dtor]).last rfl
  have hw : Frame.wait .dtor 0 = .idle := this.idle 0
  cases hw

end Dpp.Thread
