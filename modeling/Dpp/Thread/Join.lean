import Dpp.Thread.Steps

/-!
# The destructor joins

`~Thread` waits for the thread `m_threadObject` stands for, so it joins every created thread as
long as no thread is abandoned when it looks: left without a reference by `Start`, or handed over
to a wait call, which may have timed out or may still be waiting.

* `Joined`: after `~Thread` in a caller no created thread has an access to the object left.
* `DtorsAlone`: `~Thread` finds no abandoned thread.
* **`joined_of_dtorsAlone`**.
-/

namespace Dpp.Thread

open Lib

variable {C R A : Type}

/-- Once `~Thread` has finished in a caller, no created thread has an access to make. -/
def Joined (s : State C R A) : Prop :=
  ∀ c, s.dtor = .destroyed (.caller c) → ∀ k, ¬ (s.thread k).point.accessing

/-- `~Thread` in a caller finds no abandoned thread. -/
def DtorsAlone (s : State C R A) : Action C R A → Prop
  | .wait (.caller _) .dtor => ∀ k, ¬ Abandoned s k
  | _ => True

/-- What a run keeps whose destructors find no abandoned thread: while a caller is in `~Thread`,
only the thread it waits for has accesses to make. -/
structure Joining (s : State C R A) : Prop where
  tracked : Tracked s
  frames : ∀ t k, s.frame t = .wait .dtor k ∨ s.frame t = .dereference .dtor k →
    s.dtor = .destroying t
  waiting : ∀ c k, s.frame (.caller c) = .wait .dtor k →
    ∀ j, (s.thread j).point.accessing → j = k
  waited : ∀ c k, s.frame (.caller c) = .dereference .dtor k →
    ∀ j, ¬ (s.thread j).point.accessing
  joined : Joined s

section Steps

variable {s s' : State C R A}

/-- A step outside the wait calls. -/
theorem Joining.other (hi : Joining s) (ht : Tracked s') (hf : s'.frame = s.frame)
    (hd : s'.dtor = s.dtor)
    (ha : s.dtor = .alive ∨ ∀ j, (s'.thread j).point.accessing → (s.thread j).point.accessing) :
    Joining s' := by
  have hacc : s.dtor ≠ .alive → ∀ j, (s'.thread j).point.accessing →
      (s.thread j).point.accessing := fun h => ha.resolve_left h
  have hne : ∀ t k, s.frame t = .wait .dtor k ∨ s.frame t = .dereference .dtor k →
      s.dtor ≠ .alive := fun t k h => by rw [hi.frames t k h]; nofun
  refine ⟨ht, fun t k h => ?_, fun c k h j hj => ?_, fun c k h j hj => ?_, fun c h j hj => ?_⟩
  · rw [hd]
    exact hi.frames t k (hf ▸ h)
  · rw [hf] at h
    exact hi.waiting c k h j (hacc (hne _ k (.inl h)) j hj)
  · rw [hf] at h
    exact hi.waited c k h j (hacc (hne _ k (.inr h)) j hj)
  · rw [hd] at h
    exact hi.joined c h j (hacc (by rw [h]; nofun) j hj)

variable [DecidableEq C]

/-- A call of `t` returns; if it was `~Thread` in a caller, it has joined. -/
theorem Joining.returns (hi : Joining s) {t : Tid C} {call : WaitCall} (hw : Returns s s' t call)
    (ht : Tracked s') (hc : call ≠ .dtor ∨ s.dtor = .alive ∨ s.dtor = .destroying t)
    (hj : ∀ c, t = .caller c → call = .dtor → ∀ j, ¬ (s.thread j).point.accessing) :
    Joining s' := by
  have hacc : ∀ j, (s'.thread j).point.accessing → (s.thread j).point.accessing := fun j =>
    (hw.thread j).accessing
  have hfr : ∀ u x, s'.frame u = x → x ≠ .idle → u ≠ t ∧ s.frame u = x := fun u x hu hx =>
    (update_cases hw.frame hu).resolve_left fun h => hx h.2
  refine ⟨ht, fun u k h => ?_, fun c k h j hj' => ?_, fun c k h j hj' => ?_,
    fun c h j hj' => ?_⟩
  · obtain ⟨hut, hs⟩ : u ≠ t ∧ (s.frame u = .wait .dtor k ∨ s.frame u = .dereference .dtor k) := by
      rcases h with h | h
      · exact ⟨(hfr u _ h nofun).1, .inl (hfr u _ h nofun).2⟩
      · exact ⟨(hfr u _ h nofun).1, .inr (hfr u _ h nofun).2⟩
    have hdu := hi.frames u k hs
    rw [hw.dtor]
    split_ifs with hcall
    · -- two destructors would be running
      rw [hdu] at hc
      rcases hc with hc | hc | hc
      · exact absurd hcall hc
      · cases hc
      · exact absurd (Dtor.destroying.inj hc) hut
    · exact hdu
  · exact hi.waiting c k (hfr _ _ h nofun).2 j (hacc j hj')
  · exact hi.waited c k (hfr _ _ h nofun).2 j (hacc j hj')
  · rw [hw.dtor] at h
    split_ifs at h with hcall
    · exact hj c (Dtor.destroyed.inj h) hcall j (hacc j hj')
    · exact hi.joined c h j (hacc j hj')

theorem Joining.wait (hi : Joining s) {t : Tid C} {call : WaitCall} (hm : s.mayWait t call)
    (hc : DtorsAlone s (.wait t call)) (ht : Tracked (s.wait t call)) :
    Joining (s.wait t call) := by
  obtain ⟨-, hd⟩ := mayWait_alive hm
  -- no destructor is running yet
  have hnone : ∀ u k, ¬ (s.frame u = .wait .dtor k ∨ s.frame u = .dereference .dtor k) :=
    fun u k h => by
      have := hi.frames u k h
      rw [hd] at this
      cases this
  have hobj : ∀ c, t = .caller c → call = .dtor → ∀ j, (s.thread j).point.accessing →
      s.obj.threadObject = some j := by
    rintro c rfl rfl j hj
    exact (hi.tracked.abandoned_or hj).resolve_left (hc j)
  rcases wait_cases s t call with ⟨hr, h⟩ | ⟨k, h⟩
  · refine hi.returns h ht (.inr (.inl hd)) fun c htc hcall j hj => ?_
    have hjo := hobj c htc hcall j hj
    rcases hr with hr | hr
    · exact hi.tracked.caller c (htc ▸ hr)
    · rw [hr] at hjo
      cases hjo
  · have hframe := fun u x (hx : (s.wait t call).frame u = x) => update_cases h.frame hx
    have hdtor : (s.wait t call).dtor = if call = .dtor then .destroying t else .alive := by
      rw [h.dtor, hd]
    refine ⟨ht, fun u j hu => ?_, fun c j hu i hj => ?_, fun c j hu i _ => ?_, fun c hx => ?_⟩
    · rcases hu with hu | hu
      · rcases hframe u _ hu with ⟨rfl, hx⟩ | ⟨-, hs⟩
        · cases hx
          rw [hdtor, if_pos rfl]
        · exact absurd (.inl hs) (hnone u j)
      · rcases hframe u _ hu with ⟨-, hx⟩ | ⟨-, hs⟩
        · cases hx
        · exact absurd (.inr hs) (hnone u j)
    · rcases hframe _ _ hu with ⟨htc, hx⟩ | ⟨-, hs⟩
      · cases hx
        have hj := hobj c htc.symm rfl i ((h.thread i).accessing hj)
        exact Option.some.inj (hj.symm.trans h.taken)
      · exact absurd (.inl hs) (hnone _ j)
    · rcases hframe _ _ hu with ⟨-, hx⟩ | ⟨-, hs⟩
      · cases hx
      · exact absurd (.inr hs) (hnone _ j)
    · rw [hdtor] at hx
      split_ifs at hx

/-- `KeWaitForSingleObject` returns. -/
theorem Joining.waitReturns (hi : Joining s) {t : Tid C} {call : WaitCall} {k : ℕ}
    {status : NtStatus} (hf : s.frame t = .wait call k)
    (hw : waitEnds call (s.thread k).point status) :
    Joining { s with frame := Function.update s.frame t (.dereference call k) } := by
  have hframe := fun u y (h : Function.update s.frame t (.dereference call k) u = y) =>
    update_cases rfl h
  refine ⟨⟨hi.tracked.fresh, hi.tracked.caller, hi.tracked.object⟩, fun u j hu => ?_,
    fun c j hu => ?_, fun c j hu i hj => ?_, hi.joined⟩
  · rcases hu with hu | hu
    · rcases hframe u _ hu with ⟨-, hx⟩ | ⟨-, hs⟩
      · cases hx
      · exact hi.frames u j (.inl hs)
    · rcases hframe u _ hu with ⟨rfl, hx⟩ | ⟨-, hs⟩
      · cases hx
        exact hi.frames u k (.inl hf)
      · exact hi.frames u j (.inr hs)
  · rcases hframe _ _ hu with ⟨-, hx⟩ | ⟨-, hs⟩
    · cases hx
    · exact hi.waiting c j hs
  · rcases hframe _ _ hu with ⟨rfl, hx⟩ | ⟨-, hs⟩
    · cases hx
      obtain rfl := hi.waiting c k hf i hj
      change (s.thread i).point.accessing at hj
      rw [ended_of_waitEnds hw rfl] at hj
      cases hj
    · exact hi.waited c j hs i hj

theorem Joining.step (hi : Joining s) {a : Action C R A} (hc : DtorsAlone s a)
    (h : step s a = some s') : Joining s' := by
  have ht := hi.tracked.step h
  cases a with
  | start t routine args k =>
    simp only [Thread.step, Option.ite_none_right_eq_some, Option.some.injEq] at h
    obtain ⟨hm, rfl⟩ := h
    exact hi.other ht (start_frame ..) (start_dtor ..) (.inl (mayCall_alive hm).2)
  | wait t call =>
    simp only [Thread.step, Option.ite_none_right_eq_some, Option.some.injEq] at h
    obtain ⟨hm, rfl⟩ := h
    exact hi.wait hm hc ht
  | waitReturns t status =>
    simp only [Thread.step] at h
    split at h
    · rename_i call k hf
      simp only [Option.ite_none_right_eq_some, Option.some.injEq] at h
      obtain ⟨hw, rfl⟩ := h
      exact hi.waitReturns hf hw
    · cases h
  | dereference t =>
    simp only [Thread.step] at h
    split at h
    · rename_i call k hf
      cases h
      refine hi.returns (returns_dereference s t call k) ht ?_ fun c htc hcall => ?_
      · by_cases hcall : call = .dtor
        · exact .inr (.inr (hi.frames t k (.inr (hcall ▸ hf))))
        · exact .inl hcall
      · exact hi.waited c k (by rw [← htc, hf, hcall])
    · cases h
  | thread k last =>
    have hfade := fades_interceptorThreadRoutine h
    obtain ⟨hf, hd⟩ := interceptorThreadRoutine_frame h
    exact hi.other ht hf hd (.inr fun j => (hfade.thread j).accessing)

end Steps

section Runs

variable [DecidableEq C]

theorem keeps_joining : (system C R A).Keeps DtorsAlone Joining := fun _ _ _ hi hc h =>
  hi.step hc h

/-- **`~Thread` joins in every run in which no thread is abandoned when it looks.** -/
theorem joined_of_dtorsAlone (as : List (Action C R A))
    (hc : (system C R A).Meets DtorsAlone {} as) : (system C R A).Always Joined {} as := by
  have h0 : Joining ({} : State C R A) := by
    refine ⟨tracked_inductive.init _ rfl, ?_, ?_, ?_, ?_⟩ <;> simp [Joined]
  exact (keeps_joining.always h0 hc).mono fun _ => Joining.joined

end Runs

/-- `~Thread` waits for the one created thread. -/
theorem joined_of_dtorsAlone_run :
    (system Unit Unit Unit).Always Joined {}
      [.start (.caller ()) () none {}, .thread 0 false, .wait (.caller ()) .dtor,
        .thread 0 false, .thread 0 false, .thread 0 false, .thread 0 false,
        .waitReturns (.caller ()) statusSuccess, .dereference (.caller ())] :=
  joined_of_dtorsAlone _ <|
    .cons rfl trivial <| .cons rfl trivial <|
    .cons rfl (fun
      | 0, h => h.2.elim Bool.noConfusion Bool.noConfusion
      | _ + 1, h => Bool.noConfusion h.1) <|
    .cons rfl trivial <| .cons rfl trivial <| .cons rfl trivial <| .cons rfl trivial <|
    .cons rfl trivial <| .cons rfl trivial .nil

/-- **A wait that times out takes `m_threadObject` along, and `~Thread` returns at once.** -/
theorem not_joined_timeout : ¬ ∀ as, (system Unit Unit Unit).Always Joined {} as := by
  intro h
  have := (h [.start (.caller ()) () none {}, .wait (.caller ()) (.waitForTermination 0),
    .waitReturns (.caller ()) statusTimeout, .dereference (.caller ()),
    .wait (.caller ()) .dtor]).last rfl
  have h0 : Point.accessing .entry := rfl
  exact this () rfl 0 h0

end Dpp.Thread
