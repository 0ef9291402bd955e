import Dpp.Thread.Model

/-!
# A failed `Start`

`Start` overwrites `m_routine` and `m_threadContext` before it creates the thread, and gives back
neither the thread, nor its handle, nor its reference when a later call fails.

* `Obj.AllOrNothing`: a failed `Start` changes nothing and leaves nothing, a successful one leaves
  one thread, its handle closed and its one reference in `m_threadObject`.
* **`allOrNothing_iff_startClean`**: so it is exactly if the call is refused, or
  `PsCreateSystemThread` fails and the stored routine and arguments are the ones passed, or all
  three calls succeed.
-/

namespace Dpp.Thread.Obj

variable {C R A : Type}

/-- What a call of `Start` on `o` has left: members, status and thread `new`. -/
structure AllOrNothing (o : Obj C R A) (new : ℕ)
    (r : Obj C R A × NtStatus × Option (KThread A)) : Prop where
  routine : ¬ ntSuccess r.2.1 → r.1.routine = o.routine
  threadContext : ¬ ntSuccess r.2.1 → r.1.threadContext = o.threadContext
  threadObject : ¬ ntSuccess r.2.1 → r.1.threadObject = o.threadObject
  noThread : ¬ ntSuccess r.2.1 → r.2.2 = none
  created : ntSuccess r.2.1 → ∃ th, r.2.2 = some th ∧ th.handle = false ∧ th.refs = 1 ∧
    r.1.threadObject = some new

/-- The call is refused, or creates no thread and finds its own arguments stored, or succeeds. -/
def StartClean (o : Obj C R A) (routine : R) (args : Option A) (k : StartOutcome) : Prop :=
  o.threadObject ≠ none ∨
    (¬ ntSuccess k.create ∧ o.routine = some routine ∧ o.threadContext = args) ∨
    (ntSuccess k.create ∧ ntSuccess k.reference ∧ ntSuccess k.close)

section Start

variable {o : Obj C R A} {new : ℕ} {routine : R} {args : Option A} {k : StartOutcome}

theorem start_refused (h : o.threadObject ≠ none) :
    o.start new routine args k = (o, statusUnsuccessful, none) := by
  unfold start
  rw [if_pos h]

theorem start_not_created (h : o.threadObject = none) (hc : ¬ ntSuccess k.create) :
    o.start new routine args k =
      ({ o with routine := some routine, threadContext := args }, k.create, none) := by
  unfold start
  rw [if_neg (not_not.mpr h)]
  simp only [hc, Bool.not_false, if_true]

theorem start_not_referenced (h : o.threadObject = none) (hc : ntSuccess k.create)
    (hr : ¬ ntSuccess k.reference) :
    o.start new routine args k =
      ({ o with routine := some routine, threadContext := args }, k.reference,
        some { point := .entry, args, handle := true }) := by
  unfold start
  rw [if_neg (not_not.mpr h)]
  simp [hc, hr]

theorem start_referenced (h : o.threadObject = none) (hc : ntSuccess k.create)
    (hr : ntSuccess k.reference) :
    o.start new routine args k =
      ({ o with routine := some routine, threadContext := args, threadObject := some new },
        k.close, some { point := .entry, args, handle := !ntSuccess k.close, refs := 1,
                        referenced := true }) := by
  unfold start
  rw [if_neg (not_not.mpr h)]
  simp [hc, hr]

end Start

theorem not_ntSuccess_statusUnsuccessful : ¬ ntSuccess statusUnsuccessful := by decide

variable (o : Obj C R A) (new : ℕ) (routine : R) (args : Option A) (k : StartOutcome)

section Outcomes

variable {o routine args k}

theorem allOrNothing_refused (h : o.threadObject ≠ none) :
    AllOrNothing o new (o.start new routine args k) := by
  rw [start_refused h]
  exact ⟨fun _ => rfl, fun _ => rfl, fun _ => rfl, fun _ => rfl,
    fun hk => absurd hk not_ntSuccess_statusUnsuccessful⟩

/-- A `Start` that creates no thread has overwritten the routine and the arguments. -/
theorem allOrNothing_not_created_iff (h : o.threadObject = none) (hc : ¬ ntSuccess k.create) :
    AllOrNothing o new (o.start new routine args k) ↔
      o.routine = some routine ∧ o.threadContext = args := by
  rw [start_not_created h hc]
  constructor
  · intro ha
    exact ⟨(ha.routine hc).symm, (ha.threadContext hc).symm⟩
  · rintro ⟨hr, ha⟩
    exact ⟨fun _ => hr.symm, fun _ => ha.symm, fun _ => rfl, fun _ => rfl, fun hk => absurd hk hc⟩

/-- Without the reference the thread runs, its handle is open and `m_threadObject` is null. -/
theorem not_allOrNothing_not_referenced (h : o.threadObject = none) (hc : ntSuccess k.create)
    (hr : ¬ ntSuccess k.reference) : ¬ AllOrNothing o new (o.start new routine args k) := by
  rw [start_not_referenced h hc hr]
  intro ha
  exact Option.some_ne_none _ (ha.noThread hr)

/-- With the reference it is up to `ZwClose`. -/
theorem allOrNothing_referenced_iff (h : o.threadObject = none) (hc : ntSuccess k.create)
    (hr : ntSuccess k.reference) :
    AllOrNothing o new (o.start new routine args k) ↔ ntSuccess k.close := by
  rw [start_referenced h hc hr]
  constructor
  · intro ha
    by_contra hk
    exact Option.some_ne_none _ (ha.noThread hk)
  · intro hk
    refine ⟨fun hn => absurd hk hn, fun hn => absurd hk hn, fun hn => absurd hk hn,
      fun hn => absurd hk hn, fun _ => ⟨_, rfl, ?_, rfl, rfl⟩⟩
    simp [hk]

end Outcomes

/-- **`Start` is all or nothing exactly if** it is refused, or fails to create the thread with the
arguments that are stored already, or none of its three calls fails. -/
theorem allOrNothing_iff_startClean :
    AllOrNothing o new (o.start new routine args k) ↔ StartClean o routine args k := by
  unfold StartClean
  by_cases ho : o.threadObject = none
  · by_cases hc : ntSuccess k.create
    · by_cases hr : ntSuccess k.reference
      · rw [allOrNothing_referenced_iff new ho hc hr]
        simp [ho, hc, hr]
      · have hn : ¬ AllOrNothing o new (o.start new routine args k) :=
          not_allOrNothing_not_referenced new ho hc hr
        simp [ho, hc, hr, hn]
    · rw [allOrNothing_not_created_iff new ho hc]
      simp [ho, hc]
  · simp [ho, allOrNothing_refused new ho]

/-- **A `Start` whose `ObReferenceObjectByHandle` fails** returns the failure and leaves the thread
running. -/
theorem not_allOrNothing_reference :
    ¬ ∀ (o : Obj Unit ℕ ℕ) new routine args k,
      AllOrNothing o new (o.start new routine args k) := by
  intro h
  have := (h {} 0 7 none { reference := statusUnsuccessful }).noThread (by decide)
  exact Option.some_ne_none _ this

end Dpp.Thread.Obj
