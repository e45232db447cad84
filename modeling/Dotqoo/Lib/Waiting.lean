import Mathlib.Data.Fintype.Basic
import Mathlib.Logic.Function.Basic

/-!
# Threads at a condition variable

A thread has not come to the condition variable yet, waits at it, or has been woken. A
signal wakes some of the threads that wait, and at least one if there is one
(`Signals`); to the others it does nothing, and it is not remembered. So a signal is
heard exactly if somebody waits, and a thread that has once come there is either waiting
or awake (`exists_awake_of_signals`).
-/

namespace Dotqoo.Lib

/-- Where a thread is. -/
inductive Wait where
  | starting
  | waiting
  | awake
  deriving DecidableEq, Repr

variable {ω : Type}

/-- The threads of `who` that wait are woken. -/
def wakeUp (who : ω → Bool) (phase : ω → Wait) : ω → Wait := fun w =>
  if phase w = .waiting ∧ who w = true then .awake else phase w

/-- A signal may wake the threads of `who`. -/
def Signals (who : ω → Bool) (phase : ω → Wait) : Prop :=
  (∃ w, phase w = .waiting) → ∃ w, phase w = .waiting ∧ who w = true

instance [Fintype ω] (who : ω → Bool) (phase : ω → Wait) : Decidable (Signals who phase) :=
  inferInstanceAs (Decidable (_ → _))

theorem wakeUp_starting_iff {who : ω → Bool} {phase : ω → Wait} {w : ω} :
    wakeUp who phase w = .starting ↔ phase w = .starting := by
  unfold wakeUp
  split
  next h => simp [h.1]
  next => rfl

theorem wakeUp_awake {who : ω → Bool} {phase : ω → Wait} {w : ω} (h : phase w = .awake) :
    wakeUp who phase w = .awake := by
  unfold wakeUp
  rw [h]
  exact if_neg fun h => by cases h.1

/-- **A signal is heard** if a thread has come to the condition variable. -/
theorem exists_awake_of_signals {who : ω → Bool} {phase : ω → Wait} (h : Signals who phase)
    (hcome : ∃ w, phase w ≠ .starting) : ∃ w, wakeUp who phase w = .awake := by
  by_cases hwait : ∃ w, phase w = .waiting
  · obtain ⟨w, hw⟩ := h hwait
    exact ⟨w, if_pos hw⟩
  · obtain ⟨w, hw⟩ := hcome
    refine ⟨w, wakeUp_awake ?_⟩
    cases hphase : phase w with
    | starting => exact absurd hphase hw
    | waiting => exact absurd ⟨w, hphase⟩ hwait
    | awake => rfl

end Dotqoo.Lib
