import Mathlib.Tactic.Ring
import Dotqoo.Lib.Runs

/-!
# Timers

A machine does something again when a time has passed since it did it last, or when it is
asked to, and it keeps the reading of the clock at which it did so (`Timer`). So whatever it
does unasked comes the whole gap behind the time before, whoever asked for that
(`Timer.apart`). This needs nothing of the clock.

If the clock does not go back, a stretch of time has room for so many gaps only
(`Timer.count_mul_le`).
-/

namespace Dotqoo.Lib

variable {σ ε : Type}

/-- One time at which the thing is done. -/
structure Firing where
  asked : Bool
  t : Int
  deriving DecidableEq, Repr

/-- `fire` says whether a step does the thing, `last` is when it was done last, and `gap` is
what has to lie between, in the states of an invariant. -/
structure Timer (step : σ → ε → σ) (readings : ε → List Int) (I : σ → Prop) (last : σ → Int)
    (fire : σ → ε → Option Firing) (gap : Int) : Prop where
  keeps : ∀ s e, I s → I (step s e)
  reading : ∀ s e f, fire s e = some f → f.t ∈ readings e
  fired : ∀ s e f, I s → fire s e = some f →
    last (step s e) = f.t ∧ (f.asked = false → last s + gap ≤ f.t)
  idle : ∀ s e, I s → fire s e = none → last (step s e) = last s

/-- What a run does, in order. -/
def firings (step : σ → ε → σ) (fire : σ → ε → Option Firing) : σ → List ε → List Firing
  | _, [] => []
  | s, e :: es => (fire s e).toList ++ firings step fire (step s e) es

/-- What is done unasked comes a gap behind what is before it. -/
def Apart (gap : Int) : Int → List Firing → Prop
  | _, [] => True
  | last, f :: fs => (f.asked = false → last + gap ≤ f.t) ∧ Apart gap f.t fs

/-- How often the thing is done unasked. -/
def unasked (fs : List Firing) : Nat := fs.countP fun f => !f.asked

namespace Timer

variable {step : σ → ε → σ} {readings : ε → List Int} {I : σ → Prop} {last : σ → Int}
  {fire : σ → ε → Option Firing} {gap : Int} (h : Timer step readings I last fire gap)

include h

theorem apart : ∀ (es : List ε) {s : σ}, I s → Apart gap (last s) (firings step fire s es)
  | [], _, _ => trivial
  | e :: es, s, hI => by
    have hrest := apart es (h.keeps s e hI)
    rw [firings]
    cases hf : fire s e with
    | none =>
      rw [h.idle s e hI hf] at hrest
      exact hrest
    | some f =>
      obtain ⟨hlast, hgap⟩ := h.fired s e f hI hf
      rw [hlast] at hrest
      exact ⟨hgap, hrest⟩

/-- **A stretch of time has room for so many gaps.** -/
theorem count_mul_le (hi : Int) : ∀ (es : List ε) {s : σ}, I s →
    (last s :: es.flatMap readings).Pairwise (· ≤ ·) →
    (∀ r ∈ last s :: es.flatMap readings, r ≤ hi) →
      (unasked (firings step fire s es) : Int) * gap ≤ hi - last s
  | [], s, _, _, hhi => by
    have hle := hhi (last s) List.mem_cons_self
    simp only [firings, unasked, List.countP_nil, Nat.cast_zero, zero_mul]
    omega
  | e :: es, s, hI, hordered, hhi => by
    rw [List.flatMap_cons] at hordered hhi
    have hrest := (List.pairwise_cons.mp hordered).2
    rw [firings]
    cases hf : fire s e with
    | none =>
      have ih := count_mul_le hi es (h.keeps s e hI)
      rw [h.idle s e hI hf] at ih
      refine ih (hordered.sublist ?_) fun r hr => hhi r ?_
      · exact (List.sublist_append_right _ _).cons_cons _
      · rcases List.mem_cons.mp hr with rfl | hr
        · exact List.mem_cons_self
        · exact List.mem_cons_of_mem _ (List.mem_append_right _ hr)
    | some f =>
      obtain ⟨hlast, hgap⟩ := h.fired s e f hI hf
      have hreading := h.reading s e f hf
      have ih := count_mul_le hi es (h.keeps s e hI)
      rw [hlast] at ih
      have hbound := ih
        (List.pairwise_cons.mpr ⟨fun r hr => (List.pairwise_append.mp hrest).2.2 f.t hreading r hr,
          (List.pairwise_append.mp hrest).2.1⟩)
        fun r hr => by
          rcases List.mem_cons.mp hr with rfl | hr
          · exact hhi _ (List.mem_cons_of_mem _ (List.mem_append_left _ hreading))
          · exact hhi r (List.mem_cons_of_mem _ (List.mem_append_right _ hr))
      have hle : last s ≤ f.t :=
        (List.pairwise_cons.mp hordered).1 f.t (List.mem_append_left _ hreading)
      rw [Option.toList_some, List.singleton_append, unasked, List.countP_cons]
      rw [unasked] at hbound
      by_cases hasked : f.asked = true
      · simp only [hasked, Bool.not_true, Bool.false_eq_true, if_false, Nat.add_zero]
        omega
      · have hnot : f.asked = false := by simpa using hasked
        have := hgap hnot
        simp only [hnot, Bool.not_false, if_true, Nat.cast_add, Nat.cast_one, add_mul, one_mul]
        omega

end Timer

end Dotqoo.Lib
