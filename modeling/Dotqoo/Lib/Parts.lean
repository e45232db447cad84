import Dotqoo.Lib.Runs

/-!
# A part of a system

A system whose steps do to one of its parts a step of that part, or nothing. Then a run
of the whole is a run of the part, over the events that the part has seen (`view_run`).
What holds in every run of the part holds in every run of the system; and each event of
the part is found in the run of the whole (`seen_getElem?_iff`).
-/

namespace Dotqoo.Lib

variable {σ τ ε δ : Type} {step : σ → ε → σ} {partStep : τ → δ → τ}

/-- The events of a part in a run of the whole. -/
def seen (step : σ → ε → σ) (event : σ → ε → Option δ) : σ → List ε → List δ
  | _, [] => []
  | s, e :: es => (event s e).toList ++ seen step event (step s e) es

/-- `view` is a part of the system: its own events are those that `event` finds. -/
def IsPart (step : σ → ε → σ) (partStep : τ → δ → τ) (view : σ → τ)
    (event : σ → ε → Option δ) : Prop :=
  ∀ s e, view (step s e) = run partStep (view s) (event s e).toList

variable {view : σ → τ} {event : σ → ε → Option δ}

theorem seen_append : ∀ (es fs : List ε) (s : σ),
    seen step event s (es ++ fs) = seen step event s es ++ seen step event (run step s es) fs
  | [], _, _ => rfl
  | e :: es, fs, s => by
    rw [List.cons_append, seen, seen, run_cons, seen_append es fs, List.append_assoc]

/-- **A run of the whole is one of the part.** -/
theorem IsPart.view_run (h : IsPart step partStep view event) : ∀ (es : List ε) (s : σ),
    view (run step s es) = run partStep (view s) (seen step event s es)
  | [], _ => rfl
  | e :: es, s => by
    rw [run_cons, h.view_run es, h s e, seen, run_append]

/-- **The event number `k`** of a part is found at one place of the run. -/
theorem seen_getElem?_iff : ∀ (es : List ε) {s : σ} {k : Nat} {d : δ},
    (seen step event s es)[k]? = some d ↔ ∃ before e after, es = before ++ e :: after ∧
      (seen step event s before).length = k ∧ event (run step s before) e = some d
  | [], s, k, d => by
    constructor
    · intro h
      cases h
    · rintro ⟨before, e, after, heq, -⟩
      cases before <;> cases heq
  | e :: es, s, k, d => by
    rw [seen]
    cases he : event s e with
    | none =>
      rw [Option.toList_none, List.nil_append, seen_getElem?_iff es]
      constructor
      · rintro ⟨before, e', after, rfl, hlen, hd⟩
        exact ⟨e :: before, e', after, rfl, by rw [seen, he]; exact hlen, hd⟩
      · rintro ⟨before, e', after, heq, hlen, hd⟩
        cases before with
        | nil =>
          cases heq
          cases he.symm.trans hd
        | cons x before =>
          cases heq
          rw [seen, he] at hlen
          exact ⟨before, e', after, rfl, hlen, hd⟩
    | some d₀ =>
      rw [Option.toList_some, List.singleton_append]
      cases k with
      | zero =>
        rw [List.getElem?_cons_zero]
        constructor
        · rintro h
          cases h
          exact ⟨[], e, es, rfl, rfl, he⟩
        · rintro ⟨before, e', after, heq, hlen, hd⟩
          cases before with
          | nil =>
            cases heq
            exact he.symm.trans hd
          | cons x before =>
            cases heq
            rw [seen, he] at hlen
            cases hlen
      | succ k =>
        rw [List.getElem?_cons_succ, seen_getElem?_iff es]
        constructor
        · rintro ⟨before, e', after, rfl, hlen, hd⟩
          refine ⟨e :: before, e', after, rfl, ?_, hd⟩
          rw [seen, he, ← hlen]
          rfl
        · rintro ⟨before, e', after, heq, hlen, hd⟩
          cases before with
          | nil => cases hlen
          | cons x before =>
            cases heq
            rw [seen, he] at hlen
            exact ⟨before, e', after, rfl, Nat.succ.inj hlen, hd⟩

/-- An invariant of the part. -/
theorem IsPart.invariant (h : IsPart step partStep view event) {I : τ → Prop}
    (hstep : ∀ t d, I t → I (partStep t d)) (es : List ε) {s : σ} (hI : I (view s)) :
    I (view (run step s es)) := by
  rw [h.view_run]
  exact run_invariant hstep _ hI

end Dotqoo.Lib
