import Mathlib.Init

/-!
# Runs of a deterministic machine, and what holds along them

A machine is a total step function `step : σ → ε → σ`; a run is a list of
events, applied from the left. Environment choices (a clock reading, the
outcome of a library call) are part of the event, so a property of every run is
a property for every event list.

Two ways to speak about a run: `Along step ok s es` says that every event meets
`ok` in the state it is applied to (an assumption on the environment, or the
condition that a bad branch is not taken), and `Throughout step P s es` says
that `P` holds in every state the run passes through, the first one included.
`run_invariant` and `Along.invariant` are the induction rules the rest of the
development uses.

A machine may also answer each event, and may fail. `runReplies` collects the
answers, and `runReplies_of_simulation` is the rule that a machine which matches
another one step by step answers a whole run as that one does, without failing.
-/

namespace Dotqoo.Lib

variable {σ ε : Type} {step : σ → ε → σ} {ok ok' : σ → ε → Prop}

/-- The state after a run. -/
def run (step : σ → ε → σ) (s : σ) (es : List ε) : σ := es.foldl step s

@[simp] theorem run_nil (s : σ) : run step s [] = s := rfl

@[simp] theorem run_cons (s : σ) (e : ε) (es : List ε) :
    run step s (e :: es) = run step (step s e) es := rfl

theorem run_append (s : σ) (es fs : List ε) :
    run step s (es ++ fs) = run step (run step s es) fs := by
  unfold run
  rw [List.foldl_append]

/-- Every event of the run meets `ok` in the state it is applied to. -/
def Along (step : σ → ε → σ) (ok : σ → ε → Prop) : σ → List ε → Prop
  | _, [] => True
  | s, e :: es => ok s e ∧ Along step ok (step s e) es

/-- `P` holds in every state of the run, from the first to the last. -/
def Throughout (step : σ → ε → σ) (P : σ → Prop) : σ → List ε → Prop
  | s, [] => P s
  | s, e :: es => P s ∧ Throughout step P (step s e) es

instance Along.decidable [∀ s e, Decidable (ok s e)] :
    ∀ (s : σ) (es : List ε), Decidable (Along step ok s es)
  | _, [] => isTrue trivial
  | s, e :: es =>
    have : Decidable (Along step ok (step s e) es) := Along.decidable (step s e) es
    inferInstanceAs (Decidable (ok s e ∧ Along step ok (step s e) es))

theorem Along.append : ∀ (es fs : List ε) (s : σ),
    Along step ok s (es ++ fs) ↔ Along step ok s es ∧ Along step ok (run step s es) fs := by
  intro es fs
  induction es with
  | nil => intro s; simp [Along]
  | cons e es ih =>
    intro s
    rw [List.cons_append, Along, ih, Along, run_cons, and_assoc]

theorem Along.and : ∀ {es : List ε} {s : σ}, Along step ok s es → Along step ok' s es →
    Along step (fun s e => ok s e ∧ ok' s e) s es
  | [], _, _, _ => trivial
  | _ :: _, _, ha, ha' => ⟨⟨ha.1, ha'.1⟩, Along.and ha.2 ha'.2⟩

/-- The invariant rule: what one `ok` step preserves, a whole `ok` run preserves. -/
theorem Along.invariant {I : σ → Prop} (hstep : ∀ s e, I s → ok s e → I (step s e)) :
    ∀ {es : List ε} {s : σ}, Along step ok s es → I s → I (run step s es) := by
  intro es
  induction es with
  | nil => intro s _ hI; exact hI
  | cons e es ih =>
    intro s ha hI
    rw [run_cons]
    exact ih ha.2 (hstep s e hI ha.1)

/-- What every step preserves, every run preserves. -/
theorem run_invariant {I : σ → Prop} (hstep : ∀ s e, I s → I (step s e)) :
    ∀ (es : List ε) {s : σ}, I s → I (run step s es) := by
  intro es
  induction es with
  | nil => intro s hI; exact hI
  | cons e es ih =>
    intro s hI
    rw [run_cons]
    exact ih (hstep s e hI)

theorem Throughout.first {P : σ → Prop} : ∀ {es : List ε} {s : σ},
    Throughout step P s es → P s
  | [], _, h => h
  | _ :: _, _, h => h.1

theorem Throughout.last {P : σ → Prop} : ∀ {es : List ε} {s : σ},
    Throughout step P s es → P (run step s es) := by
  intro es
  induction es with
  | nil => intro s h; exact h
  | cons e es ih => intro s h; exact ih h.2

/-- Where, under an invariant, `ok` is exactly what keeps `P`, a run keeps `P` exactly if
it is `ok`. -/
theorem throughout_iff_along_of_invariant {I P : σ → Prop} (hI : ∀ s e, I s → I (step s e))
    (hstep : ∀ s e, I s → P s → (P (step s e) ↔ ok s e)) :
    ∀ {es : List ε} {s : σ}, I s → P s → (Throughout step P s es ↔ Along step ok s es) := by
  intro es
  induction es with
  | nil => intro s _ hP; exact ⟨fun _ => trivial, fun _ => hP⟩
  | cons e es ih =>
    intro s hinv hP
    rw [Throughout, Along]
    constructor
    · intro h
      have hnext := h.2.first
      exact ⟨(hstep s e hinv hP).mp hnext, (ih (hI s e hinv) hnext).mp h.2⟩
    · intro h
      exact ⟨hP, (ih (hI s e hinv) ((hstep s e hinv hP).mpr h.1)).mpr h.2⟩

/-- The same without an invariant. -/
theorem throughout_iff_along {P : σ → Prop} (hstep : ∀ s e, P s → (P (step s e) ↔ ok s e))
    {es : List ε} {s : σ} (hP : P s) : Throughout step P s es ↔ Along step ok s es :=
  throughout_iff_along_of_invariant (I := fun _ => True) (fun _ _ _ => trivial)
    (fun s e _ => hstep s e) trivial hP

/-- A property that does not come back: a run keeps it exactly if every step of it does. -/
theorem run_iff_along {I P : σ → Prop} (hI : ∀ s e, I s → I (step s e))
    (hstep : ∀ s e, I s → (P (step s e) ↔ P s ∧ ok s e)) :
    ∀ {es : List ε} {s : σ}, I s → (P (run step s es) ↔ P s ∧ Along step ok s es) := by
  intro es
  induction es with
  | nil => intro s _; exact ⟨fun h => ⟨h, trivial⟩, fun h => h.1⟩
  | cons e es ih =>
    intro s hinv
    rw [run_cons, ih (hI s e hinv), hstep s e hinv, Along, and_assoc]

/-- What one event keeps as it is, the event any number of times does. -/
theorem run_replicate_iff {I P : σ → Prop} {e : ε} (hI : ∀ s, I s → I (step s e))
    (hstep : ∀ s, I s → (P (step s e) ↔ P s)) (n : Nat) :
    ∀ {s : σ}, I s → (P (run step s (List.replicate n e)) ↔ P s) := by
  induction n with
  | zero => intro s _; exact Iff.rfl
  | succ n ih =>
    intro s hinv
    rw [List.replicate_succ, run_cons, ih (hI s hinv), hstep s hinv]

/-! ## Machines that answer -/

section Replies

variable {τ ρ : Type}

/-- The end and the answers of a run, if no step of it fails. -/
def runReplies (step : σ → ε → Option (σ × ρ)) : σ → List ε → Option (σ × List ρ)
  | s, [] => some (s, [])
  | s, e :: es => do
    let (s, r) ← step s e
    let (s, rs) ← runReplies step s es
    some (s, r :: rs)

/-- The simulation rule: related states stay related, and answer alike. -/
theorem runReplies_of_simulation {impl : σ → ε → Option (σ × ρ)} {spec : τ → ε → Option (τ × ρ)}
    {R : σ → τ → Prop} (hstep : ∀ s t e, R s t →
      ∃ s' t' r, impl s e = some (s', r) ∧ spec t e = some (t', r) ∧ R s' t') :
    ∀ (es : List ε) {s : σ} {t : τ}, R s t → ∃ s' t' rs, runReplies impl s es = some (s', rs)
      ∧ runReplies spec t es = some (t', rs) ∧ R s' t' := by
  intro es
  induction es with
  | nil => intro s t h; exact ⟨s, t, [], rfl, rfl, h⟩
  | cons e es ih =>
    intro s t h
    obtain ⟨s₁, t₁, r, himpl, hspec, h₁⟩ := hstep s t e h
    obtain ⟨s', t', rs, himpl', hspec', h'⟩ := ih h₁
    refine ⟨s', t', r :: rs, ?_, ?_, h'⟩
    · simp [runReplies, himpl, himpl']
    · simp [runReplies, hspec, hspec']

end Replies

end Dotqoo.Lib
