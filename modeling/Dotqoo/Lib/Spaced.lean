import Mathlib.Data.List.Basic

/-!
# Lists whose marked elements are kept apart

A log is often required to show something between two entries of a kind: an
answer between two requests, a release between two acquisitions. `Spaced p q l`
says that wherever `p x y` holds of an entry `x` and a later entry `y`, some
entry `z` between them has `q x z`. Logs grow at the end, so the rules are about
`l ++ new`.
-/

namespace Dotqoo.Lib

variable {α : Type} {p q : α → α → Prop}

/-- Between any `x` and later `y` with `p x y` there is a `z` with `q x z`. -/
def Spaced (p q : α → α → Prop) (l : List α) : Prop :=
  ∀ l₁ x l₂ y l₃, l = l₁ ++ x :: (l₂ ++ y :: l₃) → p x y → ∃ z ∈ l₂, q x z

/-- The element `x` stands in the list with nothing behind it that `q` accepts. -/
def Open (q : α → α → Prop) (l : List α) (x : α) : Prop :=
  ∃ l₁ l₂, l = l₁ ++ x :: l₂ ∧ ∀ z ∈ l₂, ¬ q x z

theorem Spaced.nil : Spaced p q [] := by
  intro l₁ x l₂ y l₃ h
  exact absurd h (by simp)

/-- One more entry: what it is paired with is no longer open. -/
theorem Spaced.concat {l : List α} {y : α} (h : Spaced p q l)
    (hy : ∀ x, Open q l x → ¬ p x y) : Spaced p q (l ++ [y]) := by
  intro l₁ x l₂ y' l₃ hsplit hp
  rcases List.eq_nil_or_concat l₃ with hnil | ⟨l₃', w, hw⟩
  · -- the later entry is the new one
    subst hnil
    have hcut : l ++ [y] = (l₁ ++ x :: l₂) ++ [y'] := by simp [hsplit]
    obtain ⟨hl, hlast⟩ := List.append_inj' hcut rfl
    have hyy : y = y' := by simpa using hlast
    by_contra hno
    refine hy x ⟨l₁, l₂, hl, fun z hz hq => hno ⟨z, hz, hq⟩⟩ ?_
    rw [hyy]
    exact hp
  · have hcut : l ++ [y] = (l₁ ++ x :: (l₂ ++ y' :: l₃')) ++ [w] := by simp [hsplit, hw]
    obtain ⟨hl, -⟩ := List.append_inj' hcut rfl
    exact h l₁ x l₂ y' l₃' hl hp

/-- Entries that are not paired with anything before them do no harm. -/
theorem Spaced.append_free {l new : List α} (h : Spaced p q l)
    (hnew : ∀ y ∈ new, ∀ x, ¬ p x y) : Spaced p q (l ++ new) := by
  induction new generalizing l with
  | nil => simpa using h
  | cons y new ih =>
    have hone : Spaced p q (l ++ [y]) := h.concat fun x _ => hnew y (List.mem_cons_self ..) x
    have hrest := ih hone fun y' hy' => hnew y' (List.mem_cons_of_mem _ hy')
    simpa using hrest

/-- What is open in a longer list was open, or came with the new entries. -/
theorem Open.of_append {l new : List α} {x : α} (h : Open q (l ++ new) x) :
    (Open q l x ∧ ∀ z ∈ new, ¬ q x z) ∨ Open q new x := by
  obtain ⟨l₁, l₂, hsplit, hno⟩ := h
  rcases List.append_eq_append_iff.mp hsplit with ⟨m, h1, h2⟩ | ⟨m, h1, h2⟩
  · -- `x` stands in the new entries
    exact Or.inr ⟨m, l₂, h2, hno⟩
  · cases m with
    | nil =>
      refine Or.inr ⟨[], l₂, ?_, hno⟩
      simpa using h2.symm
    | cons x' m =>
      rw [List.cons_append, List.cons.injEq] at h2
      obtain ⟨rfl, rfl⟩ := h2
      refine Or.inl ⟨⟨l₁, m, h1, fun z hz => hno z (List.mem_append_left _ hz)⟩, ?_⟩
      exact fun z hz => hno z (List.mem_append_right _ hz)

end Dotqoo.Lib
