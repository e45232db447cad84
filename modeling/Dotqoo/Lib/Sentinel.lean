import Mathlib.Data.List.Basic

/-!
# Lists that end at a mark

An array whose logical end is a reserved value, the mark: what counts are the
entries before the first mark, and a reader walks from some entry on until it
meets either the value it looks for or a mark. A reader that meets neither runs
off the end of the array, which `search` reports as `none`.
-/

namespace Dotqoo.Lib

variable {α : Type} [DecidableEq α]

/-- The entries before the first mark. -/
def untilMark (mark : α) (l : List α) : List α := l.takeWhile (fun b => b ≠ mark)

/-- Does `x` come before the next mark? `none`: the list ends before either. -/
def search (mark x : α) : List α → Option Bool
  | [] => none
  | b :: rest =>
    if b = mark then some false
    else if x = b then some true
    else search mark x rest

@[simp] theorem untilMark_nil (mark : α) : untilMark mark [] = [] := rfl

@[simp] theorem untilMark_mark (mark : α) (l : List α) : untilMark mark (mark :: l) = [] := by
  simp [untilMark]

theorem untilMark_cons {mark b : α} (hb : b ≠ mark) (l : List α) :
    untilMark mark (b :: l) = b :: untilMark mark l := by
  simp [untilMark, hb]

theorem untilMark_append {mark : α} {l : List α} (hl : mark ∉ l) (rest : List α) :
    untilMark mark (l ++ rest) = l ++ untilMark mark rest := by
  have hall : ∀ b ∈ l, decide (b ≠ mark) = true := by
    intro b hb
    have hne : b ≠ mark := fun he => hl (he ▸ hb)
    simpa using hne
  exact List.takeWhile_append_of_pos hall

theorem untilMark_of_not_mem {mark : α} {l : List α} (hl : mark ∉ l) : untilMark mark l = l := by
  have h := untilMark_append hl []
  simpa using h

theorem mark_notMem_untilMark (mark : α) (l : List α) : mark ∉ untilMark mark l := fun h => by
  simpa using List.all_eq_true.mp List.all_takeWhile _ h

/-- A marked list is what comes before its first mark, that mark, and a rest. -/
theorem eq_untilMark_append {mark : α} {l : List α} (hl : mark ∈ l) :
    ∃ rest, l = untilMark mark l ++ mark :: rest := by
  induction l with
  | nil => exact absurd hl List.not_mem_nil
  | cons b l ih =>
    by_cases hb : b = mark
    · exact ⟨l, by simp [hb]⟩
    · have hmem : mark ∈ l := (List.mem_cons.mp hl).resolve_left (Ne.symm hb)
      obtain ⟨rest, he⟩ := ih hmem
      exact ⟨rest, by rw [untilMark_cons hb, List.cons_append, ← he]⟩

/-- Entered before the first mark, the list shows the rest of the same entries. -/
theorem untilMark_drop (mark : α) : ∀ (l : List α) (i : Nat), i ≤ (untilMark mark l).length →
    untilMark mark (l.drop i) = (untilMark mark l).drop i
  | _, 0, _ => by simp
  | [], i + 1, _ => by simp
  | b :: l, i + 1, h => by
    by_cases hb : b = mark
    · rw [hb, untilMark_mark] at h
      exact absurd h (by simp)
    · rw [untilMark_cons hb] at h ⊢
      rw [List.drop_succ_cons, List.drop_succ_cons]
      exact untilMark_drop mark l i (Nat.le_of_succ_le_succ h)

/-- The first mark is still ahead there. -/
theorem mark_mem_drop {mark : α} {l : List α} (hl : mark ∈ l) {i : Nat}
    (hi : i ≤ (untilMark mark l).length) : mark ∈ l.drop i := by
  obtain ⟨rest, he⟩ := eq_untilMark_append hl
  rw [he, List.drop_append_of_le_length hi]
  exact List.mem_append_right _ List.mem_cons_self

/-! ## What a search finds -/

theorem search_eq_true_iff {mark x : α} (hx : x ≠ mark) :
    ∀ l : List α, search mark x l = some true ↔ x ∈ untilMark mark l
  | [] => by simp [search]
  | b :: l => by
    rw [search]
    by_cases hb : b = mark
    · simp [hb]
    · rw [if_neg hb, untilMark_cons hb, List.mem_cons]
      by_cases he : x = b
      · simp [he]
      · rw [if_neg he, search_eq_true_iff hx l]
        exact ⟨Or.inr, fun h => h.resolve_left he⟩

theorem search_eq_false_iff {mark x : α} :
    ∀ l : List α, search mark x l = some false ↔ mark ∈ l ∧ x ∉ untilMark mark l
  | [] => by simp [search]
  | b :: l => by
    rw [search]
    by_cases hb : b = mark
    · simp [hb]
    · rw [if_neg hb, untilMark_cons hb, List.mem_cons, List.mem_cons]
      by_cases he : x = b
      · simp [he]
      · rw [if_neg he, search_eq_false_iff l]
        simp [he, Ne.symm hb]

/-- On a marked list the search ends, and its answer is the list's. -/
theorem search_of_mem {mark x : α} (hx : x ≠ mark) {l : List α} (hl : mark ∈ l) :
    ∃ found, search mark x l = some found ∧ (found = true ↔ x ∈ untilMark mark l) := by
  by_cases hm : x ∈ untilMark mark l
  · exact ⟨true, (search_eq_true_iff hx l).mpr hm, by simp [hm]⟩
  · exact ⟨false, (search_eq_false_iff l).mpr ⟨hl, hm⟩, by simp [hm]⟩

end Dotqoo.Lib
