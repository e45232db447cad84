import Mathlib.Data.List.Induction

/-!
# Updating the entry of a group, or making one

A list of entries, one for every group that has occurred. `upsert` looks for the
first entry of an item's group and merges the item into it, or appends an entry
made of the item. Nothing here keeps the entries in order, and nothing has to:
what is in the entry of a group depends on the items of that group alone
(`entries_foldl_upsert`), and other groups are not seen.
-/

namespace Dotqoo.Lib

/-- How items are put into groups and entries. -/
structure Grouping (α β γ : Type) where
  ofItem : α → γ
  ofEntry : β → γ
  make : α → β
  merge : α → β → β
  make_group : ∀ a, ofEntry (make a) = ofItem a
  merge_group : ∀ a b, ofEntry (merge a b) = ofEntry b

namespace Grouping

variable {α β γ : Type} [DecidableEq γ] (G : Grouping α β γ)

/-- Merge an item into the first entry of its group, or append one. -/
def upsert (a : α) : List β → List β
  | [] => [G.make a]
  | b :: rest => if G.ofEntry b = G.ofItem a then G.merge a b :: rest else b :: upsert a rest

/-- The entries of a group. -/
def entries (g : γ) (rows : List β) : List β := rows.filter fun b => G.ofEntry b = g

/-- The items of a group. -/
def items (g : γ) (as : List α) : List α := as.filter fun a => G.ofItem a = g

/-- The entry that the items of one group make, if there are any. -/
def entryOf : List α → Option β
  | [] => none
  | a :: as => some (as.foldl (fun b a => G.merge a b) (G.make a))

omit [DecidableEq γ] in
theorem entryOf_eq_none_iff (as : List α) : G.entryOf as = none ↔ as = [] := by
  cases as with
  | nil => simp [entryOf]
  | cons a as => simp [entryOf]

/-- An item leaves the entries of other groups alone. -/
theorem entries_upsert_of_ne {a : α} {g : γ} (hg : g ≠ G.ofItem a) (rows : List β) :
    G.entries g (G.upsert a rows) = G.entries g rows := by
  induction rows with
  | nil =>
    have hmake : G.ofEntry (G.make a) ≠ g := by
      rw [G.make_group]
      exact hg.symm
    simp [upsert, entries, hmake]
  | cons b rest ih =>
    unfold upsert
    split
    next hb =>
      have hold : G.ofEntry b ≠ g := by
        rw [hb]
        exact hg.symm
      simp [entries, G.merge_group, hold]
    next =>
      unfold entries at ih ⊢
      rw [List.filter_cons, List.filter_cons, ih]

/-- Without an entry of its group, an item makes one. -/
theorem entries_upsert_fresh {a : α} {rows : List β} (h : G.entries (G.ofItem a) rows = []) :
    G.entries (G.ofItem a) (G.upsert a rows) = [G.make a] := by
  induction rows with
  | nil => simp [upsert, entries, G.make_group]
  | cons b rest ih =>
    have hb : G.ofEntry b ≠ G.ofItem a := by
      have hall := List.filter_eq_nil_iff.mp h b List.mem_cons_self
      simpa using hall
    have hrest : G.entries (G.ofItem a) rest = [] := by
      simpa [entries, hb] using h
    rw [upsert, if_neg hb]
    simpa [entries, hb] using ih hrest

/-- The one entry of its group takes an item in. -/
theorem entries_upsert_merge {a : α} {b : β} {rows : List β}
    (h : G.entries (G.ofItem a) rows = [b]) :
    G.entries (G.ofItem a) (G.upsert a rows) = [G.merge a b] := by
  induction rows with
  | nil => exact absurd h (by simp [entries])
  | cons c rest ih =>
    by_cases hc : G.ofEntry c = G.ofItem a
    · have hcons : c :: G.entries (G.ofItem a) rest = [b] := by
        rw [← h]
        simp [entries, hc]
      obtain ⟨rfl, hrest⟩ := List.cons.inj hcons
      have hmerged : G.ofEntry (G.merge a c) = G.ofItem a := (G.merge_group a c).trans hc
      rw [upsert, if_pos hc, entries, List.filter_cons_of_pos (by simpa using hmerged)]
      exact congrArg (G.merge a c :: ·) hrest
    · have hrest : G.entries (G.ofItem a) rest = [b] := by
        rw [← h]
        simp [entries, hc]
      rw [upsert, if_neg hc]
      simpa [entries, hc] using ih hrest

/-- **One entry for each group that occurs, made of its items in their order.** -/
theorem entries_foldl_upsert (g : γ) (as : List α) :
    G.entries g (as.foldl (fun rows a => G.upsert a rows) [])
      = (G.entryOf (G.items g as)).toList := by
  induction as using List.reverseRecOn with
  | nil => rfl
  | append_singleton as a ih =>
    rw [List.foldl_append, List.foldl_cons, List.foldl_nil]
    by_cases hg : G.ofItem a = g
    · subst hg
      have hitems : G.items (G.ofItem a) (as ++ [a]) = G.items (G.ofItem a) as ++ [a] := by
        simp [items]
      rw [hitems]
      cases hold : G.items (G.ofItem a) as with
      | nil =>
        rw [hold] at ih
        exact G.entries_upsert_fresh ih
      | cons first others =>
        rw [hold] at ih
        rw [G.entries_upsert_merge ih]
        simp [entryOf, List.foldl_append]
    · have hitems : G.items g (as ++ [a]) = G.items g as := by
        simp [items, hg]
      rw [hitems, G.entries_upsert_of_ne (fun h => hg h.symm), ih]

end Grouping

end Dotqoo.Lib
