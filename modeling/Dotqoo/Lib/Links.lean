import Mathlib.Data.List.Perm.Subperm
import Mathlib.Logic.Function.Basic

/-!
# Linked lists in memory

A memory gives an address to some cells, each with a value and the address of
the next cell. `Links mem p l q` says that following `next` from the pointer `p`
one meets the cells of `l`, in order, and arrives at the pointer `q`; with `q`
the null pointer, `l` is the whole list behind `p`. Lists split and join where
two walks meet, a change of a cell outside the list is not seen by it, and a
list that ends has no cell twice, which is why following it terminates.
-/

namespace Dotqoo.Lib

/-- A cell of a linked list; the null pointer is `none`. -/
structure Cell (A V : Type) where
  value : V
  next : Option A

variable {A V : Type}

/-- From `p`, through the cells `l`, to `q`. -/
inductive Links (mem : A → Option (Cell A V)) : Option A → List (A × V) → Option A → Prop
  | nil (p : Option A) : Links mem p [] p
  | cons {a : A} {v : V} {p q : Option A} {l : List (A × V)} (hcell : mem a = some ⟨v, p⟩)
      (hrest : Links mem p l q) : Links mem (some a) ((a, v) :: l) q

namespace Links

variable {mem mem' : A → Option (Cell A V)} {p q r : Option A} {l l₁ l₂ : List (A × V)}
  {a : A} {v : V}

theorem of_nil (h : Links mem p [] q) : p = q := by
  cases h
  rfl

theorem of_cons (h : Links mem p ((a, v) :: l) q) :
    p = some a ∧ ∃ next, mem a = some ⟨v, next⟩ ∧ Links mem next l q := by
  cases h with
  | cons hcell hrest => exact ⟨rfl, _, hcell, hrest⟩

theorem append (h₁ : Links mem p l₁ q) (h₂ : Links mem q l₂ r) : Links mem p (l₁ ++ l₂) r := by
  induction h₁ with
  | nil p => exact h₂
  | cons hcell hrest ih => exact cons hcell (ih h₂)

/-- A walk passes every point of its list. -/
theorem split (h : Links mem p (l₁ ++ l₂) r) : ∃ q, Links mem p l₁ q ∧ Links mem q l₂ r := by
  induction l₁ generalizing p with
  | nil => exact ⟨p, nil p, h⟩
  | cons x l₁ ih =>
    obtain ⟨rfl, next, hcell, hrest⟩ := of_cons h
    obtain ⟨q, h₁, h₂⟩ := ih hrest
    exact ⟨q, cons hcell h₁, h₂⟩

/-- Only the cells of the list matter. -/
theorem congr (h : Links mem p l q) (hcells : ∀ x ∈ l, mem' x.1 = mem x.1) :
    Links mem' p l q := by
  induction h with
  | nil p => exact nil p
  | cons hcell hrest ih =>
    refine cons ?_ (ih fun x hx => hcells x (List.mem_cons_of_mem _ hx))
    rw [← hcell]
    exact hcells _ List.mem_cons_self

/-- The cell of an entry of the list. -/
theorem cell_of_mem (h : Links mem p l q) {x : A × V} (hx : x ∈ l) :
    ∃ next, mem x.1 = some ⟨x.2, next⟩ := by
  induction h with
  | nil p => exact absurd hx (by simp)
  | cons hcell hrest ih =>
    rcases List.mem_cons.mp hx with rfl | hx
    · exact ⟨_, hcell⟩
    · exact ih hx

/-- The pointer to a list is the address of its first cell. -/
theorem pointer (h : Links mem p l none) : p = l.head?.map Prod.fst := by
  cases h with
  | nil => rfl
  | cons hcell hrest => rfl

/-- One address, one list behind it. -/
theorem unique (h₁ : Links mem p l₁ none) (h₂ : Links mem p l₂ none) : l₁ = l₂ := by
  induction l₁ generalizing p l₂ with
  | nil =>
    rw [of_nil h₁] at h₂
    cases h₂
    rfl
  | cons x l₁ ih =>
    obtain ⟨a, v⟩ := x
    obtain ⟨rfl, next, hcell, hrest⟩ := of_cons h₁
    cases h₂ with
    | cons hcell' hrest' =>
      rw [hcell] at hcell'
      cases hcell'
      rw [ih hrest hrest']

/-- A list that comes to its end has no cell twice. -/
theorem nodup (h : Links mem p l none) : (l.map Prod.fst).Nodup := by
  induction l generalizing p with
  | nil => exact List.nodup_nil
  | cons x l ih =>
    obtain ⟨a, v⟩ := x
    obtain ⟨rfl, next, hcell, hrest⟩ := of_cons h
    rw [List.map_cons, List.nodup_cons]
    refine ⟨fun hmem => ?_, ih hrest⟩
    -- a second visit of the cell would be followed by a shorter list
    obtain ⟨y, hy, hya⟩ := List.mem_map.mp hmem
    obtain ⟨s, t, rfl⟩ := List.append_of_mem hy
    obtain ⟨q, -, hq⟩ := split hrest
    obtain ⟨hqa, -⟩ := of_cons (a := y.1) (v := y.2) hq
    rw [hqa, hya] at hq
    have hlen := congrArg List.length (unique h hq)
    simp only [List.length_cons, List.length_append] at hlen
    omega

/-- With all addresses below a bound, the list is no longer than the bound. -/
theorem length_le {mem : Nat → Option (Cell Nat V)} {p : Option Nat} {l : List (Nat × V)} {n : Nat}
    (h : Links mem p l none) (hlt : ∀ x ∈ l, x.1 < n) : l.length ≤ n := by
  have hsub : l.map Prod.fst ⊆ List.range n := by
    intro a ha
    obtain ⟨x, hx, rfl⟩ := List.mem_map.mp ha
    exact List.mem_range.mpr (hlt x hx)
  have hle := (List.subperm_of_subset h.nodup hsub).length_le
  rw [List.length_map, List.length_range] at hle
  exact hle

section Update

variable [DecidableEq A]

/-- A cell outside the list can be written. -/
theorem update (h : Links mem p l q) (hout : a ∉ l.map Prod.fst) (c : Option (Cell A V)) :
    Links (Function.update mem a c) p l q := by
  refine h.congr fun x hx => ?_
  have hne : x.1 ≠ a := fun heq => hout (heq ▸ List.mem_map_of_mem hx)
  exact Function.update_of_ne hne c mem

/-- Writing the `next` of the last cell moves the end of the list. -/
theorem relink (h : Links mem p (l ++ [(a, v)]) q) (hout : a ∉ l.map Prod.fst) (next : Option A) :
    Links (Function.update mem a (some ⟨v, next⟩)) p (l ++ [(a, v)]) next := by
  obtain ⟨m, h₁, h₂⟩ := split h
  obtain ⟨rfl, -⟩ := of_cons h₂
  exact (h₁.update hout _).append (cons (Function.update_self a _ mem) (nil next))

end Update

end Links

end Dotqoo.Lib
