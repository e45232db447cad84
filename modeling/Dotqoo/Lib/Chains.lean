import Mathlib.Data.List.Nodup
import Mathlib.Data.List.Range
import Mathlib.Algebra.BigOperators.Group.List.Basic

/-!
# Chains of keyed entries

Two general tools for chained hash tables, both about lists. A table with `n`
chains is read off as one list (`gather`), and the chains a walk has still to
visit as another (`gatherFrom`), so a loop over buckets and chains becomes a
fact about list suffixes. Inside a list whose keys are pairwise different, the
operations that look for the *first* match (`List.eraseP`, `modifyFirst`) touch
every match there is, so they can be replaced by `filter` and `map`, which
commute with gathering.
-/

namespace Dotqoo.Lib

variable {α κ : Type}

/-! ## Gathering chains -/

/-- The entries of the chains `i, …, n - 1`, in chain order. -/
def gatherFrom (i n : Nat) (t : Nat → List α) : List α := (List.range' i (n - i)).flatMap t

/-- The entries of the first `n` chains, in chain order. -/
def gather (n : Nat) (t : Nat → List α) : List α := gatherFrom 0 n t

theorem gatherFrom_end {i n : Nat} (t : Nat → List α) (h : n ≤ i) : gatherFrom i n t = [] := by
  have h0 : n - i = 0 := by omega
  simp [gatherFrom, h0]

theorem gatherFrom_step {i n : Nat} (t : Nat → List α) (h : i < n) :
    gatherFrom i n t = t i ++ gatherFrom (i + 1) n t := by
  have hs : n - i = (n - (i + 1)) + 1 := by omega
  rw [gatherFrom, hs, List.range'_succ, List.flatMap_cons, gatherFrom]

/-- Chains before `j`, then chains from `j` on. -/
theorem gatherFrom_split {i j n : Nat} (t : Nat → List α) (hij : i ≤ j) (hjn : j ≤ n) :
    gatherFrom i n t = gatherFrom i j t ++ gatherFrom j n t := by
  have hlen : n - i = (j - i) + (n - j) := by omega
  have hstart : i + (j - i) = j := by omega
  rw [gatherFrom, hlen, ← List.range'_append_1, List.flatMap_append, hstart]
  rfl

theorem mem_gatherFrom {i n : Nat} {t : Nat → List α} {x : α} :
    x ∈ gatherFrom i n t ↔ ∃ j, i ≤ j ∧ j < n ∧ x ∈ t j := by
  simp only [gatherFrom, List.mem_flatMap, List.mem_range'_1]
  constructor
  · intro hx
    obtain ⟨j, ⟨h1, h2⟩, hx⟩ := hx
    exact ⟨j, h1, by omega, hx⟩
  · intro hx
    obtain ⟨j, h1, h2, hx⟩ := hx
    exact ⟨j, ⟨h1, by omega⟩, hx⟩

theorem mem_gather {n : Nat} {t : Nat → List α} {x : α} :
    x ∈ gather n t ↔ ∃ j, j < n ∧ x ∈ t j := by
  simp [gather, mem_gatherFrom]

/-- Gathering looks at the gathered chains only. -/
theorem gatherFrom_congr {i n : Nat} {t t' : Nat → List α}
    (h : ∀ j, i ≤ j → j < n → t j = t' j) : gatherFrom i n t = gatherFrom i n t' := by
  unfold gatherFrom
  rw [List.flatMap_def, List.flatMap_def]
  congr 1
  apply List.map_congr_left
  intro j hj
  have hj' := List.mem_range'_1.mp hj
  exact h j hj'.1 (by omega)

theorem gatherFrom_empty {i n : Nat} {t : Nat → List α} (h : ∀ j, i ≤ j → j < n → t j = []) :
    gatherFrom i n t = [] := by
  refine List.eq_nil_iff_forall_not_mem.mpr fun x hx => ?_
  obtain ⟨j, hij, hjn, hx⟩ := mem_gatherFrom.mp hx
  rw [h j hij hjn] at hx
  exact absurd hx (by simp)

theorem gather_filter (n : Nat) (t : Nat → List α) (p : α → Bool) :
    gather n (fun i => (t i).filter p) = (gather n t).filter p := by
  unfold gather gatherFrom
  rw [List.filter_flatMap]

theorem gather_map {β : Type} (n : Nat) (t : Nat → List α) (f : α → β) :
    gather n (fun i => (t i).map f) = (gather n t).map f := by
  unfold gather gatherFrom
  rw [List.map_flatMap]

/-- A chain is a contiguous part of what is gathered. -/
theorem sublist_gather {i n : Nat} (t : Nat → List α) (h : i < n) :
    List.Sublist (t i) (gather n t) := by
  rw [gather, gatherFrom_split t (Nat.zero_le i) (Nat.le_of_lt h), gatherFrom_step t h]
  exact (List.sublist_append_left _ _).trans (List.sublist_append_right _ _)

/-! ## First match, in a list without duplicate keys -/

/-- Rewrite the first element that satisfies `p`. -/
def modifyFirst (p : α → Bool) (f : α → α) : List α → List α
  | [] => []
  | x :: xs => if p x then f x :: xs else x :: modifyFirst p f xs

/-- A list without a match is left alone by a map that rewrites matches. -/
theorem map_of_not_match {p : α → Bool} {f : α → α} {l : List α} (h : ∀ x ∈ l, p x = false) :
    l.map (fun x => if p x then f x else x) = l := by
  conv_rhs => rw [← List.map_id l]
  apply List.map_congr_left
  intro x hx
  simp [h x hx]

/-- And by a filter that drops matches. -/
theorem filter_of_not_match {p : α → Bool} {l : List α} (h : ∀ x ∈ l, p x = false) :
    l.filter (fun x => !p x) = l := by
  refine List.filter_eq_self.mpr fun x hx => ?_
  rw [h x hx]
  rfl

/-! ## First match, with duplicates -/

/-- Erasing the first match takes the first of the matches. -/
theorem filter_eraseP_self (p : α → Bool) : ∀ l : List α,
    (l.eraseP p).filter p = (l.filter p).tail
  | [] => rfl
  | x :: l => by
    cases hx : p x
    · simp [hx, filter_eraseP_self p l]
    · simp [hx]

/-- And is not seen by a filter that takes no match. -/
theorem filter_eraseP_of_not {p q : α → Bool} (h : ∀ x, p x = true → q x = false) : ∀ l : List α,
    (l.eraseP p).filter q = l.filter q
  | [] => rfl
  | x :: l => by
    cases hx : p x
    · cases hq : q x <;> simp [hx, hq, filter_eraseP_of_not h l]
    · simp [hx, h x hx]

section Keyed

variable {key : α → κ} {k : κ} {p : α → Bool} (hp : ∀ x, p x = true ↔ key x = k)
include hp

/-- With the head matching, no later element of a duplicate-free list matches. -/
theorem not_match_of_nodup {x : α} {xs : List α} (hu : ((x :: xs).map key).Nodup)
    (hx : p x = true) : ∀ y ∈ xs, p y = false := by
  intro y hy
  rw [List.map_cons, List.nodup_cons] at hu
  by_contra hpy
  have hkey : key y = key x := by
    rw [(hp y).mp (by simpa using hpy), (hp x).mp hx]
  exact hu.1 (hkey ▸ List.mem_map_of_mem hy)

theorem eraseP_eq_filter : ∀ {l : List α}, (l.map key).Nodup →
    l.eraseP p = l.filter (fun x => !p x) := by
  intro l
  induction l with
  | nil => intro _; rfl
  | cons x xs ih =>
    intro hu
    by_cases hx : p x = true
    · -- this is the one match, so the filter keeps all of the rest
      have hfix := filter_of_not_match (not_match_of_nodup hp hu hx)
      simp [hx, hfix]
    · have hu' : (xs.map key).Nodup := (List.nodup_cons.mp hu).2
      simp [hx, ih hu']

theorem modifyFirst_eq_map {f : α → α} : ∀ {l : List α}, (l.map key).Nodup →
    modifyFirst p f l = l.map (fun x => if p x then f x else x) := by
  intro l
  induction l with
  | nil => intro _; rfl
  | cons x xs ih =>
    intro hu
    by_cases hx : p x = true
    · -- and the map leaves the rest alone
      have hfix := map_of_not_match (f := f) (not_match_of_nodup hp hu hx)
      simp [modifyFirst, hx, hfix]
    · have hu' : (xs.map key).Nodup := (List.nodup_cons.mp hu).2
      simp [modifyFirst, hx, ih hu']

/-- The first match of a duplicate-free list is its only match. -/
theorem find?_eq_some_iff_mem : ∀ {l : List α}, (l.map key).Nodup → ∀ x,
    l.find? p = some x ↔ x ∈ l ∧ key x = k := by
  intro l
  induction l with
  | nil => intro _ x; simp
  | cons y ys ih =>
    intro hu x
    by_cases hy : p y = true
    · rw [List.find?_cons_of_pos hy]
      constructor
      · intro h
        have hxy : y = x := by simpa using h
        subst hxy
        exact ⟨List.mem_cons_self .., (hp y).mp hy⟩
      · intro h
        obtain ⟨hx, hkx⟩ := h
        rcases List.mem_cons.mp hx with rfl | hx'
        · rfl
        · have := not_match_of_nodup hp hu hy x hx'
          rw [(hp x).mpr hkx] at this
          exact absurd this (by simp)
    · rw [List.find?_cons_of_neg hy, ih (List.nodup_cons.mp hu).2 x, List.mem_cons]
      refine ⟨fun h => ⟨Or.inr h.1, h.2⟩, fun h => ?_⟩
      obtain ⟨hx, hkx⟩ := h
      rcases hx with rfl | hx'
      · exact absurd ((hp x).mpr hkx) hy
      · exact ⟨hx', hkx⟩

/-- Around the one match, a duplicate-free list holds no other. -/
theorem not_match_around {l₁ l₂ : List α} {x : α} (hu : ((l₁ ++ x :: l₂).map key).Nodup)
    (hx : key x = k) : (∀ y ∈ l₁, p y = false) ∧ ∀ y ∈ l₂, p y = false := by
  rw [List.map_append, List.nodup_append] at hu
  obtain ⟨-, hu₂, hdisj⟩ := hu
  refine ⟨fun y hy => ?_, not_match_of_nodup hp hu₂ ((hp x).mpr hx)⟩
  rw [Bool.eq_false_iff]
  intro hpy
  have hkey : key y = key x := ((hp y).mp hpy).trans hx.symm
  exact hdisj (key y) (List.mem_map_of_mem hy) (key x) (by simp) hkey

theorem filter_not_middle {l₁ l₂ : List α} {x : α} (hu : ((l₁ ++ x :: l₂).map key).Nodup)
    (hx : key x = k) : (l₁ ++ x :: l₂).filter (fun y => !p y) = l₁ ++ l₂ := by
  obtain ⟨h₁, h₂⟩ := not_match_around hp hu hx
  rw [List.filter_append, List.filter_cons, (hp x).mpr hx, filter_of_not_match h₁,
    filter_of_not_match h₂]
  rfl

theorem map_middle {f : α → α} {l₁ l₂ : List α} {x : α}
    (hu : ((l₁ ++ x :: l₂).map key).Nodup) (hx : key x = k) :
    (l₁ ++ x :: l₂).map (fun y => if p y then f y else y) = l₁ ++ f x :: l₂ := by
  obtain ⟨h₁, h₂⟩ := not_match_around hp hu hx
  rw [List.map_append, List.map_cons, (hp x).mpr hx, map_of_not_match h₁, map_of_not_match h₂]
  rfl

end Keyed

end Dotqoo.Lib
