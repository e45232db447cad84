import Mathlib.Order.Lattice

/-!
# Bisection between two probes

`bisect` narrows an interval of indices until its ends are neighbours, or an entry
is hit. The ends themselves are never compared: the left one is taken to be too
small or right, the right one too large, and whether that is so is for the caller
to know (`Bracket`). The result is then as good as the first bracket was.
-/

namespace Dotqoo.Lib

variable {α : Type} [LinearOrder α] (start : Int → α) (x : α)

/-- Halve the interval until it is hit or empty. -/
def bisect (l r : Int) : Int × Int :=
  if l < r - 1 then
    if x = start ((l + r) / 2) then ((l + r) / 2, r)
    else if start ((l + r) / 2) < x then bisect ((l + r) / 2) r
    else bisect l ((l + r) / 2)
  else (l, r)
termination_by (r - l).toNat
decreasing_by all_goals omega

/-- The ends of an interval inside `lo .. hi`, apart from these two compared. -/
structure Bracket (lo hi l r : Int) : Prop where
  lo_le : lo ≤ l
  le : l ≤ r
  le_hi : r ≤ hi
  left : l = lo ∨ start l ≤ x
  right : r = hi ∨ x < start r

variable {start x}

/-- **A bracket stays one**, and ends in a hit or in neighbours. -/
theorem Bracket.bisect {lo hi l r : Int} (h : Bracket start x lo hi l r) :
    Bracket start x lo hi (bisect start x l r).1 (bisect start x l r).2 ∧
      (start (bisect start x l r).1 = x ∨ (bisect start x l r).2 ≤ (bisect start x l r).1 + 1) := by
  fun_induction Lib.bisect start x l r with
  | case1 l r hwide hhit =>
    refine ⟨⟨?_, by omega, h.le_hi, Or.inr (le_of_eq hhit.symm), h.right⟩, Or.inl hhit.symm⟩
    have := h.lo_le
    omega
  | case2 l r hwide hmiss hsmall ih =>
    have hlo := h.lo_le
    exact ih ⟨by omega, by omega, h.le_hi, Or.inr (le_of_lt hsmall), h.right⟩
  | case3 l r hwide hmiss hlarge ih =>
    have hhi := h.le_hi
    have hlt : x < start ((l + r) / 2) := lt_of_le_of_ne (not_lt.mp hlarge) hmiss
    exact ih ⟨h.lo_le, by omega, by omega, h.left, Or.inr hlt⟩
  | case4 l r hnarrow => exact ⟨h, Or.inr (by omega)⟩

end Dotqoo.Lib
