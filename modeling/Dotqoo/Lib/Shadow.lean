import Mathlib.Logic.Function.Basic

/-!
# Maps whose entries shadow one another

A map that takes a key again without giving up the entry it has: the newest entry
is the one that is seen, and deleting it shows the one before. So there is a stack
of values under every key. What is done to one key is not seen under another.
-/

namespace Dotqoo.Lib

/-- The values under each key, newest first. -/
abbrev Shadow (κ ν : Type) := κ → List ν

namespace Shadow

variable {κ ν : Type}

/-- Nothing under any key. -/
def empty (κ ν : Type) : Shadow κ ν := fun _ => []

/-- The value that is seen. -/
def top (s : Shadow κ ν) (k : κ) : Option ν := (s k).head?

@[simp] theorem top_empty (k : κ) : (empty κ ν).top k = none := rfl

variable [DecidableEq κ]

/-- A new value in front of the others. -/
def push (s : Shadow κ ν) (k : κ) (v : ν) : Shadow κ ν := Function.update s k (v :: s k)

/-- The newest value goes. -/
def pop (s : Shadow κ ν) (k : κ) : Shadow κ ν := Function.update s k (s k).tail

@[simp] theorem top_push_self (s : Shadow κ ν) (k : κ) (v : ν) : (s.push k v).top k = some v := by
  simp [top, push]

theorem top_push_of_ne (s : Shadow κ ν) {k k' : κ} (v : ν) (h : k' ≠ k) :
    (s.push k v).top k' = s.top k' := by
  simp [top, push, Function.update_of_ne h]

@[simp] theorem top_pop_self (s : Shadow κ ν) (k : κ) : (s.pop k).top k = (s k).tail.head? := by
  simp [top, pop]

theorem top_pop_of_ne (s : Shadow κ ν) {k k' : κ} (h : k' ≠ k) : (s.pop k).top k' = s.top k' := by
  simp [top, pop, Function.update_of_ne h]

end Shadow

end Dotqoo.Lib
