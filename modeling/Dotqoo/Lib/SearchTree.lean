import Mathlib.Init

/-!
# Unbalanced search trees

A binary tree of keys and values with a three-way comparison, two ways to write
it and one way to read it: `insert` keeps a value that is there, `set` replaces
it, `find` follows the comparisons from the root.

None of the lemmas about `find` asks for the keys to be in order. A write and a read for the
same key make the same comparisons on the way down, so they meet at the same
node or leave the tree at the same leaf; a read for another key only passes it.
What a tree looks like depends on the order of the writes, what is found does
not. That the keys are in order all the same is `Ordered.insert`.
-/

namespace Dotqoo.Lib

inductive SearchTree (κ ν : Type) where
  | leaf
  | node (l : SearchTree κ ν) (key : κ) (value : ν) (g : SearchTree κ ν)
  deriving Repr

namespace SearchTree

variable {κ ν : Type} (cmp : κ → κ → Ordering)

/-- The value under a key. -/
def find (k : κ) : SearchTree κ ν → Option ν
  | leaf => none
  | node l key value g =>
    match cmp k key with
    | .eq => some value
    | .lt => find k l
    | .gt => find k g

/-- Store a value unless the key has one. -/
def insert (k : κ) (v : ν) : SearchTree κ ν → SearchTree κ ν
  | leaf => node leaf k v leaf
  | node l key value g =>
    match cmp k key with
    | .eq => node l key value g
    | .lt => node (insert k v l) key value g
    | .gt => node l key value (insert k v g)

/-- Replace the value of a key that has one. -/
def replace (k : κ) (v : ν) : SearchTree κ ν → SearchTree κ ν
  | leaf => leaf
  | node l key value g =>
    match cmp k key with
    | .eq => node l key v g
    | .lt => node (replace k v l) key value g
    | .gt => node l key value (replace k v g)

/-- Store a value, over the one the key has. -/
def set (k : κ) (v : ν) (t : SearchTree κ ν) : SearchTree κ ν :=
  match t.find cmp k with
  | some _ => t.replace cmp k v
  | none => t.insert cmp k v

variable {cmp}

@[simp] theorem find_leaf (k : κ) : (leaf : SearchTree κ ν).find cmp k = none := rfl

theorem find_insert_self [Std.ReflCmp cmp] (k : κ) (v : ν) (t : SearchTree κ ν) :
    (t.insert cmp k v).find cmp k = some ((t.find cmp k).getD v) := by
  induction t with
  | leaf => simp [insert, find, Std.ReflCmp.compare_self]
  | node l key value g ihl ihg =>
    cases hc : cmp k key with
    | lt => simpa [insert, find, hc] using ihl
    | eq => simp [insert, find, hc]
    | gt => simpa [insert, find, hc] using ihg

theorem find_insert_of_ne [Std.LawfulEqCmp cmp] {k k' : κ} (hne : k' ≠ k) (v : ν)
    (t : SearchTree κ ν) : (t.insert cmp k v).find cmp k' = t.find cmp k' := by
  induction t with
  | leaf =>
    -- the new node is passed on one side or the other, and has nothing below it
    cases hc : cmp k' k with
    | lt => simp [insert, find, hc]
    | eq => exact absurd (Std.LawfulEqCmp.eq_of_compare hc) hne
    | gt => simp [insert, find, hc]
  | node l key value g ihl ihg =>
    cases hk : cmp k key with
    | lt =>
      simp only [insert, hk, find, ihl]
    | eq => simp only [insert, hk]
    | gt =>
      simp only [insert, hk, find, ihg]

theorem find_replace_self {k : κ} (v : ν) {t : SearchTree κ ν} (h : (t.find cmp k).isSome) :
    (t.replace cmp k v).find cmp k = some v := by
  induction t with
  | leaf => simp at h
  | node l key value g ihl ihg =>
    cases hc : cmp k key with
    | lt =>
      simp only [find, hc] at h
      simpa [replace, find, hc] using ihl h
    | eq => simp [replace, find, hc]
    | gt =>
      simp only [find, hc] at h
      simpa [replace, find, hc] using ihg h

theorem find_replace_of_ne [Std.LawfulEqCmp cmp] {k k' : κ} (hne : k' ≠ k) (v : ν)
    (t : SearchTree κ ν) : (t.replace cmp k v).find cmp k' = t.find cmp k' := by
  induction t with
  | leaf => rfl
  | node l key value g ihl ihg =>
    cases hk : cmp k key with
    | lt => simp only [replace, hk, find, ihl]
    | gt => simp only [replace, hk, find, ihg]
    | eq =>
      have heq : k = key := Std.LawfulEqCmp.eq_of_compare hk
      cases hc : cmp k' key with
      | lt => simp [replace, find, hk, hc]
      | gt => simp [replace, find, hk, hc]
      | eq => exact absurd ((Std.LawfulEqCmp.eq_of_compare hc).trans heq.symm) hne

theorem find_insert [DecidableEq κ] [Std.LawfulEqCmp cmp] (k k' : κ) (v : ν)
    (t : SearchTree κ ν) : (t.insert cmp k v).find cmp k' =
      if k' = k then some ((t.find cmp k).getD v) else t.find cmp k' := by
  by_cases h : k' = k
  · rw [if_pos h, h]
    exact find_insert_self k v t
  · rw [if_neg h]
    exact find_insert_of_ne h v t

theorem find_set [DecidableEq κ] [Std.LawfulEqCmp cmp] (k k' : κ) (v : ν)
    (t : SearchTree κ ν) :
    (t.set cmp k v).find cmp k' = if k' = k then some v else t.find cmp k' := by
  unfold set
  cases hf : t.find cmp k with
  | none =>
    simp only [find_insert, hf]
    simp
  | some w =>
    by_cases h : k' = k
    · rw [if_pos h, h]
      exact find_replace_self v (by rw [hf]; rfl)
    · rw [if_neg h]
      exact find_replace_of_ne h v t

/-! ## The order of the keys -/

/-- The keys and values, from left to right. -/
def toList : SearchTree κ ν → List (κ × ν)
  | leaf => []
  | node l key value g => toList l ++ (key, value) :: toList g

theorem mem_toList_of_find [Std.LawfulEqCmp cmp] {k : κ} {v : ν} {t : SearchTree κ ν}
    (h : t.find cmp k = some v) : (k, v) ∈ t.toList := by
  induction t with
  | leaf => cases h
  | node l key value g ihl ihg =>
    rw [find] at h
    split at h
    next hc =>
      cases h
      rw [Std.LawfulEqCmp.eq_of_compare hc]
      simp [toList]
    next => simp [toList, ihl h]
    next => simp [toList, ihg h]

/-- A value for a key that has one changes nothing. -/
theorem insert_of_find {k : κ} {w : ν} (v : ν) {t : SearchTree κ ν} (h : t.find cmp k = some w) :
    t.insert cmp k v = t := by
  induction t with
  | leaf => cases h
  | node l key value g ihl ihg =>
    rw [find] at h
    split at h
    next hc => rw [insert, hc]
    next hc => rw [insert, hc, ihl h]
    next hc => rw [insert, hc, ihg h]

/-- A new key is one more. -/
theorem toList_insert_perm {k : κ} (v : ν) {t : SearchTree κ ν} (h : t.find cmp k = none) :
    (t.insert cmp k v).toList.Perm ((k, v) :: t.toList) := by
  induction t with
  | leaf => rfl
  | node l key value g ihl ihg =>
    rw [find] at h
    split at h
    next => cases h
    next hc =>
      rw [insert, hc]
      exact (ihl h).append_right _
    next hc =>
      rw [insert, hc]
      have hpast : l.toList ++ (key, value) :: (k, v) :: g.toList =
          (l.toList ++ [(key, value)]) ++ (k, v) :: g.toList := by simp
      refine (((ihg h).cons (key, value)).append_left _).trans ?_
      rw [hpast]
      exact List.perm_middle.trans (by simp [toList])

variable (cmp) in
/-- At each node the keys on the left are below its key, and those on the right above. -/
def Ordered : SearchTree κ ν → Prop
  | leaf => True
  | node l key _ g => (∀ e ∈ l.toList, cmp e.1 key = .lt) ∧ (∀ e ∈ g.toList, cmp e.1 key = .gt) ∧
      Ordered l ∧ Ordered g

/-- **Insertion keeps the keys in order.** -/
theorem Ordered.insert {t : SearchTree κ ν} (h : t.Ordered cmp) (k : κ) (v : ν) :
    (t.insert cmp k v).Ordered cmp := by
  cases hf : t.find cmp k with
  | some w => rwa [insert_of_find v hf]
  | none =>
    induction t with
    | leaf => simp [SearchTree.insert, Ordered, toList]
    | node l key value g ihl ihg =>
      obtain ⟨hleft, hright, hl, hg⟩ := h
      rw [find] at hf
      split at hf
      next => cases hf
      next hc =>
        rw [SearchTree.insert, hc]
        refine ⟨fun e he => ?_, hright, ihl hl hf, hg⟩
        rcases List.mem_cons.mp ((toList_insert_perm v hf).subset he) with rfl | he
        · exact hc
        · exact hleft e he
      next hc =>
        rw [SearchTree.insert, hc]
        refine ⟨hleft, fun e he => ?_, hl, ihg hg hf⟩
        rcases List.mem_cons.mp ((toList_insert_perm v hf).subset he) with rfl | he
        · exact hc
        · exact hright e he

/-- In a transitive order the keys read from left to right ascend. -/
theorem Ordered.pairwise [Std.TransCmp cmp] {t : SearchTree κ ν} (h : t.Ordered cmp) :
    t.toList.Pairwise fun e e' => cmp e.1 e'.1 = .lt := by
  induction t with
  | leaf => exact List.Pairwise.nil
  | node l key value g ihl ihg =>
    obtain ⟨hleft, hright, hl, hg⟩ := h
    have habove : ∀ e ∈ g.toList, cmp key e.1 = .lt := fun e he =>
      Std.OrientedCmp.gt_iff_lt.mp (hright e he)
    refine List.pairwise_append.mpr ⟨ihl hl, List.pairwise_cons.mpr ⟨habove, ihg hg⟩, ?_⟩
    intro e he e' he'
    rcases List.mem_cons.mp he' with rfl | he'
    · exact hleft e he
    · exact Std.TransCmp.lt_trans (hleft e he) (habove e' he')

end SearchTree

end Dotqoo.Lib
