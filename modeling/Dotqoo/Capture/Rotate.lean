import Dotqoo.Capture.Options

/-!
# `history_rotate`: pruning and approving the table

One pass over the history table: an unapproved record that was too short-lived
or too quiet is removed, one that meets the criteria is approved, and the
approved ones are counted. The loop walks with `hash_next_item`, fetching the
successor before it touches the node, because the node may be deleted.

The count is where the source slips: after `free(d)` it still reads
`d->approval`. A released record has no defined contents, so what that read
yields is a parameter, `stale`: `stale n` says whether the word at the place of
`approval` reads non-zero once `n`'s record has been released. Nothing else in
the pass depends on it.

`historyRotate_spec` is the closed form: the nodes that stay, in order, are the
nodes of the table with `settle` applied to each record.
-/

namespace Dotqoo.Capture

open Dotqoo.Table Dotqoo.Lib

/-- `history_create`: a zeroed record, created at the clock reading `now`. -/
def historyCreate (now : Int) : HistoryType := { HistoryType.zero with createTime := now }

/-- `is_short_connection`. -/
def isShortConnection (o : Options) (d : HistoryType) (t : Int) : Bool :=
  d.lastUpdateTime - d.createTime < o.duration && t - d.createTime > checkAfterNSecs

/-- `is_low_traffic_connection`; `threshold` is converted for the comparison. -/
def isLowTrafficConnection (o : Options) (d : HistoryType) (t : Int) : Bool :=
  d.totalRecv + d.totalSent < o.threshold.toUInt64
    && t - d.lastUpdateTime > o.historyDeleteInterval

/-- The test under which a record stays in the table for good. -/
def meetsCriteria (o : Options) (d : HistoryType) : Bool :=
  d.lastUpdateTime - d.createTime ≥ o.duration
    && d.totalRecv + d.totalSent > o.threshold.toUInt64

/-- The local state of the loop: the table, `size`, and the records released. -/
structure Rotation where
  history : History
  size : Nat
  freed : List Node

/-- The body of the loop, at the node `n`. -/
def rotateVisit (o : Options) (t : Int) (stale : Node → Bool) (n : Node) (s : Rotation) :
    Rotation :=
  if n.record.approval = false then
    if isShortConnection o n.record t || isLowTrafficConnection o n.record t then
      -- the record is released, and its approval read afterwards
      { history := s.history.delete n.key
        size := s.size + (stale n).toNat
        freed := s.freed ++ [n] }
    else if meetsCriteria o n.record then
      { s with
        history := s.history.store n.key (fun d => { d with approval := true })
        size := s.size + 1 }
    else s
  else { s with size := s.size + 1 }

/-- The loop `while (n != NULL)`; `next` is fetched before the visit. -/
def rotateLoop (o : Options) (t : Int) (stale : Node → Bool) :
    Nat → List Node → Rotation → Rotation
  | 0, _, s => s
  | _ + 1, [], s => s
  | fuel + 1, n :: rest, s =>
    -- `next` comes from the table as it is before the visit
    rotateLoop o t stale fuel (hashNextItem s.history.toHashType (n :: rest))
      (rotateVisit o t stale n s)

/-- `history_rotate`, with the fuel of one visit for each node. -/
def historyRotate (o : Options) (t : Int) (stale : Node → Bool) (h : History) : Rotation :=
  rotateLoop o t stale h.nodes.length (hashNextItem h.toHashType [])
    { history := h, size := 0, freed := [] }

/-! ## The pass, record by record -/

/-- What the pass does to one record: `none` if it is removed. -/
def settle (o : Options) (t : Int) (d : HistoryType) : Option HistoryType :=
  if d.approval = false then
    if isShortConnection o d t || isLowTrafficConnection o d t then none
    else if meetsCriteria o d then some { d with approval := true }
    else some d
  else some d

/-- `settle` on a node. -/
def settleNode (o : Options) (t : Int) (n : Node) : Option Node :=
  (settle o t n.record).map fun d => ⟨n.key, d⟩

/-- The approved ones among some nodes. -/
def approvedOf (ns : List Node) : List Node := ns.filter (fun n => n.record.approval)

/-- The nodes the pass removes from a list. -/
def removedOf (o : Options) (t : Int) (ns : List Node) : List Node :=
  ns.filter (fun n => (settleNode o t n).isNone)

/-- A record leaves the pass removed, newly approved, or as it was. -/
theorem settle_cases (o : Options) (t : Int) (d : HistoryType) :
    (d.approval = false ∧
        (isShortConnection o d t || isLowTrafficConnection o d t) = true ∧ settle o t d = none) ∨
    (d.approval = false ∧ meetsCriteria o d = true ∧
        settle o t d = some { d with approval := true }) ∨
    settle o t d = some d := by
  unfold settle
  split
  next ha =>
    split
    next hd => exact Or.inl ⟨ha, hd, rfl⟩
    next =>
      split
      next hm => exact Or.inr (Or.inl ⟨ha, hm, rfl⟩)
      next => exact Or.inr (Or.inr rfl)
  next => exact Or.inr (Or.inr rfl)

/-- The pass removes the unapproved records that are short or quiet. -/
theorem settle_eq_none_iff {o : Options} {t : Int} {d : HistoryType} :
    settle o t d = none ↔ d.approval = false
      ∧ (isShortConnection o d t || isLowTrafficConnection o d t) = true := by
  constructor
  · intro hnone
    rcases settle_cases o t d with ⟨ha, hd, -⟩ | ⟨-, -, hs⟩ | hs
    · exact ⟨ha, hd⟩
    · rw [hs] at hnone
      exact absurd hnone (by simp)
    · rw [hs] at hnone
      exact absurd hnone (by simp)
  · intro hdrop
    rw [settle, if_pos hdrop.1, if_pos hdrop.2]

theorem mem_removedOf {o : Options} {t : Int} {ns : List Node} {n : Node} :
    n ∈ removedOf o t ns ↔ n ∈ ns ∧ n.record.approval = false
      ∧ (isShortConnection o n.record t || isLowTrafficConnection o n.record t) = true := by
  rw [removedOf, List.mem_filter, settleNode, Option.isNone_map, Option.isNone_iff_eq_none,
    settle_eq_none_iff]

/-- An approved record passes through unchanged. -/
theorem settle_approved {o : Options} {t : Int} {d : HistoryType} (h : d.approval = true) :
    settle o t d = some d := by
  unfold settle
  rw [if_neg (by simp [h])]

/-- A surviving record keeps its counters and times. -/
theorem settle_some {o : Options} {t : Int} {d d' : HistoryType} (h : settle o t d = some d') :
    d'.totalSent = d.totalSent ∧ d'.totalRecv = d.totalRecv ∧ d'.createTime = d.createTime
      ∧ d'.lastUpdateTime = d.lastUpdateTime
      ∧ (d'.approval = true → d.approval = true ∨ meetsCriteria o d = true) := by
  rcases settle_cases o t d with ⟨-, -, hn⟩ | ⟨-, hm, hs⟩ | hs
  · rw [hn] at h
    exact absurd h (by simp)
  · rw [hs] at h
    obtain rfl := Option.some.inj h
    exact ⟨rfl, rfl, rfl, rfl, fun _ => Or.inr hm⟩
  · rw [hs] at h
    obtain rfl := Option.some.inj h
    exact ⟨rfl, rfl, rfl, rfl, Or.inl⟩

/-! ## The loop -/

/-- What one visit can do, next to what `settleNode` says about the node. -/
theorem rotateVisit_cases (o : Options) (t : Int) (stale : Node → Bool) (n : Node) (s : Rotation) :
    (settleNode o t n = none ∧ rotateVisit o t stale n s
        = ⟨s.history.delete n.key, s.size + (stale n).toNat, s.freed ++ [n]⟩) ∨
    (settleNode o t n = some ⟨n.key, { n.record with approval := true }⟩ ∧
        rotateVisit o t stale n s
          = ⟨s.history.store n.key (fun d => { d with approval := true }), s.size + 1, s.freed⟩) ∨
    (settleNode o t n = some n ∧ rotateVisit o t stale n s
        = ⟨s.history, s.size + n.record.approval.toNat, s.freed⟩) := by
  by_cases happ : n.record.approval = false
  · by_cases hdrop : (isShortConnection o n.record t || isLowTrafficConnection o n.record t) = true
    · refine Or.inl ⟨by simp [settleNode, settle, happ, hdrop], ?_⟩
      rw [rotateVisit, if_pos happ, if_pos hdrop]
    · by_cases hmeet : meetsCriteria o n.record = true
      · refine Or.inr (Or.inl ⟨by simp [settleNode, settle, happ, hdrop, hmeet], ?_⟩)
        rw [rotateVisit, if_pos happ, if_neg hdrop, if_pos hmeet]
      · refine Or.inr (Or.inr ⟨by simp [settleNode, settle, happ, hdrop, hmeet], ?_⟩)
        rw [rotateVisit, if_pos happ, if_neg hdrop, if_neg hmeet, happ]
        rfl
  · have htrue : n.record.approval = true := by simpa using happ
    refine Or.inr (Or.inr ⟨?_, ?_⟩)
    · rw [settleNode, settle_approved htrue]
      rfl
    · rw [rotateVisit, if_neg happ, htrue]
      rfl

/-- One visit, at the first node left: the node is settled in place, the
prefetched pointer stands before the rest, and the count grows by one for an
approved node or for a released one whose approval still reads non-zero. -/
theorem rotateVisit_spec {o : Options} {t : Int} {stale : Node → Bool} {n : Node}
    {rest done rem : List Node} {s : Rotation} (ha : At s.history.toHashType (n :: rest) (n :: rem))
    (hs : s.history.nodes = done ++ n :: rem) :
    At (rotateVisit o t stale n s).history.toHashType
        (hashNextItem s.history.toHashType (n :: rest)) rem
      ∧ (rotateVisit o t stale n s).history.nodes = done ++ (settleNode o t n).toList ++ rem
      ∧ (rotateVisit o t stale n s).size
          = s.size + (approvedOf (settleNode o t n).toList).length
              + ((removedOf o t [n]).filter stale).length
      ∧ (rotateVisit o t stale n s).freed = s.freed ++ removedOf o t [n] := by
  rcases ha with ⟨hp, -⟩ | ⟨i, pre, hi, htab, -, hrem⟩
  · exact absurd hp (by simp)
  rw [List.cons_append, List.cons.injEq] at hrem
  obtain ⟨-, rfl⟩ := hrem
  rcases rotateVisit_cases o t stale n s with ⟨hset, hv⟩ | ⟨hset, hv⟩ | ⟨hset, hv⟩
  · have hrm : removedOf o t [n] = [n] := by simp [removedOf, hset]
    rw [hv, hset, hrm]
    refine ⟨s.history.delete_at hi htab, ?_, ?_, rfl⟩
    · rw [s.history.nodes_delete_of_split hs]
      simp
    · cases hst : stale n <;> simp [approvedOf, hst]
  · have hrm : removedOf o t [n] = [] := by simp [removedOf, hset]
    rw [hv, hset, hrm]
    refine ⟨s.history.store_at hi htab, ?_, by simp [approvedOf], by simp⟩
    rw [s.history.nodes_store_of_split hs]
    simp
  · have hrm : removedOf o t [n] = [] := by simp [removedOf, hset]
    rw [hv, hset, hrm]
    refine ⟨s.history.stay_at hi htab, by simp [hs], ?_, by simp⟩
    cases happ : n.record.approval <;> simp [approvedOf, happ]

/-- The whole loop, from the pointer before `rem`. -/
theorem rotateLoop_spec {o : Options} {t : Int} {stale : Node → Bool} :
    ∀ (fuel : Nat) (p rem done : List Node) (s : Rotation),
      At s.history.toHashType p rem → s.history.nodes = done ++ rem → rem.length ≤ fuel →
      (rotateLoop o t stale fuel p s).history.nodes = done ++ rem.filterMap (settleNode o t)
        ∧ (rotateLoop o t stale fuel p s).size
            = s.size + (approvedOf (rem.filterMap (settleNode o t))).length
                + ((removedOf o t rem).filter stale).length
        ∧ (rotateLoop o t stale fuel p s).freed = s.freed ++ removedOf o t rem := by
  intro fuel
  induction fuel with
  | zero =>
    intro p rem done s _ hs hf
    have hrem : rem = [] := List.length_eq_zero_iff.mp (by omega)
    subst hrem
    simp [rotateLoop, hs, approvedOf, removedOf]
  | succ fuel ih =>
    intro p rem done s ha hs hf
    cases rem with
    | nil =>
      rw [ha.nil_iff.mpr rfl]
      simp [rotateLoop, hs, approvedOf, removedOf]
    | cons n rem =>
      -- the pointer stands on the first node left
      obtain ⟨rest, rfl⟩ : ∃ rest, p = n :: rest := ha.head
      obtain ⟨ha', hs', hsize, hfreed⟩ := rotateVisit_spec (o := o) (t := t) ha hs
      obtain ⟨h1, h2, h3⟩ := ih _ rem _ _ ha' hs' (by simp at hf; omega)
      rw [rotateLoop]
      have hfm : (n :: rem).filterMap (settleNode o t)
          = (settleNode o t n).toList ++ rem.filterMap (settleNode o t) := by
        cases hn : settleNode o t n <;> simp [hn]
      have hrm : removedOf o t (n :: rem) = removedOf o t [n] ++ removedOf o t rem := by
        rw [removedOf, removedOf, removedOf, ← List.filter_append]
        rfl
      rw [h1, h2, h3, hsize, hfreed, hfm, hrm]
      refine ⟨by simp, ?_, by simp⟩
      simp only [approvedOf, List.filter_append, List.length_append]
      omega

/-- **The pass in closed form.** The nodes that stay are the settled ones, in
order; the released ones are exactly those that settle to nothing; and the
count is the number of approved nodes that stay, plus the released ones whose
approval still reads non-zero. -/
theorem historyRotate_spec (o : Options) (t : Int) (stale : Node → Bool) (h : History) :
    (historyRotate o t stale h).history.nodes = h.nodes.filterMap (settleNode o t)
      ∧ (historyRotate o t stale h).size
          = (approvedOf (historyRotate o t stale h).history.nodes).length
              + ((historyRotate o t stale h).freed.filter stale).length
      ∧ (historyRotate o t stale h).freed = removedOf o t h.nodes := by
  obtain ⟨h1, h2, h3⟩ := @rotateLoop_spec o t stale h.nodes.length
    (hashNextItem h.toHashType []) h.nodes [] ⟨h, 0, []⟩ (hashNextItem_first h.toHashType)
    (List.nil_append _).symm (Nat.le_refl _)
  rw [List.nil_append] at h1 h3
  unfold historyRotate
  rw [h2, h1, h3]
  exact ⟨rfl, by rw [Nat.zero_add], rfl⟩

/-- A node after the pass is a node before it, settled. -/
theorem mem_historyRotate {o : Options} {t : Int} {stale : Node → Bool} {h : History} {m : Node} :
    m ∈ (historyRotate o t stale h).history.nodes
      ↔ ∃ d, ⟨m.key, d⟩ ∈ h.nodes ∧ settle o t d = some m.record := by
  rw [(historyRotate_spec o t stale h).1, List.mem_filterMap]
  constructor
  · intro hm
    obtain ⟨⟨k, d⟩, hn, hs⟩ := hm
    rw [settleNode, Option.map_eq_some_iff] at hs
    obtain ⟨d', hd, rfl⟩ := hs
    exact ⟨d, hn, hd⟩
  · intro hm
    obtain ⟨d, hn, hs⟩ := hm
    exact ⟨⟨m.key, d⟩, hn, by rw [settleNode, hs]; rfl⟩

end Dotqoo.Capture
