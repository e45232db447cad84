import Dotqoo.Capture.Rotate

/-!
# The pass as a specification

What `history_rotate` is for, said without its loop: `prune` drops some nodes of
every chain and sets a flag in some of the others. `historyRotate_eq_prune` says
that the loop, which deletes by key from the table it walks, ends in that table.
A released record is read once more by the source, for the count; where such a
read still yields the last value of `approval`, which is `false`, the count is
the number of approved records in the table (`rotate_meets_spec`).
-/

namespace Dotqoo.Capture

open Dotqoo.Table Dotqoo.Lib

/-- The entries that go: not approved, and short or quiet. -/
def Dropped (o : Options) (t : Int) (d : HistoryType) : Prop :=
  d.approval = false ∧ (isShortConnection o d t = true ∨ isLowTrafficConnection o d t = true)

/-- The entries that get their approval, if they stay. -/
def Earned (o : Options) (d : HistoryType) : Prop :=
  d.approval = false ∧ d.lastUpdateTime - d.createTime ≥ o.duration
    ∧ d.totalRecv + d.totalSent > o.threshold.toUInt64

instance (o : Options) (t : Int) (d : HistoryType) : Decidable (Dropped o t d) :=
  inferInstanceAs (Decidable (_ ∧ _))

instance (o : Options) (d : HistoryType) : Decidable (Earned o d) :=
  inferInstanceAs (Decidable (_ ∧ _))

/-- An entry with its approval set, if it has earned it; nothing else changes. -/
def approve (o : Options) (n : Node) : Node :=
  if Earned o n.record then { n with record := { n.record with approval := true } } else n

/-- What stays of some nodes. -/
def kept (o : Options) (t : Int) (ns : List Node) : List Node :=
  (ns.filter (fun n => ¬ Dropped o t n.record)).map (approve o)

@[simp] theorem approve_key (o : Options) (n : Node) : (approve o n).key = n.key := by
  unfold approve
  split <;> rfl

theorem gather_kept (o : Options) (t : Int) (h : History) :
    gather addrHash.size (fun i => kept o t (h.table i)) = kept o t h.nodes := by
  unfold kept
  rw [gather_map, gather_filter]
  rfl

/-- The table after a pass: of every chain, what stays. -/
def prune (o : Options) (t : Int) (h : History) : History where
  table := fun i => kept o t (h.table i)
  placed := by
    intro i n hn
    obtain ⟨m, hm, rfl⟩ := List.mem_map.mp hn
    rw [approve_key]
    exact h.placed i m (List.mem_of_mem_filter hm)
  unique := by
    show ((gather addrHash.size fun i => kept o t (h.table i)).map HashNode.key).Nodup
    rw [gather_kept, kept, List.map_map]
    have hkeys : HashNode.key ∘ approve o = HashNode.key := funext (approve_key o)
    rw [hkeys]
    exact h.unique.sublist (List.filter_sublist.map _)

theorem nodes_prune (o : Options) (t : Int) (h : History) :
    (prune o t h).nodes = kept o t h.nodes :=
  gather_kept o t h

theorem dropped_iff {o : Options} {t : Int} {d : HistoryType} :
    Dropped o t d ↔ settle o t d = none := by
  rw [settle_eq_none_iff, Dropped, Bool.or_eq_true]

/-- What the loop does to a node is what the specification says. -/
theorem settleNode_eq (o : Options) (t : Int) (n : Node) :
    settleNode o t n = if Dropped o t n.record then none else some (approve o n) := by
  unfold settleNode
  by_cases hd : Dropped o t n.record
  · rw [if_pos hd, dropped_iff.mp hd]
    rfl
  · have hstay : ¬ (isShortConnection o n.record t
        || isLowTrafficConnection o n.record t) = true ∨ n.record.approval = true := by
      by_cases ha : n.record.approval = true
      · exact Or.inr ha
      · exact Or.inl fun hc => hd ⟨by simpa using ha, by simpa using hc⟩
    have hearned : Earned o n.record ↔
        n.record.approval = false ∧ meetsCriteria o n.record = true := by
      simp [Earned, meetsCriteria]
    rw [if_neg hd, settle, approve]
    by_cases ha : n.record.approval = false
    · rw [if_pos ha, if_neg (hstay.resolve_right (by simp [ha]))]
      by_cases hm : meetsCriteria o n.record = true
      · rw [if_pos hm, if_pos (hearned.mpr ⟨ha, hm⟩)]
        rfl
      · rw [if_neg hm, if_neg fun he => hm (hearned.mp he).2]
        rfl
    · rw [if_neg ha, if_neg fun he => ha (hearned.mp he).1]
      rfl

theorem filterMap_settleNode (o : Options) (t : Int) (ns : List Node) :
    ns.filterMap (settleNode o t) = kept o t ns := by
  rw [kept, ← List.filterMap_eq_map, List.filterMap_filter]
  refine List.filterMap_congr fun n _ => ?_
  rw [settleNode_eq]
  by_cases hd : Dropped o t n.record <;> simp [hd]

/-- The loop ends in the specified table. -/
theorem historyRotate_eq_prune (o : Options) (t : Int) (stale : Node → Bool) (h : History) :
    (historyRotate o t stale h).history = prune o t h := by
  apply KeyedTable.eq_of_nodes
  rw [(historyRotate_spec o t stale h).1, filterMap_settleNode, nodes_prune]

/-- A record that has been settled is left alone by the next pass at the same time. -/
theorem settle_settled {o : Options} {t : Int} {d d' : HistoryType} (h : settle o t d = some d') :
    settle o t d' = some d' := by
  rcases settle_cases o t d with ⟨-, -, hs⟩ | ⟨-, -, hs⟩ | hs
  · rw [hs] at h
    cases h
  · rw [hs] at h
    cases h
    exact settle_approved rfl
  · rw [hs] at h
    cases h
    exact hs

theorem prune_prune (o : Options) (t : Int) (h : History) :
    prune o t (prune o t h) = prune o t h := by
  apply KeyedTable.eq_of_nodes
  rw [nodes_prune, nodes_prune, ← filterMap_settleNode, ← filterMap_settleNode]
  -- node by node, the second pass finds everything settled
  refine (List.filterMap_filterMap ..).trans (List.filterMap_congr fun n _ => ?_)
  cases hs : settleNode o t n with
  | none => rfl
  | some m =>
    rw [settleNode, Option.map_eq_some_iff] at hs
    obtain ⟨d', hd, rfl⟩ := hs
    rw [Option.bind_some, settleNode, settle_settled hd]
    rfl

/-- With a last look that yields the last value, a released record is not counted. -/
theorem size_last_values (o : Options) (t : Int) (h : History) :
    (historyRotate o t (fun n => n.record.approval) h).size
      = (approvedOf (prune o t h).nodes).length := by
  obtain ⟨-, hsize, hfreed⟩ := historyRotate_spec o t (fun n => n.record.approval) h
  rw [hsize, historyRotate_eq_prune, hfreed]
  have hnone : (removedOf o t h.nodes).filter (fun n => n.record.approval) = [] := by
    refine List.filter_eq_nil_iff.mpr fun n hn => ?_
    rw [(mem_removedOf.mp hn).2.1]
    exact Bool.false_ne_true
  rw [hnone, List.length_nil, Nat.add_zero]

/-- **The pass is the specified one.** With released records keeping their last
values, `history_rotate` ends in the table without the dropped entries and with
the earned approvals, returns the number of approved entries in it, and a second
pass at the same time changes nothing and returns the same number. -/
theorem rotate_meets_spec (o : Options) (t : Int) (h : History) :
    let lastValue := fun n : Node => n.record.approval
    let r := historyRotate o t lastValue h
    r.history = prune o t h ∧ r.size = (approvedOf r.history.nodes).length
      ∧ (historyRotate o t lastValue r.history).history = r.history
      ∧ (historyRotate o t lastValue r.history).size = r.size := by
  intro lastValue r
  have hhistory : r.history = prune o t h := historyRotate_eq_prune o t lastValue h
  have hsize : r.size = (approvedOf r.history.nodes).length := by
    rw [hhistory]
    exact size_last_values o t h
  refine ⟨hhistory, hsize, ?_, ?_⟩
  · rw [historyRotate_eq_prune, hhistory, prune_prune]
  · have hagain : (historyRotate o t lastValue r.history).size
        = (approvedOf (prune o t r.history).nodes).length := size_last_values o t r.history
    rw [hagain, hsize, hhistory, prune_prune]

end Dotqoo.Capture
