import Dotqoo.Capture.Pass

/-!
# Reading a record that has been released

`history_rotate` once more, with the records where they are in the source: on the
heap, the table holding pointers to them. A read of a record that is not there is
an error (`none`), so this pass ends exactly if no record is looked at after it
was released.

The source tests `d->approval` for the count after the branch that frees `d`.
`rotateStored_iff` says that this is the only such read and that there is always
one: the pass fails as soon as there is an entry to remove. Where there is none
it is the pass of `Dotqoo.Capture.Rotate` (`rotateStored_spec`).
-/

namespace Dotqoo.Capture

open Dotqoo.Table Dotqoo.Lib

/-- The address of a record. -/
abbrev RecordPtr := Nat

/-- The history table as the source has it: pointers in the table, records on the
heap. -/
structure Stored where
  table : KeyedTable addrHash RecordPtr
  heap : RecordPtr → Option HistoryType

/-- A table in order: every record is there, and no two entries share one. -/
structure StoredHistory extends Stored where
  allocated : ∀ n ∈ table.nodes, (heap n.record).isSome
  distinct : (table.nodes.map HashNode.record).Nodup

/-- The local state of the pass. -/
structure StoredPass extends Stored where
  size : Nat

/-- The body of the loop, at the node `n`; every look at `d` is a read of the heap. -/
def storedVisit (o : Options) (t : Int) (n : HashNode AddrPair RecordPtr) (s : StoredPass) :
    Option StoredPass := do
  let d ← s.heap n.record
  let s ← if d.approval = false then do
      let d ← s.heap n.record
      if isShortConnection o d t || isLowTrafficConnection o d t then
        some { s with
          table := s.table.delete n.key
          heap := Function.update s.heap n.record none }
      else do
        let d ← s.heap n.record
        if meetsCriteria o d then
          some { s with heap := Function.update s.heap n.record (some { d with approval := true }) }
        else some s
    else some s
  -- the count looks at `d` whatever happened to it
  let d ← s.heap n.record
  some { s with size := s.size + d.approval.toNat }

/-- The loop `while (n != NULL)`. -/
def storedLoop (o : Options) (t : Int) :
    Nat → List (HashNode AddrPair RecordPtr) → StoredPass → Option StoredPass
  | 0, _, s => some s
  | _ + 1, [], s => some s
  | fuel + 1, n :: rest, s => do
    let next := hashNextItem s.table.toHashType (n :: rest)
    let s ← storedVisit o t n s
    storedLoop o t fuel next s

/-- `history_rotate`, with the records on the heap. -/
def rotateStored (o : Options) (t : Int) (s : Stored) : Option StoredPass :=
  storedLoop o t s.table.nodes.length (hashNextItem s.table.toHashType []) ⟨s, 0⟩

/-! ## The visit and the loop -/

section Pass

variable {o : Options} {t : Int} {n : HashNode AddrPair RecordPtr} {d d' : HistoryType}
  {s : StoredPass}

/-- A record the pass removes is read again right after it was released. -/
theorem storedVisit_drops (hd : s.heap n.record = some d) (hs : settle o t d = none) :
    storedVisit o t n s = none := by
  obtain ⟨happ, hdrop⟩ := settle_eq_none_iff.mp hs
  rw [Bool.or_eq_true] at hdrop
  unfold storedVisit
  simp [hd, happ, hdrop]

/-- Any other is written back as the pass leaves it, and counted if it is approved. -/
theorem storedVisit_stays (hd : s.heap n.record = some d) (hs : settle o t d = some d') :
    storedVisit o t n s = some { s with
      heap := Function.update s.heap n.record (some d')
      size := s.size + d'.approval.toNat } := by
  have hsame : Function.update s.heap n.record (some d) = s.heap := by
    rw [← hd, Function.update_eq_self]
  unfold settle at hs
  unfold storedVisit
  by_cases happ : d.approval = false
  · rw [if_pos happ] at hs
    by_cases hdrop : (isShortConnection o d t || isLowTrafficConnection o d t) = true
    · rw [if_pos hdrop] at hs
      cases hs
    · rw [if_neg hdrop] at hs
      rw [Bool.or_eq_true] at hdrop
      by_cases hmeet : meetsCriteria o d = true
      · rw [if_pos hmeet] at hs
        cases hs
        simp [hd, happ, hdrop, hmeet]
      · rw [if_neg hmeet] at hs
        cases hs
        simp [hd, happ, hdrop, hmeet, hsame]
  · rw [if_neg happ] at hs
    cases hs
    simp [hd, happ, hsame]

/-- The loop from a pointer that has the nodes `rem` still to visit: it fails if
one of them is to be removed, and otherwise settles their records, leaving the
table and every other record alone. -/
theorem storedLoop_spec : ∀ (fuel : Nat) (p rem : List (HashNode AddrPair RecordPtr))
    (s : StoredPass), At s.table.toHashType p rem → rem.length ≤ fuel →
    (∀ n ∈ rem, (s.heap n.record).isSome) → (rem.map HashNode.record).Nodup →
    ((∃ n ∈ rem, ∃ d, s.heap n.record = some d ∧ settle o t d = none) ∧
      storedLoop o t fuel p s = none) ∨
    ((∀ n ∈ rem, ∀ d, s.heap n.record = some d → settle o t d ≠ none) ∧
      ∃ r, storedLoop o t fuel p s = some r ∧ r.table = s.table
        ∧ (∀ n ∈ rem, r.heap n.record = (s.heap n.record).bind (settle o t))
        ∧ (∀ a, a ∉ rem.map HashNode.record → r.heap a = s.heap a)
        ∧ r.size = s.size + (rem.filter fun n =>
            ((r.heap n.record).map HistoryType.approval).getD false).length) := by
  intro fuel
  induction fuel with
  | zero =>
    intro p rem s _ hf _ _
    obtain rfl : rem = [] := List.length_eq_zero_iff.mp (by omega)
    exact Or.inr ⟨by simp, s, rfl, rfl, by simp, by simp, by simp⟩
  | succ fuel ih =>
    intro p rem s ha hf hsome hdistinct
    cases rem with
    | nil =>
      rw [ha.nil_iff.mpr rfl]
      exact Or.inr ⟨by simp, s, rfl, rfl, by simp, by simp, by simp⟩
    | cons n rem =>
      obtain ⟨rest, rfl⟩ := ha.head
      obtain ⟨d, hd⟩ := Option.isSome_iff_exists.mp (hsome n List.mem_cons_self)
      rw [List.map_cons, List.nodup_cons] at hdistinct
      have hne : ∀ m ∈ rem, m.record ≠ n.record := fun m hm heq =>
        hdistinct.1 (heq ▸ List.mem_map_of_mem hm)
      cases hs : settle o t d with
      | none =>
        refine Or.inl ⟨⟨n, List.mem_cons_self, d, hd, hs⟩, ?_⟩
        rw [storedLoop, storedVisit_drops hd hs]
        rfl
      | some d' =>
        -- the records still to come are as they were
        have hvisit := storedVisit_stays hd hs
        have hheap : ∀ m ∈ rem, Function.update s.heap n.record (some d') m.record
            = s.heap m.record := fun m hm => Function.update_of_ne (hne m hm) _ _
        have hrest := ih (hashNextItem s.table.toHashType (n :: rest)) rem
          { s with
            heap := Function.update s.heap n.record (some d')
            size := s.size + d'.approval.toNat }
          ha.next (by simpa using hf)
          (fun m hm => by
            show (Function.update s.heap n.record (some d') m.record).isSome
            rw [hheap m hm]
            exact hsome m (List.mem_cons_of_mem _ hm))
          hdistinct.2
        rw [storedLoop, hvisit, Option.bind_eq_bind, Option.bind_some]
        rcases hrest with ⟨⟨m, hm, e, he, hgoes⟩, hnone⟩
          | ⟨hstays, r, hr, htable, hhere, hother, hsize⟩
        · refine Or.inl ⟨⟨m, List.mem_cons_of_mem _ hm, e, ?_, hgoes⟩, hnone⟩
          rw [← hheap m hm]
          exact he
        · have hn : r.heap n.record = some d' := by
            rw [hother n.record hdistinct.1]
            exact Function.update_self _ _ _
          refine Or.inr ⟨fun m hm e he => ?_, r, hr, htable, fun m hm => ?_, fun a ha => ?_, ?_⟩
          · rcases List.mem_cons.mp hm with rfl | hm
            · rw [hd] at he
              cases he
              rw [hs]
              exact Option.some_ne_none d'
            · refine hstays m hm e ?_
              show Function.update s.heap n.record (some d') m.record = some e
              rw [hheap m hm]
              exact he
          · rcases List.mem_cons.mp hm with rfl | hm
            · rw [hn, hd, Option.bind_some, hs]
            · rw [hhere m hm]
              exact congrArg (Option.bind · (settle o t)) (hheap m hm)
          · rw [List.map_cons, List.mem_cons, not_or] at ha
            rw [hother a ha.2]
            exact Function.update_of_ne ha.1 _ _
          · rw [hsize, List.filter_cons]
            cases happ : d'.approval <;> simp [hn, happ]
            omega

end Pass

/-! ## The pass as a whole -/

/-- The table with its records read. -/
def Stored.view (s : Stored) : History :=
  s.table.mapRecords fun p => (s.heap p).getD HistoryType.zero

/-- What becomes of a table in order. -/
theorem rotateStored_cases (o : Options) (t : Int) (s : StoredHistory) :
    ((∃ n ∈ s.table.nodes, ∃ d, s.heap n.record = some d ∧ settle o t d = none) ∧
      rotateStored o t s.toStored = none) ∨
    ((∀ n ∈ s.table.nodes, ∀ d, s.heap n.record = some d → settle o t d ≠ none) ∧
      ∃ r, rotateStored o t s.toStored = some r ∧ r.table = s.table
        ∧ (∀ n ∈ s.table.nodes, r.heap n.record = (s.heap n.record).bind (settle o t))
        ∧ r.size = (s.table.nodes.filter fun n =>
            ((r.heap n.record).map HistoryType.approval).getD false).length) := by
  have hfirst : At s.table.toHashType (hashNextItem s.table.toHashType []) s.table.nodes :=
    hashNextItem_first s.table.toHashType
  rcases storedLoop_spec (o := o) (t := t) s.table.nodes.length _ _ ⟨s.toStored, 0⟩ hfirst
    (Nat.le_refl _) s.allocated s.distinct with hgoes | ⟨hstays, r, hr, htable, hhere, -, hsize⟩
  · exact Or.inl hgoes
  · exact Or.inr ⟨hstays, r, hr, htable, hhere, hsize.trans (Nat.zero_add _)⟩

/-- With nothing to remove, the pass on the heap is the pass on the values. -/
theorem rotateStored_spec {o : Options} {t : Int} {s : StoredHistory}
    (h : ∀ n ∈ s.table.nodes, ∀ d, s.heap n.record = some d → ¬ Dropped o t d) :
    ∃ r, rotateStored o t s.toStored = some r ∧ r.view = prune o t s.view
      ∧ r.size = (approvedOf (prune o t s.view).nodes).length := by
  rcases rotateStored_cases o t s with
    ⟨⟨n, hn, d, hd, hgoes⟩, -⟩ | ⟨-, r, hr, htable, hhere, hsize⟩
  · exact absurd (dropped_iff.mpr hgoes) (h n hn d hd)
  have hview : r.view = prune o t s.view := by
    apply KeyedTable.eq_of_nodes
    rw [nodes_prune, ← filterMap_settleNode, Stored.view, Stored.view, KeyedTable.nodes_mapRecords,
      KeyedTable.nodes_mapRecords, htable, List.filterMap_map, ← List.filterMap_eq_map]
    refine List.filterMap_congr fun n hn => ?_
    obtain ⟨d, hd⟩ := Option.isSome_iff_exists.mp (s.allocated n hn)
    obtain ⟨d', hd'⟩ := Option.ne_none_iff_exists'.mp fun hnone =>
      h n hn d hd (dropped_iff.mpr hnone)
    simp [hhere n hn, hd, hd', settleNode]
  refine ⟨r, hr, hview, ?_⟩
  rw [← hview, hsize, Stored.view, KeyedTable.nodes_mapRecords, approvedOf, List.filter_map,
    List.length_map, htable]
  congr 1
  refine List.filter_congr fun n hn => ?_
  cases hd : r.heap n.record with
  | none => simp [hd, HistoryType.zero]
  | some d => simp [hd]

/-- **The pass looks at a released record exactly if it releases one.** -/
theorem rotateStored_iff (o : Options) (t : Int) (s : StoredHistory) :
    rotateStored o t s.toStored ≠ none ↔
      ∀ n ∈ s.table.nodes, ∀ d, s.heap n.record = some d → ¬ Dropped o t d := by
  rcases rotateStored_cases o t s with ⟨⟨n, hn, d, hd, hgoes⟩, hnone⟩ | ⟨hstays, r, hr, -⟩
  · constructor
    · intro h
      exact absurd hnone h
    · intro h
      exact absurd (dropped_iff.mpr hgoes) (h n hn d hd)
  · constructor
    · intro _ n hn d hd hdrop
      exact hstays n hn d hd (dropped_iff.mp hdrop)
    · intro _
      rw [hr]
      exact Option.some_ne_none r

/-- The thresholds of the shipped argument file: 300 bytes within 60 seconds. -/
def idleOptions : Options where
  promiscuousButChoosy := false
  netfilter := false
  netfilternet := 0
  netfiltermask := 0
  historyDeleteInterval := 60
  threshold := 300
  duration := 0
  blockProtocols := List.replicate 32 (-1)
  sendInterval := 0

/-- One connection, with one packet of 40 bytes at 12. -/
def idleStored : StoredHistory where
  table := (KeyedTable.empty addrHash RecordPtr).insert
    { protocol := 6, srcPort := 1000, src := 16777226, dstPort := 80, dst := 33558700 } 7 rfl
  heap := fun p => if p = 7 then some ⟨40, 0, 12, 12, false⟩ else none
  allocated := by decide +kernel
  distinct := by decide +kernel

/-- At 100 it has been quiet for too long: it is released, and looked at again. -/
theorem rotateStored_fails : rotateStored idleOptions 100 idleStored.toStored = none :=
  Option.isNone_iff_eq_none.mp (by decide +kernel)

end Dotqoo.Capture
