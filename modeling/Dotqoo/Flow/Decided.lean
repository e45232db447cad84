import Dotqoo.Capture.Tick

/-!
# When a quiet record is decided

`history_rotate` has three tests, written one by one: too short, too little
traffic, enough of both. A record that is older than `CHECK_AFTER_N_SECS` and has
been quiet for `options.history_delete_interval` should meet one of them, and
either leave the table or be approved.

The two tests on the traffic are `< options.threshold` and `> options.threshold`.
A record that has lasted and has carried exactly `options.threshold` bytes meets
neither, and no later pass finds it any different (`undecided_forever`): it stays
in the table and is never reported. `decided_iff` says that this is the only
case.
-/

namespace Dotqoo.Capture

open Dotqoo.Table Dotqoo.Lib

/-- After the pass the record of the node is removed or approved. -/
def Decided (o : Options) (t : Int) (stale : Node → Bool) (h : History) (n : Node) : Prop :=
  ∀ m ∈ (historyRotate o t stale h).history.nodes, m.key = n.key → m.record.approval = true

/-- What a pass leaves under the key of a node is the node's record, settled. -/
theorem decided_iff_settle {o : Options} {t : Int} {stale : Node → Bool} {h : History} {n : Node}
    (hn : n ∈ h.nodes) :
    Decided o t stale h n ↔ ∀ d, settle o t n.record = some d → d.approval = true := by
  constructor
  · intro hd d hs
    exact hd ⟨n.key, d⟩ (mem_historyRotate.mpr ⟨n.record, hn, hs⟩) rfl
  · intro hd m hm hk
    obtain ⟨d, hmem, hs⟩ := mem_historyRotate.mp hm
    have heq := h.eq_of_key hmem hn hk
    have hrec : d = n.record := congrArg HashNode.record heq
    rw [hrec] at hs
    exact hd m.record hs

/-- A record that has lasted and carried exactly the threshold meets no test. -/
theorem settle_equal {o : Options} {t : Int} {d : HistoryType}
    (hdur : o.duration ≤ d.lastUpdateTime - d.createTime)
    (htotal : d.totalRecv + d.totalSent = o.threshold.toUInt64) : settle o t d = some d := by
  have hshort : isShortConnection o d t = false := by
    simp only [isShortConnection, Bool.and_eq_false_iff, decide_eq_false_iff_not]
    exact Or.inl (by omega)
  have hlow : isLowTrafficConnection o d t = false := by
    simp [isLowTrafficConnection, htotal]
  have hmeet : meetsCriteria o d = false := by
    simp [meetsCriteria, htotal]
  unfold settle
  rw [hshort, hlow, hmeet]
  simp

/-- Passes at the given times, one after the other. -/
def passes (o : Options) (stale : Node → Bool) (ts : List Int) (h : History) : History :=
  ts.foldl (fun h t => (historyRotate o t stale h).history) h

/-- Such a record survives every later pass unchanged. -/
theorem undecided_forever {o : Options} {stale : Node → Bool} {n : Node}
    (hdur : o.duration ≤ n.record.lastUpdateTime - n.record.createTime)
    (htotal : n.record.totalRecv + n.record.totalSent = o.threshold.toUInt64) :
    ∀ (ts : List Int) {h : History}, n ∈ h.nodes → n ∈ (passes o stale ts h).nodes := by
  intro ts
  induction ts with
  | nil => intro h hn; exact hn
  | cons t ts ih =>
    intro h hn
    exact ih (mem_historyRotate.mpr ⟨n.record, hn, settle_equal hdur htotal⟩)

/-- **A quiet record is decided unless its traffic equals the threshold.** -/
theorem decided_iff (o : Options) (t : Int) (stale : Node → Bool) (h : History) (n : Node)
    (hn : n ∈ h.nodes) (happ : n.record.approval = false)
    (hold : t - n.record.createTime > checkAfterNSecs)
    (hquiet : t - n.record.lastUpdateTime > o.historyDeleteInterval) :
    Decided o t stale h n ↔
      (n.record.lastUpdateTime - n.record.createTime < o.duration
        ∨ n.record.totalRecv + n.record.totalSent ≠ o.threshold.toUInt64) := by
  rw [decided_iff_settle hn]
  by_cases hdur : n.record.lastUpdateTime - n.record.createTime < o.duration
  · -- too short, whatever the traffic
    have hshort : isShortConnection o n.record t = true := by
      simp [isShortConnection, hdur, hold]
    have hnone : settle o t n.record = none := by
      simp [settle, happ, hshort]
    rw [hnone]
    exact ⟨fun _ => Or.inl hdur, fun _ d hd => absurd hd (by simp)⟩
  · have hlast : o.duration ≤ n.record.lastUpdateTime - n.record.createTime := by omega
    by_cases htotal : n.record.totalRecv + n.record.totalSent = o.threshold.toUInt64
    · rw [settle_equal hlast htotal]
      constructor
      · intro hd
        exact absurd ((hd n.record rfl).symm.trans happ) (by simp)
      · intro hc
        rcases hc with hc | hc
        · exact absurd hc hdur
        · exact absurd htotal hc
    · refine ⟨fun _ => Or.inr htotal, fun _ d hs => ?_⟩
      by_cases hless : n.record.totalRecv + n.record.totalSent < o.threshold.toUInt64
      · -- below the threshold and quiet: removed
        have hlow : isLowTrafficConnection o n.record t = true := by
          simp [isLowTrafficConnection, hless, hquiet]
        rw [settle, if_pos happ, if_pos (by simp [hlow])] at hs
        exact absurd hs (by simp)
      · -- above the threshold and long enough: approved
        have hmore : o.threshold.toUInt64 < n.record.totalRecv + n.record.totalSent :=
          UInt64.lt_of_le_of_ne (UInt64.not_lt.mp hless) fun he => htotal he.symm
        have hmeet : meetsCriteria o n.record = true := by
          simp [meetsCriteria, hlast, hmore]
        have hkeep : (isShortConnection o n.record t || isLowTrafficConnection o n.record t)
            = false := by
          simp [isShortConnection, isLowTrafficConnection, hdur, hless]
        rw [settle, if_pos happ, if_neg (by simp [hkeep]), if_pos hmeet] at hs
        rw [← Option.some.inj hs]

/-- A threshold of 40 bytes, and no other filter. -/
def fortyOptions : Options := { plainConfig.options with threshold := 40 }

/-- The table of a box that has seen `count` packets of 40 bytes, the last at 12. -/
def fortyTable (count : Nat) : History :=
  (run (step lp64) (boot { plainConfig with options := fortyOptions } 0 0 0 true)
    (List.replicate count (packetAt 12))).history

/-- The record of those packets. -/
def fortyNode (total : UInt64) : Node :=
  ⟨{ protocol := 6, srcPort := 1000, src := 16777226, dstPort := 80, dst := 33558700 },
    { totalSent := total, totalRecv := 0, createTime := 12, lastUpdateTime := 12,
      approval := false }⟩

instance : DecidableEq Node := fun n m =>
  decidable_of_iff (n.key = m.key ∧ n.record = m.record) (by
    cases n
    cases m
    simp)

theorem decided_iff_forty :
    Decided fortyOptions 200 (fun _ => false) (fortyTable 2) (fortyNode 80) ↔
      ((fortyNode 80).record.lastUpdateTime - (fortyNode 80).record.createTime
          < fortyOptions.duration
        ∨ (fortyNode 80).record.totalRecv + (fortyNode 80).record.totalSent
          ≠ fortyOptions.threshold.toUInt64) :=
  decided_iff fortyOptions 200 (fun _ => false) (fortyTable 2) (fortyNode 80)
    (by decide +kernel) rfl (by decide) (by decide)

/-- One packet of 40 bytes at 12, and a threshold of 40: at 200 the record is
old and quiet, and the pass neither removes nor approves it. -/
theorem decided_fails :
    fortyNode 40 ∈ (fortyTable 1).nodes
      ∧ (200 : Int) - (fortyNode 40).record.createTime > checkAfterNSecs
      ∧ (200 : Int) - (fortyNode 40).record.lastUpdateTime > fortyOptions.historyDeleteInterval
      ∧ ¬ Decided fortyOptions 200 (fun _ => false) (fortyTable 1) (fortyNode 40) := by
  refine ⟨by decide +kernel, by decide, by decide, fun hd => ?_⟩
  have hstays : fortyNode 40
      ∈ (historyRotate fortyOptions 200 (fun _ => false) (fortyTable 1)).history.nodes := by
    decide +kernel
  exact absurd (hd (fortyNode 40) hstays rfl) (by decide)

end Dotqoo.Capture
