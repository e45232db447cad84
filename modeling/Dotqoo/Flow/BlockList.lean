import Dotqoo.Capture.Packet
import Dotqoo.Config.Args
import Dotqoo.Lib.Sentinel

/-!
# The block list scan

    int i;
    ...
    while (options.block_protocols[i] != -1) {
        if (iptr->ip_p == options.block_protocols[i]) {
            return;
        }
        i++;
    }

Nothing gives `i` a value before the loop. `blockLoop` is the loop with a
checked read: an index outside the array ends it with `none`. `blocked`, which
the capture path uses, is the same loop with an arbitrary verdict in that case.

`blockLoop_exact_iff` says for which entry values the scan is what the option
`-Z` promises. Entry value 0 always is one; every other value is wrong for some
list (`exact_always_iff`).
-/

namespace Dotqoo.Capture

open Dotqoo.Lib Dotqoo.Config

/-- `options.block_protocols` with a terminator in it. -/
structure BlockArray where
  entries : List Int
  length_eq : entries.length = blockProtocolsLen
  terminated : -1 ∈ entries

/-- The listed protocols: the entries before the first -1. -/
def BlockArray.listed (a : BlockArray) : List Int := untilMark (-1) a.entries

/-- `options.block_protocols[i]`; `none` outside the array. -/
def entryAt (entries : List Int) (i : Int) : Option Int :=
  if 0 ≤ i then entries[i.toNat]? else none

theorem entryAt_some {entries : List Int} {i b : Int} (h : entryAt entries i = some b) :
    0 ≤ i ∧ i < entries.length := by
  unfold entryAt at h
  split at h
  next h0 =>
    obtain ⟨hlt, -⟩ := List.getElem?_eq_some_iff.mp h
    exact ⟨h0, by omega⟩
  next => exact absurd h (by simp)

/-- The loop: is the packet dropped? `none` when it reads outside the array. -/
def blockLoop (entries : List Int) (p : UInt8) (i : Int) : Option Bool :=
  match _h : entryAt entries i with
  | none => none
  | some b =>
    if b = -1 then some false
    else if (p.toNat : Int) = b then some true
    else blockLoop entries p (i + 1)
  termination_by (entries.length - i).toNat
  decreasing_by
    have := entryAt_some _h
    omega

/-- The scan of the capture path is a search for the protocol. -/
theorem blockScan_eq_search (p : UInt8) : ∀ entries : List Int,
    blockScan entries p = search (-1) (p.toNat : Int) entries
  | [] => rfl
  | b :: rest => by
    rw [blockScan, search, blockScan_eq_search p rest]

/-- From index `i` on the loop scans what is left of the array there. -/
theorem blockLoop_eq (entries : List Int) (p : UInt8) (i : Int) :
    blockLoop entries p i
      = if 0 ≤ i then blockScan (entries.drop i.toNat) p else none := by
  rw [blockLoop]
  by_cases h0 : 0 ≤ i
  · rw [if_pos h0]
    by_cases hlt : i.toNat < entries.length
    · have hread : entryAt entries i = some entries[i.toNat] := by
        rw [entryAt, if_pos h0, List.getElem?_eq_getElem hlt]
      have hnext : (i + 1).toNat = i.toNat + 1 := by omega
      have hrest := blockLoop_eq entries p (i + 1)
      rw [if_pos (by omega), hnext] at hrest
      rw [List.drop_eq_getElem_cons hlt, blockScan, ← hrest]
      split
      next hnone => exact absurd (hnone ▸ hread) (by simp)
      next b hsome =>
        obtain rfl : entries[i.toNat] = b := by simpa [hsome] using hread.symm
        rfl
    · have hread : entryAt entries i = none := by
        rw [entryAt, if_pos h0, List.getElem?_eq_none (by omega)]
      rw [List.drop_eq_nil_of_le (by omega), blockScan]
      split
      next => rfl
      next b hsome => exact absurd (hsome ▸ hread) (by simp)
  · have hread : entryAt entries i = none := by rw [entryAt, if_neg h0]
    rw [if_neg h0]
    split
    next => rfl
    next b hsome => exact absurd (hsome ▸ hread) (by simp)
  termination_by (entries.length - i).toNat
  decreasing_by omega

/-- What the capture path computes is this loop, with any verdict for a scan
that leaves the array. -/
theorem blocked_eq_blockLoop (o : Options) (p : UInt8) (i : Int) (wild : Bool) :
    blocked o p i wild = (blockLoop o.blockProtocols p i).getD wild := by
  rw [blocked, blockLoop_eq]
  split
  next => rfl
  next => rfl

/-- The scan is exact: it stays inside the array, and drops the packet exactly
if its protocol is listed. -/
def BlockArray.Exact (a : BlockArray) (p : UInt8) (i : Int) : Prop :=
  ∃ dropped, blockLoop a.entries p i = some dropped
    ∧ (dropped = true ↔ (p.toNat : Int) ∈ a.listed)

/-- The entry values that do no harm. At or before the terminator: the protocol
is not among the entries that are skipped, or is listed once more behind them.
Behind the terminator: what lies between the entry and the next -1 names the
protocol exactly if the list does. -/
def BlockArray.Harmless (a : BlockArray) (p : UInt8) (i : Int) : Prop :=
  0 ≤ i ∧
    if i ≤ a.listed.length then
      (p.toNat : Int) ∉ a.listed.take i.toNat ∨ (p.toNat : Int) ∈ a.listed.drop i.toNat
    else
      if (p.toNat : Int) ∈ a.listed then
        (p.toNat : Int) ∈ untilMark (-1) (a.entries.drop i.toNat)
      else
        -1 ∈ a.entries.drop i.toNat
          ∧ (p.toNat : Int) ∉ untilMark (-1) (a.entries.drop i.toNat)

/-- A protocol number is not the terminator. -/
theorem protocol_ne_mark (p : UInt8) : (p.toNat : Int) ≠ -1 := by omega

/-- Entered at or before the terminator, the scan ends there at the latest. -/
theorem BlockArray.blockLoop_early (a : BlockArray) (p : UInt8) {i : Int} (h0 : 0 ≤ i)
    (hi : i ≤ a.listed.length) : ∃ dropped, blockLoop a.entries p i = some dropped
      ∧ (dropped = true ↔ (p.toNat : Int) ∈ a.listed.drop i.toNat) := by
  have hin : i.toNat ≤ (untilMark (-1) a.entries).length := by
    unfold BlockArray.listed at hi
    omega
  have hmark : -1 ∈ a.entries.drop i.toNat := mark_mem_drop a.terminated hin
  obtain ⟨dropped, hs, hd⟩ := search_of_mem (protocol_ne_mark p) hmark
  refine ⟨dropped, ?_, ?_⟩
  · rw [blockLoop_eq, if_pos h0, blockScan_eq_search, hs]
  · rw [hd, untilMark_drop _ _ _ hin, BlockArray.listed]

/-- The scan is exact if and only if the entry value does no harm. -/
theorem blockLoop_exact_iff (a : BlockArray) (p : UInt8) (i : Int) :
    a.Exact p i ↔ a.Harmless p i := by
  unfold BlockArray.Exact BlockArray.Harmless
  by_cases h0 : 0 ≤ i
  · simp only [h0, true_and]
    by_cases hi : i ≤ a.listed.length
    · rw [if_pos hi]
      obtain ⟨dropped, hl, hd⟩ := a.blockLoop_early p h0 hi
      have hlisted : (p.toNat : Int) ∈ a.listed ↔ (p.toNat : Int) ∈ a.listed.take i.toNat
          ∨ (p.toNat : Int) ∈ a.listed.drop i.toNat := by
        rw [← List.mem_append, List.take_append_drop]
      simp only [hl, Option.some.injEq, exists_eq_left', hd, hlisted]
      tauto
    · rw [if_neg hi]
      have hscan : blockLoop a.entries p i
          = search (-1) (p.toNat : Int) (a.entries.drop i.toNat) := by
        rw [blockLoop_eq, if_pos h0, blockScan_eq_search]
      rw [hscan]
      split
      next hp =>
        rw [← search_eq_true_iff (protocol_ne_mark p)]
        constructor
        · rintro ⟨dropped, hs, hd⟩
          rw [hs, hd.mpr hp]
        · exact fun hs => ⟨true, hs, by simp [hp]⟩
      next hp =>
        rw [← search_eq_false_iff]
        constructor
        · rintro ⟨dropped, hs, hd⟩
          have hfalse : dropped = false := by
            cases dropped with
            | false => rfl
            | true => exact absurd (hd.mp rfl) hp
          rw [hs, hfalse]
        · exact fun hs => ⟨false, hs, by simp [hp]⟩
  -- a negative index is outside the array at once
  · simp [blockLoop_eq, h0]

/-- `-Z 1` after the defaults. -/
def blockIcmp : BlockArray where
  entries := 1 :: List.replicate 31 (-1)
  length_eq := rfl
  terminated := by decide

/-- An ICMP packet passes the list that blocks ICMP when the scan enters at 1. -/
theorem blockLoop_not_exact : ¬ blockIcmp.Exact 1 1 := by
  rintro ⟨dropped, hl, hd⟩
  have hlisted : ((1 : UInt8).toNat : Int) ∈ blockIcmp.listed := by decide
  rw [hd.mpr hlisted, blockLoop_eq] at hl
  exact absurd hl (by decide)

/-- Entered at 0, the scan is exact. -/
theorem exact_zero (a : BlockArray) (p : UInt8) : a.Exact p 0 := by
  obtain ⟨dropped, hl, hd⟩ := a.blockLoop_early p (Int.le_refl 0) (by omega)
  exact ⟨dropped, hl, by simpa using hd⟩

/-- No other entry value is right for all lists. -/
theorem exact_always_iff (i : Int) : (∀ (a : BlockArray) (p : UInt8), a.Exact p i) ↔ i = 0 := by
  constructor
  · intro h
    obtain ⟨dropped, hl, hd⟩ := h blockIcmp 1
    have hlisted : ((1 : UInt8).toNat : Int) ∈ blockIcmp.listed := by decide
    rw [hd.mpr hlisted, blockLoop_eq] at hl
    split at hl
    next h0 =>
      -- behind the first entry there is no 1
      rw [blockScan_eq_search, search_eq_true_iff (protocol_ne_mark 1)] at hl
      by_contra hne
      obtain ⟨k, hk⟩ : ∃ k, i.toNat = k + 1 := ⟨i.toNat - 1, by omega⟩
      have hmem := (List.takeWhile_sublist _).subset hl
      rw [hk, blockIcmp, List.drop_succ_cons, List.drop_replicate] at hmem
      exact absurd (List.eq_of_mem_replicate hmem) (protocol_ne_mark 1)
    next => exact absurd hl (by simp)
  · rintro rfl a p
    exact exact_zero a p

end Dotqoo.Capture
