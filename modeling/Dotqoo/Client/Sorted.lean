import Mathlib.Data.Prod.Lex
import Dotqoo.Client.OnMessage
import Dotqoo.Lib.Runs

/-!
# Sorting the boxes and hosts

`print_stat` sorts the keys of `stat` with `key_compare`, which folds the two
differences into one number: that of the boxes sixteen bits higher than that of
the addresses. An address has 32 bits, so this is the order of the pairs only
because all addresses of the table are in 172.16.0.0/16 and differ by less than
`2 ^ 16`. `InnerKeys` is that invariant, kept by every event.

`sorted` is a merge sort here; as documented, it asks for the sign of the
comparison only. CPython 2 itself wants an `int` of it and raises for a `long`,
which is what boxes with ids `2 ^ 47` apart give it; the model follows the
documentation.
-/

namespace Dotqoo.Client

open Dotqoo.Lib Dotqoo.Wire

/-- `key_compare`. -/
def keyCompare (x y : Key) : Int := ((x.1 - y.1) <<< (16 : Nat)) + ((x.2 : Int) - (y.2 : Int))

/-- `sorted(keys, cmp = key_compare)`. -/
def sortedKeys (keys : List Key) : List Key :=
  keys.mergeSort fun x y => decide (keyCompare x y ≤ 0)

/-- A key as a pair, in lexicographic order. -/
abbrev lexKey (x : Key) : Int ×ₗ Nat := toLex x

/-! ## The invariant -/

/-- All keys have an address of 172.16.0.0/16. -/
structure InnerKeys (s : ClientState) : Prop where
  table : ∀ key, s.table key ≠ none → InNet key.2
  stat : ∀ key, s.stat key ≠ none → InNet key.2

/-- Records are filed under addresses of the net only. -/
theorem inNet_savePairs {port : Bool} {pairs : List (Int × Tuple)} {table : Table}
    (h : ∀ key, table key ≠ none → InNet key.2) :
    ∀ key, savePairs port pairs table key ≠ none → InNet key.2 := by
  intro key hkey
  rw [savePairs_key] at hkey
  simp only [inner_recorded_iff] at hkey
  split at hkey
  next hin => exact hin.1
  next => exact h key hkey

theorem InnerKeys.step (decompress : List UInt8 → Option (List UInt8)) (port : Bool)
    (s : ClientState) (e : ClientEvent) (h : InnerKeys s) :
    InnerKeys (clientStep decompress port s e) := by
  cases e with
  | message topic payload =>
    refine ⟨?_, ?_⟩
    · show ∀ key, (onMessage decompress port s topic payload).1.table key ≠ none → _
      rcases onMessage_table decompress port s topic payload with
        hsame | ⟨message, boxid, -, -, hsaved⟩
      · rw [hsame]
        exact h.table
      · rw [hsaved]
        exact inNet_savePairs h.table
    · show ∀ key, (onMessage decompress port s topic payload).1.stat key ≠ none → _
      rw [onMessage_stat]
      exact h.stat
  | process =>
    refine ⟨h.table, fun key hkey => ?_⟩
    have hprocess : process s.table s.stat key ≠ none := hkey
    unfold Client.process at hprocess
    split at hprocess
    next => exact h.stat key hprocess
    next rows hrows => exact h.table key (by rw [hrows]; exact Option.some_ne_none rows)
  | clear => exact ⟨fun _ hkey => absurd rfl hkey, fun _ hkey => absurd rfl hkey⟩

theorem InnerKeys.run (decompress : List UInt8 → Option (List UInt8)) (port : Bool)
    (es : List ClientEvent) : InnerKeys (run (clientStep decompress port) clientStart es) :=
  run_invariant (InnerKeys.step decompress port) es
    ⟨fun _ hkey => absurd rfl hkey, fun _ hkey => absurd rfl hkey⟩

/-! ## The comparison -/

/-- On addresses of the net, `key_compare` has the sign of the lexicographic order. -/
theorem keyCompare_sign {x y : Key} (hx : InNet x.2) (hy : InNet y.2) :
    (keyCompare x y < 0 ↔ lexKey x < lexKey y) ∧ (keyCompare x y = 0 ↔ x = y) ∧
      (0 < keyCompare x y ↔ lexKey y < lexKey x) := by
  obtain ⟨b, i⟩ := x
  obtain ⟨b', i'⟩ := y
  have hnet : i / 2 ^ 16 = 0xAC10 := hx
  have hnet' : i' / 2 ^ 16 = 0xAC10 := hy
  have hvalue : keyCompare (b, i) (b', i') = (b - b') * 65536 + ((i : Int) - (i' : Int)) := by
    rw [keyCompare, Int.shiftLeft_eq]
    rfl
  rw [hvalue, Prod.Lex.toLex_lt_toLex, Prod.Lex.toLex_lt_toLex, Prod.mk.injEq]
  refine ⟨?_, ?_, ?_⟩
  all_goals omega

theorem keyCompare_le_iff {x y : Key} (hx : InNet x.2) (hy : InNet y.2) :
    keyCompare x y ≤ 0 ↔ lexKey x ≤ lexKey y := by
  have hpos := (keyCompare_sign hx hy).2.2
  rw [← not_lt, ← not_lt, hpos]

/-! ## The order of the output -/

/-- The entries of a box stand together. -/
def Grouped (keys : List Key) : Prop :=
  ∀ box, ∃ before hosts behind, keys = before ++ hosts ++ behind ∧ (∀ k ∈ hosts, k.1 = box) ∧
    ∀ k ∈ before ++ behind, k.1 ≠ box

/-- In a list that is sorted by its boxes, each box is one stretch. -/
theorem split_of_pairwise (box : Int) : ∀ {keys : List Key},
    keys.Pairwise (fun x y => x.1 ≤ y.1) →
    keys = keys.filter (fun k => k.1 < box) ++ keys.filter (fun k => k.1 = box)
      ++ keys.filter (fun k => box < k.1)
  | [], _ => rfl
  | k :: keys, hsorted => by
    obtain ⟨hk, hrest⟩ := List.pairwise_cons.mp hsorted
    have hsplit := split_of_pairwise box hrest
    rcases lt_trichotomy k.1 box with hlt | heq | hgt
    · have hne : k.1 ≠ box := ne_of_lt hlt
      have hnot : ¬ box < k.1 := not_lt_of_gt hlt
      simpa [hlt, hne, hnot] using hsplit
    · -- no smaller box comes behind
      have hnone : keys.filter (fun k => k.1 < box) = [] := by
        refine List.filter_eq_nil_iff.mpr fun y hy => ?_
        have hle := hk y hy
        simp
        omega
      rw [hnone, List.nil_append] at hsplit
      simpa [heq, hnone] using hsplit
    · have hnone : keys.filter (fun k => k.1 < box) = [] := by
        refine List.filter_eq_nil_iff.mpr fun y hy => ?_
        have hle := hk y hy
        simp
        omega
      have hnone' : keys.filter (fun k => k.1 = box) = [] := by
        refine List.filter_eq_nil_iff.mpr fun y hy => ?_
        have hle := hk y hy
        simp
        omega
      have hne : k.1 ≠ box := ne_of_gt hgt
      have hnot : ¬ k.1 < box := not_lt_of_gt hgt
      rw [hnone, hnone', List.nil_append, List.nil_append] at hsplit
      simpa [hgt, hne, hnot, hnone, hnone'] using hsplit

theorem grouped_of_pairwise {keys : List Key} (h : keys.Pairwise fun x y => x.1 ≤ y.1) :
    Grouped keys := by
  intro box
  refine ⟨_, _, _, split_of_pairwise box h, fun k hk => ?_, fun k hk => ?_⟩
  · simpa using (List.mem_filter.mp hk).2
  · rcases List.mem_append.mp hk with hlow | hhigh
    · have hlt : k.1 < box := by simpa using (List.mem_filter.mp hlow).2
      exact ne_of_lt hlt
    · have hgt : box < k.1 := by simpa using (List.mem_filter.mp hhigh).2
      exact ne_of_gt hgt

/-- Sorting keys of the net by `key_compare` is sorting them lexicographically. -/
theorem sortedKeys_eq {keys : List Key} (h : ∀ k ∈ keys, InNet k.2) :
    sortedKeys keys = keys.mergeSort fun x y => decide (lexKey x ≤ lexKey y) := by
  have hmap := List.map_mergeSort (l := keys) (f := id)
    (r := fun x y => decide (keyCompare x y ≤ 0)) (s := fun x y => decide (lexKey x ≤ lexKey y))
    fun x hx y hy => decide_eq_decide.mpr (keyCompare_le_iff (h x hx) (h y hy))
  rwa [List.map_id, List.map_id] at hmap

theorem pairwise_sortedKeys {keys : List Key} (h : ∀ k ∈ keys, InNet k.2) :
    (sortedKeys keys).Pairwise fun x y => lexKey x ≤ lexKey y := by
  rw [sortedKeys_eq h]
  have hsorted : (keys.mergeSort fun x y => decide (lexKey x ≤ lexKey y)).Pairwise
      fun x y => decide (lexKey x ≤ lexKey y) = true := List.pairwise_mergeSort
    (fun x y z hxy hyz => by
      simp only [decide_eq_true_eq] at hxy hyz ⊢
      exact le_trans hxy hyz)
    (fun x y => by
      simp only [Bool.or_eq_true, decide_eq_true_eq]
      exact le_total _ _) keys
  exact hsorted.imp fun hle => of_decide_eq_true hle

/-- **The client sorts boxes and hosts lexicographically.** After any run of
messages and commands, `key_compare` has on the keys of `stat` the sign of their
lexicographic order, for box ids of any size; so the output is sorted by it, and
the hosts of a box stand together. -/
theorem keys_sorted (decompress : List UInt8 → Option (List UInt8)) (port : Bool)
    (es : List ClientEvent) :
    (∀ x y, (run (clientStep decompress port) clientStart es).stat x ≠ none →
      (run (clientStep decompress port) clientStart es).stat y ≠ none →
        (keyCompare x y < 0 ↔ lexKey x < lexKey y) ∧ (keyCompare x y = 0 ↔ x = y) ∧
          (0 < keyCompare x y ↔ lexKey y < lexKey x)) ∧
    ∀ keys : List Key,
      (∀ k ∈ keys, (run (clientStep decompress port) clientStart es).stat k ≠ none) →
        (sortedKeys keys).Perm keys ∧ (sortedKeys keys).Pairwise (fun x y => lexKey x ≤ lexKey y) ∧
          Grouped (sortedKeys keys) := by
  have hinner := (InnerKeys.run decompress port es).stat
  refine ⟨fun x y hx hy => keyCompare_sign (hinner x hx) (hinner y hy), fun keys hkeys => ?_⟩
  have hsorted := pairwise_sortedKeys fun k hk => hinner k (hkeys k hk)
  refine ⟨List.mergeSort_perm .., hsorted, grouped_of_pairwise (hsorted.imp fun hle => ?_)⟩
  rcases Prod.Lex.toLex_le_toLex.mp hle with hlt | ⟨heq, -⟩
  · exact le_of_lt hlt
  · exact le_of_eq heq

end Dotqoo.Client
