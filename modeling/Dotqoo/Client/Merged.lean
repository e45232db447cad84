import Mathlib.Data.Finset.Dedup
import Mathlib.Order.Bounds.Basic
import Dotqoo.Client.Views
import Dotqoo.Lib.Upsert

/-!
# Merging does not depend on the order

Without the `port` option the rows of a key are one for each outer address, and a
record is merged into the row of its address by a linear search. The row that
comes out is described by `MergedFrom`: sums, the earliest and the latest time,
and the protocols without repetition. All of this is the same for every order of
the records; only the order of the rows and of the protocols inside a row is not.
-/

namespace Dotqoo.Client

open Dotqoo.Lib Dotqoo.Wire

/-- The rows of a key, grouped by outer address. -/
def byOuter : Grouping Tuple Row Nat where
  ofItem := fun t => swapEndian t.outerIp
  ofEntry := Row.outerIp
  make := fun t => newRow t 0
  merge := mergeRow
  make_group := fun _ => rfl
  merge_group := fun _ _ => rfl

theorem mergeRows_eq (t : Tuple) : ∀ rows : List Row, mergeRows t rows = byOuter.upsert t rows
  | [] => rfl
  | conn :: rest => by
    rw [mergeRows, Grouping.upsert, mergeRows_eq t rest]
    rfl

/-! ## What is in a row -/

/-- What some records have in a field. -/
def values (field : Tuple → Nat) (ts : List Tuple) : Set Nat := field '' {t | t ∈ ts}

theorem values_append (field : Tuple → Nat) (ts : List Tuple) (t : Tuple) :
    values field (ts ++ [t]) = values field ts ∪ {field t} := by
  have hset : {t' | t' ∈ ts ++ [t]} = {t' | t' ∈ ts} ∪ {t} := by
    ext t'
    simp [or_comm]
  rw [values, hset, Set.image_union, Set.image_singleton, values]

theorem values_singleton (field : Tuple → Nat) (t : Tuple) : values field [t] = {field t} := by
  have hset : {t' | t' ∈ [t]} = {t} := by
    ext t'
    simp
  rw [values, hset, Set.image_singleton]

/-- The row says of its records what it should. -/
structure MergedFrom (ts : List Tuple) (row : Row) : Prop where
  protocols : ∀ p, p ∈ row.protocols ↔ p ∈ values Tuple.protocol ts
  nodup : row.protocols.Nodup
  recv : row.recv = recvOf ts
  send : row.send = sendOf ts
  earliest : IsLeast (values Tuple.create ts) row.create
  latest : IsGreatest (values Tuple.endTime ts) row.endTime

theorem MergedFrom.make (t : Tuple) (outerPort : Nat) : MergedFrom [t] (newRow t outerPort) where
  protocols := fun p => by simp [newRow, values_singleton]
  nodup := List.nodup_singleton _
  recv := by simp [newRow, recvOf]
  send := by simp [newRow, sendOf]
  earliest := by
    rw [values_singleton]
    exact isLeast_singleton
  latest := by
    rw [values_singleton]
    exact isGreatest_singleton

theorem mergeRow_create (t : Tuple) (row : Row) :
    (mergeRow t row).create = min row.create t.create := by
  show (if t.create < row.create then t.create else row.create) = _
  split <;> omega

theorem mergeRow_endTime (t : Tuple) (row : Row) :
    (mergeRow t row).endTime = max row.endTime t.endTime := by
  show (if t.endTime > row.endTime then t.endTime else row.endTime) = _
  split <;> omega

/-- One more record is merged in. -/
theorem MergedFrom.merge {ts : List Tuple} {row : Row} (h : MergedFrom ts row) (t : Tuple) :
    MergedFrom (ts ++ [t]) (mergeRow t row) where
  protocols := by
    intro p
    rw [values_append, Set.mem_union, Set.mem_singleton_iff, ← h.protocols]
    unfold mergeRow
    split
    next hc =>
      have ht : t.protocol ∈ row.protocols := by simpa using hc
      exact ⟨Or.inl, fun hp => hp.elim id fun he => he ▸ ht⟩
    next => simp
  nodup := by
    unfold mergeRow
    split
    next => exact h.nodup
    next hc =>
      have ht : t.protocol ∉ row.protocols := by simpa using hc
      exact h.nodup.append (List.nodup_singleton _) (List.disjoint_singleton.mpr ht)
  recv := by
    show row.recv + t.recv = _
    simp [h.recv, recvOf]
  send := by
    show row.send + t.send = _
    simp [h.send, sendOf]
  earliest := by
    rw [mergeRow_create, values_append]
    exact h.earliest.union isLeast_singleton
  latest := by
    rw [mergeRow_endTime, values_append]
    exact h.latest.union isGreatest_singleton

/-- The row that the records of one group make. -/
theorem mergedFrom_entryOf : ∀ {ts : List Tuple} {row : Row}, byOuter.entryOf ts = some row →
    MergedFrom ts row
  | [], _, h => by cases h
  | t :: ts, row, h => by
    have hfold : ∀ (rest done : List Tuple) (row : Row), MergedFrom done row →
        MergedFrom (done ++ rest) (rest.foldl (fun row t => mergeRow t row) row) := by
      intro rest
      induction rest with
      | nil =>
        intro done row hrow
        rwa [List.append_nil]
      | cons t rest ih =>
        intro done row hrow
        rw [List.append_cons]
        exact ih _ _ (hrow.merge t)
    cases h
    exact hfold ts [t] _ (MergedFrom.make t 0)

/-! ## The table as a map -/

/-- The records of a box between an inner and an outer address. -/
def recordsBetween (boxid : Int) (inner outer : Nat) (pairs : List (Int × Tuple)) : List Tuple :=
  (recordsUnder (boxid, inner) pairs).filter fun t => swapEndian t.outerIp = outer

/-- The rows of a key for an outer address. -/
def rowsBetween (table : Table) (boxid : Int) (inner outer : Nat) : List Row :=
  ((table (boxid, inner)).getD []).filter fun row => row.outerIp = outer

/-- What of a row does not depend on the order of its protocols. -/
structure Summary where
  protocols : Finset Nat
  recv : Nat
  send : Nat
  create : Nat
  endTime : Nat

/-- A row, its protocols as a set. -/
def Row.summary (row : Row) : Summary :=
  ⟨row.protocols.toFinset, row.recv, row.send, row.create, row.endTime⟩

/-- The table as a map from box, inner and outer address. -/
def tableMap (table : Table) (triple : Int × Nat × Nat) : List Summary :=
  (rowsBetween table triple.1 triple.2.1 triple.2.2).map Row.summary

/-- The same records in another order give the same row. -/
theorem MergedFrom.summary_eq {ts ts' : List Tuple} {row row' : Row} (h : MergedFrom ts row)
    (h' : MergedFrom ts' row') (hperm : ts.Perm ts') : row.summary = row'.summary := by
  have hvalues : ∀ field, values field ts = values field ts' := by
    intro field
    have hset : {t | t ∈ ts} = {t | t ∈ ts'} := Set.ext fun t => hperm.mem_iff
    rw [values, values, hset]
  have hprotocols : row.protocols.toFinset = row'.protocols.toFinset := by
    ext p
    rw [List.mem_toFinset, List.mem_toFinset, h.protocols, h'.protocols, hvalues]
  have hrecv : row.recv = row'.recv := by
    rw [h.recv, h'.recv]
    exact (hperm.map _).sum_eq
  have hsend : row.send = row'.send := by
    rw [h.send, h'.send]
    exact (hperm.map _).sum_eq
  have hcreate := h'.earliest
  rw [← hvalues] at hcreate
  have hend := h'.latest
  rw [← hvalues] at hend
  rw [Row.summary, Row.summary, hprotocols, hrecv, hsend, h.earliest.unique hcreate,
    h.latest.unique hend]

/-- The same records in another order make a row that reads alike, or none. -/
theorem summary_entryOf_perm {ts ts' : List Tuple} (hperm : ts.Perm ts') :
    (byOuter.entryOf ts).map Row.summary = (byOuter.entryOf ts').map Row.summary := by
  cases hrow : byOuter.entryOf ts with
  | none =>
    have hnil := (byOuter.entryOf_eq_none_iff ts).mp hrow
    rw [hnil] at hperm
    rw [(byOuter.entryOf_eq_none_iff ts').mpr hperm.nil_eq.symm]
  | some row =>
    cases hrow' : byOuter.entryOf ts' with
    | none =>
      have hnil := (byOuter.entryOf_eq_none_iff ts').mp hrow'
      rw [hnil] at hperm
      rw [(byOuter.entryOf_eq_none_iff ts).mpr hperm.eq_nil] at hrow
      cases hrow
    | some row' =>
      have heq := (mergedFrom_entryOf hrow).summary_eq (mergedFrom_entryOf hrow') hperm
      exact congrArg some heq

/-- One row for every triple that has records, and it is made of them. -/
theorem rowsBetween_saveCalls (calls : List Call) (boxid : Int) (inner outer : Nat) :
    rowsBetween (saveCalls false calls emptyTable) boxid inner outer =
      if InNet inner then (byOuter.entryOf (recordsBetween boxid inner outer (filed calls))).toList
      else [] := by
  rw [rowsBetween, saveCalls_key]
  by_cases hne : recordsUnder (boxid, inner) (filed calls) = []
  · rw [if_neg fun h => h.2 hne, recordsBetween, hne]
    simp [Grouping.entryOf]
  · by_cases hin : InNet inner
    · have hfold : fileRows false (recordsUnder (boxid, inner) (filed calls)) []
          = (recordsUnder (boxid, inner) (filed calls)).foldl
            (fun rows t => byOuter.upsert t rows) [] :=
        List.foldl_ext _ _ _ fun rows t _ => mergeRows_eq t rows
      rw [if_pos ⟨hin, hne⟩, if_pos hin, Option.getD_some]
      show byOuter.entries outer (fileRows false _ []) = _
      rw [hfold, byOuter.entries_foldl_upsert]
      rfl
    · rw [if_neg fun h => hin h.1, if_neg hin]
      rfl

theorem recordsBetween_perm {pairs pairs' : List (Int × Tuple)} (h : pairs.Perm pairs')
    (boxid : Int) (inner outer : Nat) : (recordsBetween boxid inner outer pairs).Perm
      (recordsBetween boxid inner outer pairs') :=
  ((h.filter _).map _).filter _

/-- **Merging does not depend on the order.** Two sequences of calls that file the
same records, in whatever order and messages, leave tables that are equal as maps;
and every triple with a record in the net has exactly one row, which is merged
from its records. -/
theorem merge_order_free {calls calls' : List Call} (h : (filed calls).Perm (filed calls')) :
    tableMap (saveCalls false calls emptyTable) = tableMap (saveCalls false calls' emptyTable) ∧
      ∀ boxid inner outer,
        if InNet inner ∧ recordsBetween boxid inner outer (filed calls) ≠ [] then
          ∃ row, rowsBetween (saveCalls false calls emptyTable) boxid inner outer = [row] ∧
            MergedFrom (recordsBetween boxid inner outer (filed calls)) row
        else rowsBetween (saveCalls false calls emptyTable) boxid inner outer = [] := by
  constructor
  · funext ⟨boxid, inner, outer⟩
    have hperm := recordsBetween_perm h boxid inner outer
    rw [tableMap, tableMap, rowsBetween_saveCalls, rowsBetween_saveCalls]
    split
    next => rw [← Option.toList_map, ← Option.toList_map, summary_entryOf_perm hperm]
    next => rfl
  · intro boxid inner outer
    rw [rowsBetween_saveCalls]
    split
    next hin =>
      cases hrow : byOuter.entryOf (recordsBetween boxid inner outer (filed calls)) with
      | none => exact absurd ((byOuter.entryOf_eq_none_iff _).mp hrow) hin.2
      | some row =>
        rw [if_pos hin.1]
        exact ⟨row, rfl, mergedFrom_entryOf hrow⟩
    next hout =>
      split
      next hin =>
        rw [(byOuter.entryOf_eq_none_iff _).mpr (not_not.mp fun h => hout ⟨hin, h⟩)]
        rfl
      next => rfl

/-- A record as `STRUCT_TYPE` has it. -/
def packed (t : Tuple) : List UInt8 :=
  leBytes 4 t.outerIp ++ leBytes 2 t.outerPort ++ leBytes 4 t.innerIp ++ leBytes 2 t.innerPort
    ++ leBytes 2 t.protocol ++ leBytes 8 t.recv ++ leBytes 8 t.send ++ leBytes 4 t.create
    ++ leBytes 4 t.endTime

/-- A TCP record between 10.0.0.1 and 172.16.0.2. -/
def tcpTuple : Tuple := ⟨0x0100000A, 443, 0x020010AC, 0, 6, 40, 60, 10, 30⟩

/-- A UDP record between the two. -/
def udpTuple : Tuple := ⟨0x0100000A, 53, 0x020010AC, 0, 17, 1, 2, 5, 20⟩

/-- Both in one message, or in two messages the other way round. -/
theorem merge_order_free_swapped :
    tableMap (saveCalls false [⟨7, packed tcpTuple ++ packed udpTuple⟩] emptyTable)
        = tableMap (saveCalls false [⟨7, packed udpTuple⟩, ⟨7, packed tcpTuple⟩] emptyTable) ∧
      ∀ boxid inner outer,
        if InNet inner ∧ recordsBetween boxid inner outer
            (filed [⟨7, packed tcpTuple ++ packed udpTuple⟩]) ≠ [] then
          ∃ row, rowsBetween (saveCalls false [⟨7, packed tcpTuple ++ packed udpTuple⟩] emptyTable)
              boxid inner outer = [row] ∧
            MergedFrom (recordsBetween boxid inner outer
              (filed [⟨7, packed tcpTuple ++ packed udpTuple⟩])) row
        else rowsBetween (saveCalls false [⟨7, packed tcpTuple ++ packed udpTuple⟩] emptyTable)
          boxid inner outer = [] :=
  have hperm : (filed [⟨7, packed tcpTuple ++ packed udpTuple⟩]).Perm
      (filed [⟨7, packed udpTuple⟩, ⟨7, packed tcpTuple⟩]) := by decide
  merge_order_free hperm

end Dotqoo.Client
