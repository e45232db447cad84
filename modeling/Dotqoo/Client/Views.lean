import Dotqoo.Wire.Format

/-!
# The two views of the client

With the `port` option `save_data` keeps every record as a row of its own,
without it the records of an outer address are one row. `process` adds up the
rows of a key, and does not see the difference: `views_agree`.

What matters of a sequence of calls is which records they file in which order,
not how the records are spread over messages (`saveCalls_eq`). A message that
stops unpacking in the middle has filed what came before.
-/

namespace Dotqoo.Client

open Dotqoo.Lib Dotqoo.Wire

/-! ## Calls -/

/-- A call `save_data(boxid, decompressed_message)`. -/
structure Call where
  boxid : Int
  message : List UInt8

/-- The records in front of the first slice that does not unpack. -/
def unpacked : List (List UInt8) → List Tuple
  | [] => []
  | slice :: slices =>
    match unpack slice with
    | none => []
    | some t => t :: unpacked slices

/-- The records a call files, or drops. -/
def Call.records (c : Call) : List Tuple := unpacked (slices structSize c.message)

/-- The table after some calls. -/
def saveCalls (port : Bool) (calls : List Call) (table : Table) : Table :=
  calls.foldl (fun table c => (saveData port c.boxid c.message table).1) table

/-- The records of some calls, each with its box. -/
def filed (calls : List Call) : List (Int × Tuple) :=
  calls.flatMap fun c => c.records.map fun t => (c.boxid, t)

/-- Records filed one by one. -/
def savePairs (port : Bool) (pairs : List (Int × Tuple)) (table : Table) : Table :=
  pairs.foldl (fun table p => saveRecord port p.1 p.2 table) table

theorem saveLoop_eq {port : Bool} {boxid : Int} : ∀ (ss : List (List UInt8)) (table : Table),
    (saveLoop port boxid ss table).1 = savePairs port ((unpacked ss).map fun t => (boxid, t)) table
  | [], _ => rfl
  | slice :: ss, table => by
    rw [saveLoop, unpacked]
    cases unpack slice with
    | none => rfl
    | some t => exact saveLoop_eq ss (saveRecord port boxid t table)

/-- The messages are their records, one after the other. -/
theorem saveCalls_eq (port : Bool) : ∀ (calls : List Call) (table : Table),
    saveCalls port calls table = savePairs port (filed calls) table
  | [], _ => rfl
  | c :: calls, table => by
    rw [filed, List.flatMap_cons, savePairs, List.foldl_append]
    show saveCalls port calls (saveLoop port c.boxid _ table).1 = _
    rw [saveCalls_eq port calls, saveLoop_eq]
    rfl

/-! ## What is under a key -/

/-- The records for a key. -/
def recordsUnder (key : Key) (pairs : List (Int × Tuple)) : List Tuple :=
  (pairs.filter fun p => (p.1, swapEndian p.2.innerIp) = key).map Prod.snd

/-- Rows to which some records are added. -/
def fileRows (port : Bool) (ts : List Tuple) (rows : List Row) : List Row :=
  ts.foldl (fun rows t => fileRow port t rows) rows

/-- Under a key are its records, if it is one of 172.16.0.0/16. -/
theorem savePairs_key (port : Bool) (key : Key) : ∀ (pairs : List (Int × Tuple)) (table : Table),
    savePairs port pairs table key =
      if isInner key.2 = true ∧ recordsUnder key pairs ≠ [] then
        some (fileRows port (recordsUnder key pairs) ((table key).getD []))
      else table key
  | [], table => by simp [savePairs, recordsUnder]
  | p :: pairs, table => by
    show savePairs port pairs (saveRecord port p.1 p.2 table) key = _
    rw [savePairs_key port key pairs]
    by_cases hp : (p.1, swapEndian p.2.innerIp) = key
    · have hrec : recordsUnder key (p :: pairs) = p.2 :: recordsUnder key pairs := by
        simp [recordsUnder, hp]
      rw [hrec]
      subst hp
      by_cases hin : isInner (swapEndian p.2.innerIp) = true
      · rw [saveRecord_inside hin, Function.update_self]
        by_cases hnil : recordsUnder (p.1, swapEndian p.2.innerIp) pairs = []
        · simp [hin, hnil, fileRows]
        · simp [hin, hnil, fileRows]
      · rw [saveRecord_outside (by simpa using hin), if_neg fun h => hin h.1,
          if_neg fun h => hin h.1]
    · have hrec : recordsUnder key (p :: pairs) = recordsUnder key pairs := by
        simp [recordsUnder, hp]
      rw [hrec, saveRecord_other fun h => hp h.symm]

theorem swapEndian_lt (ip : Nat) : swapEndian ip < 2 ^ 32 := by
  have hlt := ofLe_lt (leBytes 4 ip).reverse
  rw [List.length_reverse, length_leBytes] at hlt
  exact hlt

/-- The filter lets exactly the addresses of 172.16.0.0/16 through. -/
theorem inner_recorded_iff (key : Key) (pairs : List (Int × Tuple)) :
    isInner key.2 = true ∧ recordsUnder key pairs ≠ [] ↔
      InNet key.2 ∧ recordsUnder key pairs ≠ [] := by
  refine and_congr_left fun hne => isInner_iff ?_
  obtain ⟨t, ht⟩ := List.exists_mem_of_ne_nil _ hne
  obtain ⟨p, hp, -⟩ := List.mem_map.mp ht
  have hkey := (List.mem_filter.mp hp).2
  rw [← of_decide_eq_true hkey]
  exact swapEndian_lt _

/-- The bytes that the records of a key report, as `recv` and as `send`. -/
def recvOf (ts : List Tuple) : Nat := (ts.map Tuple.recv).sum

/-- The bytes sent. -/
def sendOf (ts : List Tuple) : Nat := (ts.map Tuple.send).sum

instance (ip : Nat) : Decidable (InNet ip) := inferInstanceAs (Decidable (_ = _))

/-- The dictionary `{}`. -/
def emptyStat : Stat := fun _ => none

/-- What some calls leave under a key of an empty table. -/
theorem saveCalls_key (port : Bool) (calls : List Call) (key : Key) :
    saveCalls port calls emptyTable key =
      if InNet key.2 ∧ recordsUnder key (filed calls) ≠ [] then
        some (fileRows port (recordsUnder key (filed calls)) [])
      else none := by
  rw [saveCalls_eq, savePairs_key]
  simp only [inner_recorded_iff]
  rfl

/-- The entry of a key in `stat`, in either view. -/
theorem process_saveCalls (port : Bool) (calls : List Call) (key : Key) :
    process (saveCalls port calls emptyTable) emptyStat key =
      if InNet key.2 ∧ recordsUnder key (filed calls) ≠ [] then
        some (recvOf (recordsUnder key (filed calls)), sendOf (recordsUnder key (filed calls)),
          sendOf (recordsUnder key (filed calls)) + recvOf (recordsUnder key (filed calls)))
      else none := by
  rw [process, saveCalls_key]
  by_cases hne : InNet key.2 ∧ recordsUnder key (filed calls) ≠ []
  · obtain ⟨hr, hs⟩ := totals_foldl_fileRow port (recordsUnder key (filed calls)) []
    have hrecv : totalRecv (fileRows port (recordsUnder key (filed calls)) [])
        = recvOf (recordsUnder key (filed calls)) := hr.trans (Nat.zero_add _)
    have hsend : totalSend (fileRows port (recordsUnder key (filed calls)) [])
        = sendOf (recordsUnder key (filed calls)) := hs.trans (Nat.zero_add _)
    rw [if_pos hne, if_pos hne, ← hrecv, ← hsend]
  · rw [if_neg hne, if_neg hne]
    rfl

/-- **Both views show the same totals.** For every sequence of calls the `stat` of
one view is that of the other, and has for every key of 172.16.0.0/16 with a
record the sums over its records, and no other keys. -/
theorem views_agree (calls : List Call) :
    process (saveCalls true calls emptyTable) emptyStat
        = process (saveCalls false calls emptyTable) emptyStat ∧
      ∀ port key, process (saveCalls port calls emptyTable) emptyStat key =
        if InNet key.2 ∧ recordsUnder key (filed calls) ≠ [] then
          some (recvOf (recordsUnder key (filed calls)), sendOf (recordsUnder key (filed calls)),
            sendOf (recordsUnder key (filed calls)) + recvOf (recordsUnder key (filed calls)))
        else none := by
  refine ⟨?_, fun port key => process_saveCalls port calls key⟩
  funext key
  rw [process_saveCalls, process_saveCalls]

end Dotqoo.Client
