import Dotqoo.Lib.Bytes
import Mathlib.Logic.Function.Basic
import Mathlib.Algebra.BigOperators.Group.List.Basic

/-!
# `mqtt_client.py`: `save_data` and `process`

The receiving side. A decompressed message is cut into `STRUCT_SIZE` slices,
each slice unpacked with `STRUCT_TYPE`, and each tuple filed in `table` under
(box id, inner address): as a row of its own with the `port` option, merged into
the row of its outer address without it. `process` adds up the rows of every
key.

Mirroring notes:
- Python integers are unbounded: everything unpacked is a `Nat`. The box id is
  an `int` of any size.
- The dictionaries are functions into `Option`: no code here depends on the
  order of their keys.
- `STRUCT_TYPE` starts with `=`: standard sizes, the byte order of the host,
  which is little-endian here.
- `s.unpack` raises on a slice of the wrong length. The records before it have
  been filed by then; `saveLoop` returns the table together with a flag that is
  `false` if the loop ended that way.
- The box writes `total_sent` where the client reads `recv`, and `total_recv`
  where it reads `send`. The names here are the client's.
-/

namespace Dotqoo.Client

open Dotqoo.Lib

/-- One unpacked record, in the order of the assignment in `save_data`. -/
structure Tuple where
  outerIp : Nat
  outerPort : Nat
  innerIp : Nat
  innerPort : Nat
  protocol : Nat
  recv : Nat
  send : Nat
  create : Nat
  endTime : Nat
  deriving DecidableEq, Repr

/-- The widths of `STRUCT_TYPE`, `=LHLHHQQLL`. -/
def structType : List Nat := [4, 2, 4, 2, 2, 8, 8, 4, 4]

/-- `STRUCT_SIZE`. -/
def structSize : Nat := structType.sum

/-- `s.unpack(..)`; `none` is `struct.error`. -/
def unpack (slice : List UInt8) : Option Tuple :=
  match unpackLe structType slice with
  | some [outerIp, outerPort, innerIp, innerPort, protocol, recv, send, create, endTime] =>
    some { outerIp, outerPort, innerIp, innerPort, protocol, recv, send, create, endTime }
  | _ => none

/-- `struct.unpack("<L", struct.pack(">L", ip))[0]`. -/
def swapEndian (ip : Nat) : Nat := ofLe (leBytes 4 ip).reverse

/-- A row of the table: `[outer_ip, outer_port, protocols, recv, send, create, end]`. -/
structure Row where
  outerIp : Nat
  outerPort : Nat
  protocols : List Nat
  recv : Nat
  send : Nat
  create : Nat
  endTime : Nat
  deriving DecidableEq, Repr

/-- `(boxid, inner_ip)`. -/
abbrev Key := Int × Nat

/-- `table`. -/
abbrev Table := Key → Option (List Row)

/-- `stat`: `[total_recv, total_send, total]` for every key. -/
abbrev Stat := Key → Option (Nat × Nat × Nat)

/-- The dictionary `{}`. -/
def emptyTable : Table := fun _ => none

/-- The row a record makes, with the port it keeps. -/
def newRow (t : Tuple) (outerPort : Nat) : Row where
  outerIp := swapEndian t.outerIp
  outerPort := outerPort
  protocols := [t.protocol]
  recv := t.recv
  send := t.send
  create := t.create
  endTime := t.endTime

/-- The row `conn` after a record was merged into it. -/
def mergeRow (t : Tuple) (conn : Row) : Row :=
  { conn with
    protocols :=
      if conn.protocols.contains t.protocol then conn.protocols
      else conn.protocols ++ [t.protocol]
    recv := conn.recv + t.recv
    send := conn.send + t.send
    create := if t.create < conn.create then t.create else conn.create
    endTime := if t.endTime > conn.endTime then t.endTime else conn.endTime }

/-- The loop over the rows of a key without the `port` option: merge into the
first row of the outer address, or append a row. -/
def mergeRows (t : Tuple) : List Row → List Row
  | [] => [newRow t 0]
  | conn :: rest =>
    -- the row's port is not compared, and not changed
    if conn.outerIp = swapEndian t.outerIp then mergeRow t conn :: rest
    else conn :: mergeRows t rest

/-- The filter for 172.16.0.0/16. -/
def isInner (ip : Nat) : Bool := ip &&& 0xFFFF0000 == 0xAC100000

/-- The rows of a key after a record was filed among them. -/
def fileRow (port : Bool) (t : Tuple) (rows : List Row) : List Row :=
  if port then rows ++ [newRow t t.outerPort] else mergeRows t rows

/-- The body of the loop of `save_data`, after the unpacking. -/
def saveRecord (port : Bool) (boxid : Int) (t : Tuple) (table : Table) : Table :=
  let innerIp := swapEndian t.innerIp
  if isInner innerIp = false then table
  else
    Function.update table (boxid, innerIp)
      (some (fileRow port t ((table (boxid, innerIp)).getD [])))

/-- The loop of `save_data` over the slices. -/
def saveLoop (port : Bool) (boxid : Int) : List (List UInt8) → Table → Table × Bool
  | [], table => (table, true)
  | slice :: slices, table =>
    match unpack slice with
    -- `struct.error`: what was filed so far stays filed
    | none => (table, false)
    | some t => saveLoop port boxid slices (saveRecord port boxid t table)

/-- `save_data`. -/
def saveData (port : Bool) (boxid : Int) (message : List UInt8) (table : Table) : Table × Bool :=
  saveLoop port boxid (slices structSize message) table

/-- `total_recv` of the rows of a key. -/
def totalRecv (info : List Row) : Nat := (info.map Row.recv).sum

/-- `total_send` of the rows of a key. -/
def totalSend (info : List Row) : Nat := (info.map Row.send).sum

/-- `process`. -/
def process (table : Table) (stat : Stat) : Stat := fun key =>
  match table key with
  | none => stat key
  | some info => some (totalRecv info, totalSend info, totalSend info + totalRecv info)

/-! ## Decoded messages -/

/-- The tuples of a message that unpacks to the end. -/
def decode (message : List UInt8) : Option (List Tuple) :=
  (slices structSize message).mapM unpack

/-- What `save_data` does with the tuples it has unpacked. -/
def saveTuples (port : Bool) (boxid : Int) (ts : List Tuple) (table : Table) : Table :=
  ts.foldl (fun table t => saveRecord port boxid t table) table

theorem saveLoop_of_unpack {port : Bool} {boxid : Int} : ∀ {ss : List (List UInt8)}
    {ts : List Tuple} {table : Table}, ss.mapM unpack = some ts →
    saveLoop port boxid ss table = (saveTuples port boxid ts table, true)
  | [], ts, table, h => by
    obtain rfl : [] = ts := by simpa using h
    rfl
  | slice :: ss, ts, table, h => by
    rw [List.mapM_cons] at h
    cases hu : unpack slice with
    | none =>
      rw [hu] at h
      exact absurd h (by simp)
    | some t =>
      simp only [hu, Option.bind_eq_bind, Option.bind_some] at h
      obtain ⟨ts', hts, hcons⟩ := Option.bind_eq_some_iff.mp h
      obtain rfl : t :: ts' = ts := Option.some.inj hcons
      simp only [saveLoop, hu]
      exact saveLoop_of_unpack hts

/-- A message that decodes is filed tuple by tuple, and the loop ends well. -/
theorem saveData_of_decode {port : Bool} {boxid : Int} {message : List UInt8} {ts : List Tuple}
    {table : Table} (h : decode message = some ts) :
    saveData port boxid message table = (saveTuples port boxid ts table, true) :=
  saveLoop_of_unpack h

/-! ## What is filed under a key -/

/-- The records of a message for one inner address. -/
def recordsFor (ip : Nat) (ts : List Tuple) : List Tuple :=
  ts.filter fun t => swapEndian t.innerIp == ip

theorem saveRecord_outside {port : Bool} {boxid : Int} {t : Tuple} {table : Table}
    (h : isInner (swapEndian t.innerIp) = false) : saveRecord port boxid t table = table := by
  unfold saveRecord
  rw [if_pos h]

theorem saveRecord_inside {port : Bool} {boxid : Int} {t : Tuple} {table : Table}
    (h : isInner (swapEndian t.innerIp) = true) :
    saveRecord port boxid t table = Function.update table (boxid, swapEndian t.innerIp)
      (some (fileRow port t ((table (boxid, swapEndian t.innerIp)).getD []))) := by
  unfold saveRecord
  rw [if_neg (by simp [h])]

/-- Filing a record concerns the key of its box and inner address, no other. -/
theorem saveRecord_other {port : Bool} {boxid : Int} {t : Tuple} {table : Table} {key : Key}
    (h : key ≠ (boxid, swapEndian t.innerIp)) : saveRecord port boxid t table key = table key := by
  by_cases hin : isInner (swapEndian t.innerIp) = true
  · rw [saveRecord_inside hin, Function.update_of_ne h]
  · rw [saveRecord_outside (by simpa using hin)]

theorem saveTuples_outside {port : Bool} {boxid : Int} {key : Key}
    (h : key.1 ≠ boxid ∨ isInner key.2 = false) : ∀ {ts : List Tuple} {table : Table},
    saveTuples port boxid ts table key = table key
  | [], _ => rfl
  | t :: ts, table => by
    show saveTuples port boxid ts (saveRecord port boxid t table) key = table key
    rw [saveTuples_outside h]
    by_cases hin : isInner (swapEndian t.innerIp) = true
    · refine saveRecord_other fun hk => ?_
      rcases h with h | h
      · exact h (by rw [hk])
      · rw [hk, hin] at h
        exact absurd h (by simp)
    · rw [saveRecord_outside (by simpa using hin)]

/-- **What a message leaves under a key of 172.16.0.0/16.** The records for the
address are filed among the rows that were there, in order; without such
records the key stays as it was. -/
theorem saveTuples_inside {port : Bool} {boxid : Int} {ip : Nat} (hip : isInner ip = true) :
    ∀ {ts : List Tuple} {table : Table}, saveTuples port boxid ts table (boxid, ip)
      = if recordsFor ip ts = [] then table (boxid, ip)
        else some ((recordsFor ip ts).foldl (fun rows t => fileRow port t rows)
          ((table (boxid, ip)).getD []))
  | [], _ => rfl
  | t :: ts, table => by
    show saveTuples port boxid ts (saveRecord port boxid t table) (boxid, ip) = _
    rw [saveTuples_inside hip]
    by_cases ht : swapEndian t.innerIp = ip
    · have hrec : recordsFor ip (t :: ts) = t :: recordsFor ip ts := by simp [recordsFor, ht]
      have hkey : saveRecord port boxid t table (boxid, ip)
          = some (fileRow port t ((table (boxid, ip)).getD [])) := by
        rw [saveRecord_inside (by rw [ht]; exact hip), ht, Function.update_self]
      rw [hrec, hkey, if_neg (List.cons_ne_nil _ _), List.foldl_cons]
      by_cases hnil : recordsFor ip ts = []
      · rw [if_pos hnil, hnil]
        rfl
      · rw [if_neg hnil]
        rfl
    · have hrec : recordsFor ip (t :: ts) = recordsFor ip ts := by simp [recordsFor, ht]
      rw [hrec, saveRecord_other fun hk => ht (congrArg Prod.snd hk).symm]

/-- With the `port` option every record is a row of its own. -/
theorem foldl_fileRow_port : ∀ (ts : List Tuple) (rows : List Row),
    ts.foldl (fun rows t => fileRow true t rows) rows
      = rows ++ ts.map fun t => newRow t t.outerPort
  | [], rows => (List.append_nil rows).symm
  | t :: ts, rows => by
    rw [List.foldl_cons, foldl_fileRow_port ts, List.map_cons, fileRow, if_pos rfl,
      List.append_assoc]
    rfl

/-- Merged or appended, a record adds its counts to those of the key. -/
theorem totals_fileRow (port : Bool) (t : Tuple) (rows : List Row) :
    totalRecv (fileRow port t rows) = totalRecv rows + t.recv
      ∧ totalSend (fileRow port t rows) = totalSend rows + t.send := by
  cases port with
  | true => simp [fileRow, totalRecv, totalSend, newRow]
  | false =>
    show totalRecv (mergeRows t rows) = _ ∧ totalSend (mergeRows t rows) = _
    induction rows with
    | nil => simp [mergeRows, totalRecv, totalSend, newRow]
    | cons conn rest ih =>
      rw [mergeRows]
      split
      next =>
        simp only [totalRecv, totalSend, List.map_cons, List.sum_cons, mergeRow]
        omega
      next =>
        simp only [totalRecv, totalSend, List.map_cons, List.sum_cons] at ih ⊢
        omega

theorem totals_foldl_fileRow (port : Bool) : ∀ (ts : List Tuple) (rows : List Row),
    totalRecv (ts.foldl (fun rows t => fileRow port t rows) rows)
        = totalRecv rows + (ts.map Tuple.recv).sum
      ∧ totalSend (ts.foldl (fun rows t => fileRow port t rows) rows)
        = totalSend rows + (ts.map Tuple.send).sum
  | [], rows => by simp
  | t :: ts, rows => by
    obtain ⟨hr, hs⟩ := totals_foldl_fileRow port ts (fileRow port t rows)
    obtain ⟨hr', hs'⟩ := totals_fileRow port t rows
    rw [List.foldl_cons, hr, hs, hr', hs', List.map_cons, List.map_cons, List.sum_cons,
      List.sum_cons]
    omega

end Dotqoo.Client
