import Dotqoo.Publish.Moves
import Dotqoo.Wire.Format

/-!
# The client's totals against the box's

The box keeps an approved record for good and sends its running totals with
every message. The client adds: with or without the `port` option, every record
that arrives is added to what is filed under its address. So after several
messages the entry in `stat` is the sum over all of them, and it is the box's
own total exactly if the earlier messages carried no bytes for the address.

The records are taken as decoded to the fields the box encoded (`wireTuple`);
whether they are is the business of `Dotqoo.Wire.Format`.
-/

namespace Dotqoo.Wire

open Dotqoo.Lib Dotqoo.Table Dotqoo.Capture Dotqoo.Client

/-- The messages a box has published, in order. -/
def publishedMessages (log : List Action) : List Message :=
  log.filterMap fun
    | .publish (some _) (.live msg) _ => some msg
    | _ => none

/-- The client's table after some messages of one box, from an empty one. -/
def received (port : Bool) (boxid : Int) (msgs : List Message) : Table :=
  msgs.foldl (fun table msg => saveTuples port boxid (msg.slots.map wireTuple) table) emptyTable

/-- The records of a message for one inner address. -/
def slotsFor (ip : Nat) (msg : Message) : List Node :=
  msg.slots.filter fun n => hostOrder n.key.dst == ip

/-- What a message reports for an address, in one of the two counters. The
client's `recv` is the box's `total_sent`, its `send` the box's `total_recv`. -/
def reported (counter : HistoryType → UInt64) (ip : Nat) (msg : Message) : Nat :=
  ((slotsFor ip msg).map fun n => (counter n.record).toNat).sum

/-- What several messages report for an address, together. -/
def reportedAll (counter : HistoryType → UInt64) (ip : Nat) (msgs : List Message) : Nat :=
  (msgs.map (reported counter ip)).sum

/-! ## What has arrived for an address -/

/-- One message adds what it reports to the rows of an address, and makes the
key if it has a record for it. -/
theorem rows_saveTuples (port : Bool) (boxid : Int) {ip : Nat} (hip : isInner ip = true)
    (msg : Message) (table : Table) :
    totalRecv ((saveTuples port boxid (msg.slots.map wireTuple) table (boxid, ip)).getD [])
        = totalRecv ((table (boxid, ip)).getD []) + reported HistoryType.totalSent ip msg
      ∧ totalSend ((saveTuples port boxid (msg.slots.map wireTuple) table (boxid, ip)).getD [])
        = totalSend ((table (boxid, ip)).getD []) + reported HistoryType.totalRecv ip msg
      ∧ (slotsFor ip msg ≠ [] →
          (saveTuples port boxid (msg.slots.map wireTuple) table (boxid, ip)).isSome = true) := by
  rw [saveTuples_inside hip, recordsFor_wireTuple, ← slotsFor]
  by_cases hnil : slotsFor ip msg = []
  · rw [reported, reported, hnil]
    exact ⟨rfl, rfl, fun h => absurd rfl h⟩
  · rw [if_neg (by simpa using hnil)]
    obtain ⟨hr, hs⟩ := totals_foldl_fileRow port ((slotsFor ip msg).map wireTuple)
      ((table (boxid, ip)).getD [])
    refine ⟨?_, ?_, fun _ => rfl⟩
    · rw [Option.getD_some, hr, List.map_map]
      rfl
    · rw [Option.getD_some, hs, List.map_map]
      rfl

/-- After any number of messages the rows of an address hold the sum of all that
was reported for it. -/
theorem rows_received (port : Bool) (boxid : Int) {ip : Nat} (hip : isInner ip = true) :
    ∀ (msgs : List Message) (table : Table),
      totalRecv ((msgs.foldl (fun table msg =>
            saveTuples port boxid (msg.slots.map wireTuple) table) table (boxid, ip)).getD [])
          = totalRecv ((table (boxid, ip)).getD []) + reportedAll HistoryType.totalSent ip msgs
        ∧ totalSend ((msgs.foldl (fun table msg =>
            saveTuples port boxid (msg.slots.map wireTuple) table) table (boxid, ip)).getD [])
          = totalSend ((table (boxid, ip)).getD []) + reportedAll HistoryType.totalRecv ip msgs
  | [], _ => ⟨rfl, rfl⟩
  | msg :: msgs, table => by
    obtain ⟨hr, hs, -⟩ := rows_saveTuples port boxid hip msg table
    obtain ⟨hr', hs'⟩ := rows_received port boxid hip msgs
      (saveTuples port boxid (msg.slots.map wireTuple) table)
    rw [List.foldl_cons, hr', hs', hr, hs]
    simp only [reportedAll, List.map_cons, List.sum_cons]
    omega

/-- The entry that `process` makes for an address of the latest message. -/
theorem process_received (port : Bool) (boxid : Int) (stat : Stat) {ip : Nat}
    (hip : isInner ip = true) {msgs : List Message} {latest : Message}
    (hocc : slotsFor ip latest ≠ []) :
    process (received port boxid (msgs ++ [latest])) stat (boxid, ip)
      = some (reportedAll HistoryType.totalSent ip (msgs ++ [latest]),
          reportedAll HistoryType.totalRecv ip (msgs ++ [latest]),
          reportedAll HistoryType.totalRecv ip (msgs ++ [latest])
            + reportedAll HistoryType.totalSent ip (msgs ++ [latest])) := by
  obtain ⟨hr, hs⟩ := rows_received port boxid hip (msgs ++ [latest]) emptyTable
  have hzero : totalRecv ((emptyTable (boxid, ip)).getD []) = 0
      ∧ totalSend ((emptyTable (boxid, ip)).getD []) = 0 := ⟨rfl, rfl⟩
  rw [hzero.1, Nat.zero_add] at hr
  rw [hzero.2, Nat.zero_add] at hs
  have hsome : (received port boxid (msgs ++ [latest]) (boxid, ip)).isSome = true := by
    rw [received, List.foldl_append]
    exact (rows_saveTuples port boxid hip latest _).2.2 hocc
  obtain ⟨rows, hrows⟩ := Option.isSome_iff_exists.mp hsome
  rw [← received, hrows, Option.getD_some] at hr hs
  simp only [process, hrows, hr, hs]

/-- Nothing was reported exactly if every record reads zero. -/
theorem reportedAll_eq_zero_iff (counter : HistoryType → UInt64) (ip : Nat) (msgs : List Message) :
    reportedAll counter ip msgs = 0 ↔
      ∀ msg ∈ msgs, ∀ n ∈ msg.slots, hostOrder n.key.dst = ip → counter n.record = 0 := by
  rw [reportedAll, List.sum_eq_zero_iff, List.forall_mem_map]
  refine forall₂_congr fun msg _ => ?_
  rw [reported, List.sum_eq_zero_iff, List.forall_mem_map]
  constructor
  · intro h n hn hdst
    have hfor : n ∈ slotsFor ip msg := List.mem_filter.mpr ⟨hn, by simp [hdst]⟩
    exact UInt64.toNat_inj.mp (h n hfor)
  · intro h n hn
    obtain ⟨hmem, hdst⟩ := List.mem_filter.mp hn
    rw [h n hmem (by simpa using hdst)]
    rfl

/-- **The client's totals are the box's exactly where earlier messages reported
nothing.** For every run of a box, both port options, every address of the
latest message. -/
theorem process_iff (pl : Platform) (config : Config)
    (sendLast lastTimestamp connectedAt : Int) (connected : Bool) (evs : List Event)
    (port : Bool) (boxid : Int) (stat : Stat) (earlier : List Message) (latest : Message)
    (hmsgs : publishedMessages (run (step pl)
      (boot config sendLast lastTimestamp connectedAt connected) evs).mqtt.log
        = earlier ++ [latest])
    (ip : Nat) (hip : InNet ip) (hocc : ∃ n ∈ latest.slots, hostOrder n.key.dst = ip) :
    process (received port boxid (publishedMessages (run (step pl)
        (boot config sendLast lastTimestamp connectedAt connected) evs).mqtt.log)) stat (boxid, ip)
      = some (reported HistoryType.totalSent ip latest, reported HistoryType.totalRecv ip latest,
          reported HistoryType.totalSent ip latest + reported HistoryType.totalRecv ip latest) ↔
    ∀ msg ∈ earlier, ∀ n ∈ msg.slots, hostOrder n.key.dst = ip →
      n.record.totalSent = 0 ∧ n.record.totalRecv = 0 := by
  have hsome : slotsFor ip latest ≠ [] := by
    obtain ⟨n, hn, hdst⟩ := hocc
    exact List.ne_nil_of_mem (List.mem_filter.mpr ⟨hn, by simp [hdst]⟩)
  have hsplit : ∀ counter, reportedAll counter ip (earlier ++ [latest])
      = reportedAll counter ip earlier + reported counter ip latest := by
    intro counter
    simp [reportedAll]
  rw [hmsgs, process_received port boxid stat hip.isInner hsome, hsplit, hsplit, Option.some.injEq,
    Prod.mk.injEq, Prod.mk.injEq]
  -- the sums agree exactly if what came earlier adds nothing
  have hsent := reportedAll_eq_zero_iff HistoryType.totalSent ip earlier
  have hrecv := reportedAll_eq_zero_iff HistoryType.totalRecv ip earlier
  constructor
  · intro h
    have hs := hsent.mp (by omega)
    have hr := hrecv.mp (by omega)
    exact fun msg hmsg n hn hdst => ⟨hs msg hmsg n hn hdst, hr msg hmsg n hn hdst⟩
  · intro h
    have hs := hsent.mpr fun msg hmsg n hn hdst => (h msg hmsg n hn hdst).1
    have hr := hrecv.mpr fun msg hmsg n hn hdst => (h msg hmsg n hn hdst).2
    omega

/-- 172.16.0.2, the destination of the packets. -/
def innerAddress : Nat := 0xAC100002

/-- The messages a run of the plain box publishes. -/
def messagesOf (evs : List Event) : List Message :=
  publishedMessages (run (step lp64) plainBox evs).mqtt.log

/-- A record, a message that reports it, and a confirmation. -/
def oneMessageRun : List Event := [packetAt 10, sendAt 20 (some 1), .delivered 1]

/-- 40 bytes of TCP from 10.0.0.1:1000 to 172.16.0.3:80, at 10. -/
def neighbourPacket : Event :=
  .packet { tick := plainEnv none, t := 10, created := 10, i := 0, wild := false }
    [0x45, 0, 0, 40, 0, 0, 0, 0, 64, 6, 0, 0, 10, 0, 0, 1, 172, 16, 0, 3, 0x03, 0xe8, 0, 80] 1

/-- A message about another address, and behind it one about both. -/
def neighbourRun : List Event :=
  [neighbourPacket, sendAt 20 (some 1), .delivered 1, packetAt 21, sendAt 30 (some 2)]

theorem process_iff_neighbourRun :
    ∃ first latest, messagesOf neighbourRun = [first] ++ [latest] ∧
      (process (received true 7 (messagesOf neighbourRun)) (fun _ => none) (7, innerAddress)
        = some (reported HistoryType.totalSent innerAddress latest,
            reported HistoryType.totalRecv innerAddress latest,
            reported HistoryType.totalSent innerAddress latest
              + reported HistoryType.totalRecv innerAddress latest) ↔
      ∀ msg ∈ [first], ∀ n ∈ msg.slots, hostOrder n.key.dst = innerAddress →
        n.record.totalSent = 0 ∧ n.record.totalRecv = 0) := by
  obtain ⟨hlen, hocc⟩ : (messagesOf neighbourRun).length = 2 ∧
      ∀ msg ∈ (messagesOf neighbourRun).drop 1, ∃ n ∈ msg.slots,
        hostOrder n.key.dst = innerAddress := by
    decide +kernel
  obtain ⟨first, latest, hmsgs⟩ := List.length_eq_two.mp hlen
  refine ⟨first, latest, hmsgs, ?_⟩
  exact process_iff lp64 plainConfig 0 0 0 true neighbourRun true 7 (fun _ => none) [first] latest
    hmsgs innerAddress (by unfold InNet; decide) (hocc latest (by rw [hmsgs]; simp))

/-- Another packet of the connection, and another message. -/
def twoMessageRun : List Event := oneMessageRun ++ [packetAt 21, sendAt 30 (some 2)]

/-- The second message reports 80 bytes, 40 of them for the second time; the
client shows 120, whatever the port option. -/
theorem process_counts_twice :
    (messagesOf twoMessageRun).map (reported HistoryType.totalSent innerAddress) = [40, 80]
      ∧ process (received true 7 (messagesOf twoMessageRun)) (fun _ => none) (7, innerAddress)
          = some (120, 0, 120)
      ∧ process (received false 7 (messagesOf twoMessageRun)) (fun _ => none) (7, innerAddress)
          = some (120, 0, 120) := by
  decide +kernel

end Dotqoo.Wire
