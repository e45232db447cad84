import Dotqoo.Flow.Approval
import Dotqoo.Flow.Pages
import Dotqoo.Publish.Payload
import Dotqoo.Wire.Network

/-!
# Where the rows of the client are from

The boxes here are 32-bit builds, whose records the client can read. Whatever the network
does, the client's table is made of tables of the boxes: under a box id and an inner address
are the approved records with that destination, of each message that arrived since the
globals were emptied last, and each message shows the table of a box with that id at a
moment of its own run (`table_from_boxes`).

With the `port` option every row is one record. So a row is a piece of the traffic of its
box: the last packets of one flow that came before the message, with their bytes and
times (`rows_are_traffic`). Approved records stay and grow, so no row is ahead of what its
box has by now (`rows_behind`), however late, often or out of order the messages come.
-/

namespace Dotqoo.Wire

open Dotqoo.Lib Dotqoo.Table Dotqoo.Capture Dotqoo.Client Dotqoo.Config

variable {ι : Type} [DecidableEq ι] {broker : Broker} {device : ι → Device} {receiver : Receiver}

/-- The approved records with a destination address, of the messages with a box id. -/
def arrivedTuples (boxid : Int) (ip : Nat) (arrived : List (Arrival ι)) : List Tuple :=
  arrived.flatMap fun a => if a.boxid = boxid then tuplesFor ip a.data.slots else []

/-- The message shows the table of its box at a moment of the box's own run: right behind
the tick of an event that posts. -/
def Arrival.Shown (broker : Broker) (device : ι → Device) (receiver : Receiver)
    (es : List (NetEvent ι)) (a : Arrival ι) : Prop :=
  ∃ before ev after,
    boxEvents broker device receiver a.box es = before ++ ev :: after ∧
    Posts (run (step (device a.box).platform) (device a.box).boot before) ev ∧
    a.data.slots = approvedOf (tickPart (device a.box).platform
      (run (step (device a.box).platform) (device a.box).boot before) ev).history.nodes

/-! ## The table -/

omit [DecidableEq ι] in
theorem recordsUnder_append (key : Key) (pairs pairs' : List (Int × Tuple)) :
    recordsUnder key (pairs ++ pairs') = recordsUnder key pairs ++ recordsUnder key pairs' := by
  simp [recordsUnder]

omit [DecidableEq ι] in
/-- What the messages file under an inner address. -/
theorem recordsUnder_arrived (hlong : ∀ i, (device i).Ilp32) {s : Net ι}
    (h : NetInv device receiver s) (boxid : Int) {ip : Nat} (hip : InNet ip) :
    ∀ {arrived : List (Arrival ι)}, (∀ a ∈ arrived, a ∈ s.arrived) →
      recordsUnder (boxid, ip) (filed (arrived.map Arrival.call))
        = arrivedTuples boxid ip arrived
  | [], _ => rfl
  | a :: arrived, hmem => by
    obtain ⟨payload, hpost⟩ := (h.arrived a (hmem a List.mem_cons_self)).posted
    obtain ⟨t, hs⟩ := h.shows a.box _ (List.mem_of_getElem? hpost)
    have hcall := hs.recordsUnder_call (hlong a.box).1 (hlong a.box).2 a.boxid boxid hip
    have hrest := recordsUnder_arrived hlong h boxid hip
      fun a' ha' => hmem a' (List.mem_cons_of_mem _ ha')
    have hsplit : filed ((a :: arrived).map Arrival.call)
        = filed [a.call] ++ filed (arrived.map Arrival.call) := by
      simp [filed]
    rw [hsplit, recordsUnder_append, hrest]
    exact congrArg (· ++ arrivedTuples boxid ip arrived) hcall

/-- Every message of a run is shown. -/
theorem shown_of_from (hlong : ∀ i, (device i).Ilp32) (es : List (NetEvent ι)) {a : Arrival ι}
    (h : a.From device (netRun broker device receiver es)) : a.Shown broker device receiver es := by
  obtain ⟨payload, hpost⟩ := h.posted
  have hmem := List.mem_of_getElem? hpost
  rw [box_netRun] at hmem
  rcases posted_run (Or.inl (hlong a.box).1) _ _ _ hmem with
    hold | ⟨before, ev, after, heq, hposts, hs⟩
  · rw [posted_boot] at hold
    exact absurd hold List.not_mem_nil
  · exact ⟨before, ev, after, heq, hposts, hs.slots⟩

variable (broker) in
/-- The rows under a key. -/
theorem table_netRun (hlong : ∀ i, (device i).Ilp32)
    (hz : ∀ i, (device i).Zlib receiver.decompress) (es : List (NetEvent ι)) (boxid : Int)
    (ip : Nat) : (netRun broker device receiver es).console.globals.table (boxid, ip) =
      if InNet ip ∧ arrivedTuples boxid ip (netRun broker device receiver es).arrived ≠ [] then
        some (fileRows receiver.port
          (arrivedTuples boxid ip (netRun broker device receiver es).arrived) [])
      else none := by
  have hinv := NetInv.run broker hlong hz es
  rw [hinv.table, saveCalls_key]
  by_cases hip : InNet ip
  · rw [recordsUnder_arrived hlong hinv boxid hip fun _ h => h]
  · rw [if_neg fun h => hip h.1, if_neg fun h => hip h.1]

/-- The box of a message that is in the table. -/
theorem arrived_netRun (hlong : ∀ i, (device i).Ilp32)
    (hz : ∀ i, (device i).Zlib receiver.decompress) (es : List (NetEvent ι)) :
    ∀ a ∈ (netRun broker device receiver es).arrived,
      Spells (device a.box).id.text a.boxid ∧ a.Shown broker device receiver es := by
  intro a ha
  have hfrom := (NetInv.run broker hlong hz es).arrived a ha
  exact ⟨(topicBoxid_eq_some_iff _ _).mp ((topicBoxid_sendTopic _).symm.trans hfrom.boxid),
    shown_of_from hlong es hfrom⟩

/-- A broker that knows `#` at the end of a filter. -/
def hashBroker : Broker where
  routes filter topic :=
    filter == topic || (filter.getLast? == some '#' && filter.dropLast.isPrefixOf topic)
  exact := by
    intro filter topic _ hhash
    have hlast : ¬ filter.getLast? = some '#' := fun h => hhash (List.mem_of_getLast? h)
    rw [Bool.or_eq_true, beq_iff_eq, Bool.and_eq_true, beq_iff_eq]
    exact ⟨fun h => h.elim Eq.symm fun h => absurd h.1 hlast, fun h => Or.inl h.symm⟩
  below := by
    intro path rest _ _
    have hpath : path ++ "/#".toList = (path ++ ['/']) ++ ['#'] := by simp
    rw [hpath, List.getLast?_concat, List.dropLast_concat]
    simp

/-- The message with a packet of 40 bytes from 10.0.0.1:1000 to 172.16.0.2:80. -/
def smallBytes : List UInt8 :=
  [10, 0, 0, 1, 232, 3, 172, 16, 0, 2, 80, 0, 6, 0, 40, 0, 0, 0, 0, 0, 0, 0, 0, 0, 0, 0, 0, 0, 0, 0,
   10, 0, 0, 0, 10, 0, 0, 0]

/-- zlib's stream of it, after the first byte. -/
def smallStream : List UInt8 :=
  [156, 227, 98, 96, 96, 124, 193, 188, 70, 128, 129, 41, 128, 129, 141, 65, 131, 1, 21, 112, 65,
   49, 0, 70, 54, 2, 71]

/-- Box `7`, and one that calls itself `box`. -/
def twoDevices (i : Bool) : Device where
  platform := ⟨4, 4, deflateKnown smallBytes (0x78 :: smallStream)⟩
  config := plainConfig
  id := if i then deviceId "box".toList (by decide) else deviceId "7".toList (by decide)
  fits := by cases i <;> decide
  sendLast := 0
  lastTimestamp := 0
  connectedAt := 0
  connected := true

/-- The client with its option `-p`. -/
def smallReceiver : Receiver := ⟨decompressKnown smallBytes (0x78 :: smallStream), false, true⟩

theorem ilp32_twoDevices (i : Bool) : (twoDevices i).Ilp32 := ⟨rfl, rfl⟩

theorem zlib_twoDevices (i : Bool) : (twoDevices i).Zlib smallReceiver.decompress :=
  selfDelimiting_known smallBytes smallStream

/-- A packet, a request, and the answer. -/
def answered (i : Bool) : List (NetEvent Bool) :=
  [.box i (packetAt 10), .command "b".toList true, .request i 0 (plainEnv (some 1)) 20, .deliver i 0]

/-- With the `port` option a row is a record. -/
theorem fileRows_port (ts : List Tuple) :
    fileRows true ts [] = ts.map fun t => newRow t t.outerPort :=
  (foldl_fileRow_port ts []).trans (List.nil_append _)

/-- With the `port` option a row is a record of a message of a box with the id. -/
theorem row_from_message (hlong : ∀ i, (device i).Ilp32)
    (hz : ∀ i, (device i).Zlib receiver.decompress) (hport : receiver.port = true)
    (es : List (NetEvent ι)) {boxid : Int} {ip : Nat} {rows : List Row}
    (hrows : (netRun broker device receiver es).console.globals.table (boxid, ip) = some rows) :
    ∀ row ∈ rows, ∃ (a : Arrival ι) (n : Node), Spells (device a.box).id.text boxid ∧
      a.Shown broker device receiver es ∧ n ∈ a.data.slots ∧ hostOrder n.key.dst = ip ∧
      row = rowOf n := by
  rw [table_netRun broker hlong hz, hport, fileRows_port, Option.ite_none_right_eq_some,
    Option.some.injEq] at hrows
  obtain ⟨-, rfl⟩ := hrows
  intro row hrow
  obtain ⟨t, ht, rfl⟩ := List.mem_map.mp hrow
  obtain ⟨a, ha, hta⟩ := List.mem_flatMap.mp ht
  obtain ⟨hspells, hshown⟩ := arrived_netRun hlong hz es a ha
  split at hta
  next hboxid =>
    rw [hboxid] at hspells
    obtain ⟨n, hn, rfl⟩ := List.mem_map.mp hta
    obtain ⟨hslot, hdst⟩ := List.mem_filter.mp hn
    exact ⟨a, n, hspells, hshown, hslot, by simpa using hdst, newRow_wireTuple n⟩
  next => exact absurd hta List.not_mem_nil

/-- The row is the page: a flow of the inner address, its bytes both ways, and when its
first and its last packet came. -/
structure OfTraffic (ip : Nat) (row : Row) (key : AddrPair) (page : List Entry) : Prop where
  inner : hostOrder key.dst = ip
  outerIp : row.outerIp = hostOrder key.src
  outerPort : row.outerPort = key.srcPort.toNat
  protocols : row.protocols = [key.protocol.toNat]
  recv : row.recv = sentBytes key (page.map Entry.packet) % 2 ^ 64
  send : row.send = recvBytes key (page.map Entry.packet) % 2 ^ 64
  create : page.head?.map (fun p => (p.env.created % 2 ^ 32).toNat) = some row.create
  endTime : page.getLast?.map (fun p => (p.env.t % 2 ^ 32).toNat) = some row.endTime

/-- The row of a record that has counted a page. -/
theorem OfTraffic.of_counts {n : Node} {page : List Entry} (h : Counts n page) :
    OfTraffic (hostOrder n.key.dst) (rowOf n) n.key page where
  inner := rfl
  outerIp := rfl
  outerPort := rfl
  protocols := rfl
  recv := h.bytes.1
  send := h.bytes.2
  create := by
    have hmap := congrArg (Option.map fun t : Int => (t % 2 ^ 32).toNat) h.create
    rwa [Option.map_map] at hmap
  endTime := by
    have hmap := congrArg (Option.map fun t : Int => (t % 2 ^ 32).toNat) h.update
    rwa [Option.map_map] at hmap

/-- **Rows are traffic.** With the `port` option, in every run of any 32-bit boxes and whatever
the network does: a row under a box id and an inner address is of one flow of that address
at a box with the id. It has the bytes and times of the last packets accepted for the flow before
the event that posted the message, counted modulo `2 ^ 64` and `2 ^ 32`. -/
theorem rows_are_traffic (hlong : ∀ i, (device i).Ilp32)
    (hz : ∀ i, (device i).Zlib receiver.decompress) (hport : receiver.port = true)
    (es : List (NetEvent ι)) (boxid : Int) (ip : Nat) (rows : List Row)
    (hrows : (netRun broker device receiver es).console.globals.table (boxid, ip) = some rows) :
    ∀ row ∈ rows, ∃ i before ev after key page, Spells (device i).id.text boxid ∧
      boxEvents broker device receiver i es = before ++ ev :: after ∧
      Posts (run (step (device i).platform) (device i).boot before) ev ∧
      page <:+ entries (device i).config key before ∧ OfTraffic ip row key page := by
  intro row hrow
  obtain ⟨a, n, hspells, ⟨before, ev, after, heq, hposts, hslots⟩, hslot, rfl, rfl⟩ :=
    row_from_message hlong hz hport es hrows row hrow
  rw [hslots] at hslot
  have hpages := pagesInv_run (device a.box).platform (device a.box).config (device a.box).sendLast
    (device a.box).lastTimestamp (device a.box).connectedAt (device a.box).connected before
  obtain ⟨page, hsuffix, hcounts⟩ :=
    hpages.tickPart (device a.box).platform ev n (List.mem_filter.mp hslot).1
  rw [run_config] at hsuffix
  exact ⟨a.box, before, ev, after, n.key, page, hspells, heq, hposts, hsuffix, .of_counts hcounts⟩

/-- The row of the packet. -/
def smallRow : Row := ⟨167772161, 1000, [6], 40, 0, 10, 10⟩

theorem rows_are_traffic_answered :
    ∃ i before ev after key page, Spells (twoDevices i).id.text 7 ∧
      boxEvents hashBroker twoDevices smallReceiver i (answered false) = before ++ ev :: after ∧
      Posts (run (step (twoDevices i).platform) (twoDevices i).boot before) ev ∧
      page <:+ entries (twoDevices i).config key before ∧ OfTraffic 2886729730 smallRow key page :=
  rows_are_traffic ilp32_twoDevices zlib_twoDevices rfl (answered false) 7 2886729730 [smallRow]
    (by decide +kernel) smallRow (List.mem_singleton_self smallRow)

/-- The row is of a record that the box has now, grown since. -/
structure BehindRecord (b : Box) (ip : Nat) (row : Row) (n : Node) : Prop where
  mem : n ∈ approvedOf b.history.nodes
  inner : hostOrder n.key.dst = ip
  outerIp : row.outerIp = hostOrder n.key.src
  outerPort : row.outerPort = n.key.srcPort.toNat
  protocols : row.protocols = [n.key.protocol.toNat]
  recv : row.recv ≤ n.record.totalSent.toNat
  send : row.send ≤ n.record.totalRecv.toNat
  create : row.create = (n.record.createTime % 2 ^ 32).toNat

/-- The clock of the box does not go back, and its counters do not wrap. -/
structure SteadyRun (d : Device) (evs : List Event) : Prop where
  clock : (evs.flatMap Event.readings).Pairwise (· ≤ ·)
  room : Along (step d.platform) (NoWrap d.platform) d.boot evs

/-- Behind the moment that a message shows, the box keeps the records. -/
theorem SteadyRun.keeps {d : Device} {before after : List Event} {ev : Event}
    (h : SteadyRun d (before ++ ev :: after)) :
    Keeps (tickPart d.platform (run (step d.platform) d.boot before) ev).history
      (run (step d.platform) d.boot (before ++ ev :: after)).history := by
  obtain ⟨hclock, hroom⟩ := h
  rw [List.flatMap_append, List.flatMap_cons] at hclock
  obtain ⟨hroom₁, hroom₂⟩ := (Along.append before (ev :: after) _).mp hroom
  obtain ⟨hinv, hup⟩ := ApprovalInv.boot d.config d.sendLast d.lastTimestamp d.connectedAt
    d.connected (before.flatMap Event.readings ++
      (ev.readings ++ after.flatMap Event.readings))
  obtain ⟨hinv₁, -, hup₁⟩ := hinv.run hup hclock hroom₁
  have hclock₂ := (List.pairwise_append.mp hclock).2.1
  obtain ⟨hlate, -, -⟩ := history_step hinv₁.meet hup₁ hclock₂ hroom₂.1
  obtain ⟨hinv₂, -, hup₂⟩ := hinv₁.step hup₁ hclock₂ hroom₂.1
  -- the events behind it, with no readings to come
  rw [← List.append_nil (after.flatMap Event.readings)] at hup₂ hclock₂
  obtain ⟨-, hkeep, -⟩ := hinv₂.run hup₂ (List.pairwise_append.mp hclock₂).2.1 hroom₂.2
  rw [run_append, run_cons]
  exact hlate.trans hkeep

/-- **No row is ahead of its box.** With the `port` option, in every run of 32-bit boxes in
which those with an id have steady runs, each row under the id is of a record that such a
box has in its table now, with counters that are no less and the same creation time (of
which the row has the last 32 bits). -/
theorem rows_behind (hlong : ∀ i, (device i).Ilp32)
    (hz : ∀ i, (device i).Zlib receiver.decompress) (hport : receiver.port = true)
    (es : List (NetEvent ι)) (boxid : Int)
    (hsteady : ∀ i, Spells (device i).id.text boxid →
      SteadyRun (device i) (boxEvents broker device receiver i es))
    (ip : Nat) (rows : List Row)
    (hrows : (netRun broker device receiver es).console.globals.table (boxid, ip) = some rows) :
    ∀ row ∈ rows, ∃ i n, Spells (device i).id.text boxid ∧
      BehindRecord ((netRun broker device receiver es).box i) ip row n := by
  intro row hrow
  obtain ⟨a, n, hspells, ⟨before, ev, after, heq, -, hslots⟩, hslot, rfl, rfl⟩ :=
    row_from_message hlong hz hport es hrows row hrow
  rw [hslots] at hslot
  obtain ⟨hnode, happroved⟩ := List.mem_filter.mp hslot
  have hst := hsteady a.box hspells
  rw [heq] at hst
  obtain ⟨d, hd, hgrown⟩ := hst.keeps n hnode happroved
  refine ⟨a.box, ⟨n.key, d⟩, hspells, ?_⟩
  rw [box_netRun, heq]
  exact {
    mem := List.mem_filter.mpr ⟨hd, hgrown.approval⟩
    inner := rfl
    outerIp := rfl
    outerPort := rfl
    protocols := rfl
    recv := hgrown.totalSent
    send := hgrown.totalRecv
    create := by rw [hgrown.createTime]; rfl }

/-- 40 bytes to 172.16.0.2, of box 7. -/
theorem rows_behind_answered : ∃ i n, Spells (twoDevices i).id.text 7 ∧ BehindRecord
    ((netRun hashBroker twoDevices smallReceiver (answered false)).box i) 2886729730 smallRow n :=
  rows_behind ilp32_twoDevices zlib_twoDevices rfl (answered false) 7
    (fun i _ => by cases i <;> exact ⟨by decide +kernel, by decide +kernel⟩) 2886729730 [smallRow]
    (by decide +kernel) smallRow (List.mem_singleton_self smallRow)

end Dotqoo.Wire
