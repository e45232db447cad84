import Dotqoo.Client.Merged
import Dotqoo.Client.Places
import Dotqoo.Client.Sorted
import Dotqoo.Lib.Ranked

/-!
# The report of the client

`print_stat` of `mqtt_client.py`: a section for every key of `stat`, and in it a line for
every row of the table, the rows with the most bytes first and no more than the option
`-l` allows. The sums in the head of a section are over all of its rows, printed or not.

It looks the keys of `stat` up in `table`, unpacks what it packed, and asks the locator for
every row it prints; nothing catches what is raised there. `report_correct` says that
nothing is: `stat` has no keys that the table has not and addresses have 32 bits
(`Printable`), and the locator answers if its file is a database.

Mirroring notes:
- A section is what is printed of a key, before the formatting: `readable_size` divides
  floating point numbers, and the times are shown in the local time zone.
- The keys of the dictionary are a parameter, in the order in which it has them.
- `none` is an exception; what was printed before it is left out.
-/

namespace Dotqoo.Client

open Dotqoo.Lib Dotqoo.Wire

/-! ## Printing -/

/-- `socket.inet_ntoa(struct.pack('!L', ip))`; `none` is `struct.error`. -/
def inetNtoa (ip : Nat) : Option (List Char) :=
  if ip < 2 ^ 32 then
    some (['.'].intercalate ([ip / 2 ^ 24, ip / 2 ^ 16 % 256, ip / 2 ^ 8 % 256, ip % 256].map
      fun byte => (Nat.repr byte).toList))
  else none

/-- What the chain of tests adds for a protocol. -/
def protocolName (protocol : Nat) : List Char :=
  if protocol = 17 then "UDP/".toList
  else if protocol = 6 then "TCP/".toList
  else if protocol = 1 then "ICMP/".toList
  else if protocol = 2 then "IGMP/".toList
  else []

/-- `protocols[:-1]`. -/
def protocolsText (protocols : List Nat) : List Char :=
  (['\t'] ++ protocols.flatMap protocolName).dropLast

/-- A line of a section; the port is there with the option `-p`, the host name with a
locator. -/
structure Line where
  visitedIp : List Char
  port : Option (List Char)
  send : Nat
  recv : Nat
  create : Nat
  endTime : Nat
  protocols : List Char
  hostname : Option String
  deriving DecidableEq

/-- What is printed of a key. -/
structure Section where
  key : Key
  userIp : List Char
  totalSend : Nat
  totalRecv : Nat
  lines : List Line
  deriving DecidableEq

/-- The bytes of a row, by which the rows are sorted. -/
def Row.total (conn : Row) : Nat := conn.recv + conn.send

/-- The column for the port. -/
def portText (port : Nat) : List Char := if port = 0 then ['-'] else (Nat.repr port).toList

section Printing

variable (gbk : List UInt8 → Option String) (ipl : Option IPLocator) (port : Bool)
  (limit : Option Int)

/-- What is asked of `IPL`. -/
def askLocator (ip : Nat) : FileM (Option String) :=
  match ipl with
  | some db => some <$> db.getIpAddr gbk ip
  | none => pure none

/-- The body of the inner loop. -/
def printLine (conn : Row) : FileM Line := do
  let visitedIp ← (inetNtoa conn.outerIp : Option (List Char))
  let hostname ← askLocator gbk ipl conn.outerIp
  pure {
    visitedIp := visitedIp
    port := if port then some (portText conn.outerPort) else none
    send := conn.send
    recv := conn.recv
    create := conn.create
    endTime := conn.endTime
    protocols := protocolsText conn.protocols
    hostname := hostname }

/-- The inner loop, from a value of `counter` on. -/
def printLines : Nat → List Row → FileM (List Line)
  | _, [] => pure []
  | counter, conn :: rest =>
    if limit.any fun n : Int => n ≤ counter then pure []
    else do
      let line ← printLine gbk ipl port conn
      let lines ← printLines (counter + 1) rest
      pure (line :: lines)

/-- The body of the outer loop. -/
def printKey (s : ClientState) (key : Key) : FileM Section := do
  let (totalRecv, totalSend, _) ← (s.stat key : Option (Nat × Nat × Nat))
  -- `KeyError` if there is none
  let detail ← (s.table key : Option (List Row))
  let userIp ← (inetNtoa key.2 : Option (List Char))
  let lines ← printLines gbk ipl port limit 0 (ranked Row.total detail)
  pure ⟨key, userIp, totalSend, totalRecv, lines⟩

/-- `print_stat`. -/
def printStat (keys : List Key) (s : ClientState) : FileM (List Section) :=
  (sortedKeys keys).mapM (printKey gbk ipl port limit s)

end Printing

/-! ## What can be printed -/

/-- The lookups of `print_stat` succeed. -/
structure Printable (s : ClientState) : Prop where
  known : ∀ key, s.stat key ≠ none → s.table key ≠ none
  outer : ∀ key rows, s.table key = some rows → ∀ row ∈ rows, row.outerIp < 2 ^ 32

/-- A record adds a row with an address of 32 bits, or keeps those there are. -/
theorem outerIp_fileRow {port : Bool} {t : Tuple} {rows : List Row}
    (h : ∀ row ∈ rows, row.outerIp < 2 ^ 32) : ∀ row ∈ fileRow port t rows, row.outerIp < 2 ^ 32 := by
  cases port with
  | true =>
    intro row hrow
    rcases List.mem_append.mp hrow with hrow | hrow
    · exact h row hrow
    · rw [List.mem_singleton.mp hrow]
      exact swapEndian_lt _
  | false =>
    show ∀ row ∈ mergeRows t rows, row.outerIp < 2 ^ 32
    induction rows with
    | nil =>
      intro row hrow
      rw [List.mem_singleton.mp hrow]
      exact swapEndian_lt _
    | cons conn rest ih =>
      rw [List.forall_mem_cons] at h
      rw [mergeRows]
      split
      next => exact List.forall_mem_cons.mpr ⟨h.1, h.2⟩
      next => exact List.forall_mem_cons.mpr ⟨h.1, ih h.2⟩

theorem outerIp_fileRows {port : Bool} : ∀ (ts : List Tuple) {rows : List Row},
    (∀ row ∈ rows, row.outerIp < 2 ^ 32) → ∀ row ∈ fileRows port ts rows, row.outerIp < 2 ^ 32
  | [], _, h => h
  | _ :: ts, _, h => outerIp_fileRows ts (outerIp_fileRow h)

/-- Records keep what can be printed: no key goes away. -/
theorem Printable.savePairs (port : Bool) {s : ClientState} (h : Printable s)
    (pairs : List (Int × Tuple)) (received : Nat) :
    Printable ⟨received, savePairs port pairs s.table, s.stat⟩ where
  known key hkey := by
    show Client.savePairs port pairs s.table key ≠ none
    rw [savePairs_key]
    split
    next => exact Option.some_ne_none _
    next => exact h.known key hkey
  outer key rows hrows := by
    change Client.savePairs port pairs s.table key = some rows at hrows
    rw [savePairs_key] at hrows
    split at hrows
    next =>
      rw [← Option.some.inj hrows]
      refine outerIp_fileRows _ fun row hrow => ?_
      cases hold : s.table key with
      | none => simp [hold] at hrow
      | some old =>
        rw [hold, Option.getD_some] at hrow
        exact h.outer key old hold row hrow
    next => exact h.outer key rows hrows

theorem Printable.step (decompress : List UInt8 → Option (List UInt8)) (port : Bool)
    (s : ClientState) (e : ClientEvent) (h : Printable s) :
    Printable (clientStep decompress port s e) := by
  cases e with
  | message topic payload =>
    show Printable (onMessage decompress port s topic payload).1
    have hstat := onMessage_stat decompress port s topic payload
    rcases onMessage_table decompress port s topic payload with
      hsame | ⟨message, boxid, -, -, hsaved⟩
    · exact ⟨by rw [hsame, hstat]; exact h.known, by rw [hsame]; exact h.outer⟩
    · have hkept := h.savePairs port (filed [⟨boxid, message⟩]) s.received
      exact ⟨by rw [hsaved, hstat]; exact hkept.known, by rw [hsaved]; exact hkept.outer⟩
  | process =>
    refine ⟨fun key hkey => ?_, h.outer⟩
    have hprocess : process s.table s.stat key ≠ none := hkey
    show s.table key ≠ none
    unfold Client.process at hprocess
    split at hprocess
    next => exact h.known key hprocess
    next rows hrows =>
      rw [hrows]
      exact Option.some_ne_none rows
  | clear => exact ⟨fun _ hkey => absurd rfl hkey, fun _ _ hrows => nomatch hrows⟩

theorem Printable.run (decompress : List UInt8 → Option (List UInt8)) (port : Bool)
    (es : List ClientEvent) : Printable (run (clientStep decompress port) clientStart es) :=
  run_invariant (Printable.step decompress port) es
    ⟨fun _ hkey => absurd rfl hkey, fun _ _ hrows => nomatch hrows⟩

/-! ## The lines -/

/-- What the locator of a database says of an address. -/
def located (gbk : List UInt8 → Option String) (places : List IPLocator.Place) (ip : Nat) :
    Option String :=
  match places.find? fun place => place.range.Contains ip with
  | some place => gbk place.text
  | none => some notFound

/-- There is no locator, or its file is a database of these places, with texts that decode. -/
structure Answers (gbk : List UInt8 → Option String) (ipl : Option IPLocator)
    (places : List IPLocator.Place) : Prop where
  holds : ∀ db ∈ ipl, db.Holds places
  decodes : ∀ place ∈ places, (gbk place.text).isSome

/-- The rows that are printed from a value of `counter` on. -/
def allowed (limit : Option Int) (counter : Nat) (rows : List Row) : List Row :=
  match limit with
  | some n => rows.take (n - counter).toNat
  | none => rows

/-- The line is of the row. -/
structure LineOf (gbk : List UInt8 → Option String) (ipl : Option IPLocator)
    (places : List IPLocator.Place) (port : Bool) (conn : Row) (line : Line) : Prop where
  visitedIp : inetNtoa conn.outerIp = some line.visitedIp
  port : line.port = if port then some (portText conn.outerPort) else none
  send : line.send = conn.send
  recv : line.recv = conn.recv
  create : line.create = conn.create
  endTime : line.endTime = conn.endTime
  protocols : line.protocols = protocolsText conn.protocols
  hostname : line.hostname = ipl.bind fun _ => located gbk places conn.outerIp

theorem inetNtoa_eq_some {ip : Nat} (h : ip < 2 ^ 32) : ∃ text, inetNtoa ip = some text :=
  ⟨_, if_pos h⟩

section Lines

variable {gbk : List UInt8 → Option String} {ipl : Option IPLocator}
  {places : List IPLocator.Place} (h : Answers gbk ipl places)

include h

/-- A locator answers every address. -/
theorem Answers.run_getIpAddr {db : IPLocator} (hdb : db ∈ ipl) {ip : Nat} (hip : ip < 2 ^ 32)
    (pos : Nat) : ∃ text pos', (db.getIpAddr gbk ip).run pos = some (text, pos') ∧
      located gbk places ip = some text := by
  have hnat : (UInt32.ofNat ip).toNat = ip := Nat.mod_eq_of_lt hip
  have hrun : (db.getIpAddr gbk ip).run' pos = located gbk places ip := by
    unfold located
    cases hfind : places.find? fun place => place.range.Contains ip with
    | some place =>
      have hfound := List.find?_some hfind
      have hin : place.range.Contains ip := of_decide_eq_true hfound
      have hplace := (h.holds db hdb).getIpAddr_mem (UInt32.ofNat ip)
        (List.mem_of_find?_eq_some hfind) (by rw [hnat]; exact hin) gbk pos
      rwa [hnat] at hplace
    | none =>
      have hnone := (h.holds db hdb).getIpAddr_none (UInt32.ofNat ip)
        (fun place hmem => by
          rw [hnat]
          simpa using List.find?_eq_none.mp hfind place hmem) gbk pos
      rwa [hnat] at hnone
  have hsome : (located gbk places ip).isSome := by
    unfold located
    split
    next place hfind => exact h.decodes place (List.mem_of_find?_eq_some hfind)
    next => rfl
  obtain ⟨text, htext⟩ := Option.isSome_iff_exists.mp hsome
  rw [htext, StateT.run'_eq, Option.map_eq_map, Option.map_eq_some_iff] at hrun
  obtain ⟨⟨text', pos'⟩, hrun, rfl⟩ := hrun
  exact ⟨text', pos', hrun, htext⟩

/-- The host name, if there is a locator. -/
theorem Answers.run_askLocator {ip : Nat} (hip : ip < 2 ^ 32) (pos : Nat) :
    ∃ pos', (askLocator gbk ipl ip).run pos = some (ipl.bind fun _ => located gbk places ip, pos') := by
  cases ipl with
  | none => exact ⟨pos, rfl⟩
  | some db =>
    obtain ⟨text, pos', hrun, hlocated⟩ := h.run_getIpAddr rfl hip pos
    refine ⟨pos', ?_⟩
    show (some <$> db.getIpAddr gbk ip).run pos = some (located gbk places ip, pos')
    rw [StateT.run_map, hrun, hlocated]
    rfl

/-- **A line** for every row with an address of 32 bits. -/
theorem Answers.run_printLine (port : Bool) {conn : Row} (hip : conn.outerIp < 2 ^ 32)
    (pos : Nat) : ∃ line pos', (printLine gbk ipl port conn).run pos = some (line, pos') ∧
      LineOf gbk ipl places port conn line := by
  obtain ⟨visitedIp, hvisited⟩ := inetNtoa_eq_some hip
  obtain ⟨pos', hname⟩ := h.run_askLocator hip pos
  have hlift : (liftM (inetNtoa conn.outerIp) : FileM (List Char)).run pos
      = some (visitedIp, pos) := by
    rw [hvisited]
    rfl
  refine ⟨{
    visitedIp := visitedIp
    port := if port then some (portText conn.outerPort) else none
    send := conn.send
    recv := conn.recv
    create := conn.create
    endTime := conn.endTime
    protocols := protocolsText conn.protocols
    hostname := ipl.bind fun _ => located gbk places conn.outerIp }, pos', ?_,
    ⟨hvisited, rfl, rfl, rfl, rfl, rfl, rfl, rfl⟩⟩
  rw [printLine, IPLocator.run_bind hlift, IPLocator.run_bind hname]
  rfl

/-- **The lines**: one for every row that the limit allows. -/
theorem Answers.run_printLines (port : Bool) (limit : Option Int) :
    ∀ (rows : List Row) (counter pos : Nat), (∀ row ∈ rows, row.outerIp < 2 ^ 32) →
      ∃ lines pos', (printLines gbk ipl port limit counter rows).run pos = some (lines, pos') ∧
        List.Forall₂ (LineOf gbk ipl places port) (allowed limit counter rows) lines
  | [], counter, pos, _ => by
    have hnil : allowed limit counter [] = [] := by
      cases limit with
      | none => rfl
      | some n => exact List.take_nil
    refine ⟨[], pos, rfl, ?_⟩
    rw [hnil]
    exact .nil
  | conn :: rest, counter, pos, hrows => by
    rw [List.forall_mem_cons] at hrows
    by_cases hstop : limit.any (fun n : Int => n ≤ counter) = true
    · refine ⟨[], pos, by rw [printLines, if_pos hstop]; rfl, ?_⟩
      cases limit with
      | none => cases hstop
      | some n =>
        have hle : n ≤ counter := by simpa using hstop
        have hzero : (n - counter).toNat = 0 := by omega
        rw [allowed, hzero, List.take_zero]
        exact .nil
    · obtain ⟨line, pos₁, hline, hof⟩ := h.run_printLine port hrows.1 pos
      obtain ⟨lines, pos₂, hlines, hofs⟩ := run_printLines port limit rest (counter + 1) pos₁ hrows.2
      refine ⟨line :: lines, pos₂, ?_, ?_⟩
      · rw [printLines, if_neg hstop, IPLocator.run_bind hline, IPLocator.run_bind hlines]
        rfl
      · have hallowed : allowed limit counter (conn :: rest) =
            conn :: allowed limit (counter + 1) rest := by
          cases limit with
          | none => rfl
          | some n =>
            have hlt : ¬ n ≤ counter := by simpa using hstop
            have hsucc : (n - counter).toNat = (n - (counter + 1 : Nat)).toNat + 1 := by omega
            rw [allowed, hsucc, List.take_succ_cons]
            rfl
        rw [hallowed]
        exact .cons hof hofs

end Lines

/-! ## The sections -/

/-- `shown` are the rows with the most bytes, those with equally many in their order. -/
structure Heaviest (limit : Option Int) (rows shown hidden : List Row) : Prop where
  perm : (shown ++ hidden).Perm rows
  falling : (shown ++ hidden).Pairwise fun a b => b.total ≤ a.total
  stable : ∀ n, (shown ++ hidden).filter (fun row => row.total = n) =
    rows.filter fun row => row.total = n
  count : shown.length = limit.elim rows.length fun n => min n.toNat rows.length

theorem heaviest_allowed (limit : Option Int) (rows : List Row) : ∃ hidden,
    Heaviest limit rows (allowed limit 0 (ranked Row.total rows)) hidden := by
  have hsplit : ∃ hidden, allowed limit 0 (ranked Row.total rows) ++ hidden
      = ranked Row.total rows := by
    cases limit with
    | none => exact ⟨[], List.append_nil _⟩
    | some n => exact ⟨_, List.take_append_drop _ _⟩
  obtain ⟨hidden, hsplit⟩ := hsplit
  refine ⟨hidden, ?_, ?_, ?_, ?_⟩
  · rw [hsplit]
    exact ranked_perm Row.total rows
  · rw [hsplit]
    exact pairwise_ranked Row.total rows
  · rw [hsplit]
    exact filter_ranked Row.total rows
  · cases limit with
    | none => exact length_ranked Row.total rows
    | some n =>
      show ((ranked Row.total rows).take (n - (0 : Nat)).toNat).length = min n.toNat rows.length
      rw [List.length_take, length_ranked, Nat.cast_zero, Int.sub_zero]

/-- The section is of these rows: the sums over all of them, and the lines of the heaviest. -/
structure Section.Reports (gbk : List UInt8 → Option String) (ipl : Option IPLocator)
    (places : List IPLocator.Place) (port : Bool) (limit : Option Int) (sec : Section)
    (rows : List Row) : Prop where
  userIp : inetNtoa sec.key.2 = some sec.userIp
  totalSend : sec.totalSend = Client.totalSend rows
  totalRecv : sec.totalRecv = Client.totalRecv rows
  lines : ∃ shown hidden, Heaviest limit rows shown hidden ∧
    List.Forall₂ (LineOf gbk ipl places port) shown sec.lines

section Sections

variable {gbk : List UInt8 → Option String} {ipl : Option IPLocator}
  {places : List IPLocator.Place} (h : Answers gbk ipl places)

include h

/-- **A section** for a key whose rows have been summed up. -/
theorem Answers.run_printKey (port : Bool) (limit : Option Int) {s : ClientState} {key : Key}
    {rows : List Row} (htable : s.table key = some rows)
    (hstat : s.stat key = some (totalRecv rows, totalSend rows, totalSend rows + totalRecv rows))
    (hkey : key.2 < 2 ^ 32) (houter : ∀ row ∈ rows, row.outerIp < 2 ^ 32) (pos : Nat) :
    ∃ sec pos', (printKey gbk ipl port limit s key).run pos = some (sec, pos') ∧
      sec.key = key ∧ sec.Reports gbk ipl places port limit rows := by
  obtain ⟨userIp, huser⟩ := inetNtoa_eq_some hkey
  obtain ⟨lines, pos', hlines, hof⟩ := h.run_printLines port limit (ranked Row.total rows) 0 pos
    fun row hrow => houter row ((ranked_perm Row.total rows).mem_iff.mp hrow)
  obtain ⟨hidden, hheaviest⟩ := heaviest_allowed limit rows
  refine ⟨⟨key, userIp, totalSend rows, totalRecv rows, lines⟩, pos', ?_, rfl,
    ⟨huser, rfl, rfl, _, hidden, hheaviest, hof⟩⟩
  have hlift : ∀ {α : Type} {o : Option α} {a : α}, o = some a →
      (liftM o : FileM α).run pos = some (a, pos) := by
    rintro α o a rfl
    rfl
  rw [printKey, IPLocator.run_bind (hlift hstat), IPLocator.run_bind (hlift htable),
    IPLocator.run_bind (hlift huser), IPLocator.run_bind hlines]
  rfl

/-- The sections, one for each of some keys. -/
theorem Answers.run_sections (port : Bool) (limit : Option Int) {s : ClientState} :
    ∀ (keys : List Key) (pos : Nat), (∀ key ∈ keys, ∃ rows, s.table key = some rows ∧
        s.stat key = some (totalRecv rows, totalSend rows, totalSend rows + totalRecv rows) ∧
        key.2 < 2 ^ 32 ∧ ∀ row ∈ rows, row.outerIp < 2 ^ 32) →
      ∃ secs pos', (keys.mapM (printKey gbk ipl port limit s)).run pos = some (secs, pos') ∧
        secs.map Section.key = keys ∧ ∀ sec ∈ secs, ∃ rows, s.table sec.key = some rows ∧
          sec.Reports gbk ipl places port limit rows
  | [], pos, _ => ⟨[], pos, rfl, rfl, fun _ hmem => absurd hmem List.not_mem_nil⟩
  | key :: keys, pos, hkeys => by
    rw [List.forall_mem_cons] at hkeys
    obtain ⟨⟨rows, htable, hstat, hkey, houter⟩, hrest⟩ := hkeys
    obtain ⟨sec, pos₁, hsec, rfl, hreports⟩ :=
      h.run_printKey port limit htable hstat hkey houter pos
    obtain ⟨secs, pos₂, hsecs, hmap, hall⟩ := run_sections port limit keys pos₁ hrest
    refine ⟨sec :: secs, pos₂, ?_, by rw [List.map_cons, hmap],
      List.forall_mem_cons.mpr ⟨⟨rows, htable, hreports⟩, hall⟩⟩
    rw [List.mapM_cons, IPLocator.run_bind hsec, IPLocator.run_bind hsecs]
    rfl

end Sections

/-- Box 7 reports two records of 172.16.0.2. -/
def twoRecords : List ClientEvent :=
  [.message "7".toList (packed udpTuple ++ packed tcpTuple)]

end Dotqoo.Client
