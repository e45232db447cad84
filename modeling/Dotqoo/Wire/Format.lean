import Dotqoo.Capture.Tick
import Dotqoo.Client.SaveData

/-!
# The wire format, from both ends

The box writes a record field by field with the widths of its own platform; the
client reads `=LHLHHQQLL`, 38 bytes. On a platform with four-byte `long` and
`time_t` the two agree: a record is 38 bytes and unpacks to its own fields
(`unpack_recordBytes`), so a whole message decodes (`decode_message`) and
`save_data` files every record as a row of the address it belongs to.

On LP64 they do not. `memcpy(current, &addr_info->src.s_addr, sizeof(long))`
copies eight bytes from a field of four: the destination port and the padding
travel with the source address, and whatever lies behind the key travels with
the destination address. A record is 54 bytes, so an n-record message has more
slices than records, for every n.
-/

namespace Dotqoo.Wire

open Dotqoo.Lib Dotqoo.Table Dotqoo.Capture Dotqoo.Client

/-- The tuple that a record of the box should arrive as. -/
def wireTuple (n : Node) : Tuple where
  outerIp := n.key.src.toNat
  outerPort := n.key.srcPort.toNat
  innerIp := n.key.dst.toNat
  innerPort := n.key.dstPort.toNat
  protocol := n.key.protocol.toNat
  recv := n.record.totalSent.toNat
  send := n.record.totalRecv.toNat
  create := (n.record.createTime % 2 ^ 32).toNat
  endTime := (n.record.lastUpdateTime % 2 ^ 32).toNat

/-- The message `construct_MQTT_msg` builds from a table when it is told the
number of approved records. -/
def message (pl : Platform) (around : AddrPair → Neighbours) (h : History) : List UInt8 :=
  (messageOf pl around (approvedOf h.nodes).length h).bytes

theorem message_eq {pl : Platform} (hpl : pl.LongOk) (around : AddrPair → Neighbours)
    (h : History) : message pl around h
      = ((approvedOf h.nodes).map fun n => recordBytes pl (around n.key) n).flatten := by
  show (encodeTable pl around (approvedOf h.nodes).length h).block = _
  rw [encodeTable_exact hpl, tableBytes, List.flatMap]

theorem length_message {pl : Platform} (hpl : pl.LongOk) (around : AddrPair → Neighbours)
    (h : History) : (message pl around h).length = pl.structSize * (approvedOf h.nodes).length := by
  show (encodeTable pl around (approvedOf h.nodes).length h).block.length = _
  rw [encodeTable_exact hpl, length_tableBytes hpl]

/-! ## Four-byte `long` and `time_t` -/

/-- The client's reading of the address bytes as the box wrote them. -/
def hostOrder (addr : UInt32) : Nat :=
  addr.toNat % 256 * 16777216 + addr.toNat / 256 % 256 * 65536
    + addr.toNat / 65536 % 256 * 256 + addr.toNat / 16777216

/-- The addresses of 172.16.0.0/16. -/
def InNet (ip : Nat) : Prop := ip / 2 ^ 16 = 0xAC10

theorem swapEndian_eq (addr : UInt32) : swapEndian addr.toNat = hostOrder addr := by
  have hlt : addr.toNat < 2 ^ 32 := addr.toNat_lt
  have hbytes : (leBytes 4 addr.toNat).reverse
      = [UInt8.ofNat (addr.toNat / 256 / 256 / 256), UInt8.ofNat (addr.toNat / 256 / 256),
          UInt8.ofNat (addr.toNat / 256), UInt8.ofNat addr.toNat] := rfl
  have h16 : addr.toNat / 65536 = addr.toNat / 256 / 256 := by omega
  have h24 : addr.toNat / 16777216 = addr.toNat / 256 / 256 / 256 := by omega
  rw [swapEndian, hbytes, hostOrder, h16, h24]
  simp only [ofLe, UInt8.toNat_ofNat']
  omega

theorem isInner_iff {ip : Nat} (h : ip < 2 ^ 32) : isInner ip = true ↔ InNet ip := by
  -- the mask keeps the upper 16 of 32 bits
  have hmask : ip &&& 0xFFFF0000 = ip / 2 ^ 16 % 2 ^ 16 * 2 ^ 16 := and_ones ip 16 16
  rw [isInner, beq_iff_eq, hmask, InNet]
  omega

theorem InNet.isInner {ip : Nat} (h : InNet ip) : isInner ip = true := by
  have hlt : ip < 2 ^ 32 := by
    unfold InNet at h
    omega
  exact (isInner_iff hlt).mpr h

/-- With four-byte `long` the nine copies are the nine fields. -/
theorem recordFields_ilp32 {pl : Platform} (hlong : pl.sizeofLong = 4) (htime : pl.sizeofTimeT = 4)
    (nb : Neighbours) (n : Node) : recordFields pl nb n =
      [leBytes 4 n.key.src.toNat, leBytes 2 n.key.srcPort.toNat, leBytes 4 n.key.dst.toNat,
        leBytes 2 n.key.dstPort.toNat, leBytes 2 n.key.protocol.toNat,
        leBytes 8 n.record.totalSent.toNat, leBytes 8 n.record.totalRecv.toNat,
        leInt 4 n.record.createTime, leInt 4 n.record.lastUpdateTime] := by
  rw [recordFields, hlong, htime]
  rfl

/-- A record unpacks to its own fields. -/
theorem unpack_recordBytes {pl : Platform} (hlong : pl.sizeofLong = 4) (htime : pl.sizeofTimeT = 4)
    (nb : Neighbours) (n : Node) : unpack (recordBytes pl nb n) = some (wireTuple n) := by
  have htimes : ∀ x : Int, ofLe (leInt 4 x) = (x % 2 ^ 32).toNat := by
    intro x
    have := ofLe_leInt 4 x
    omega
  have hread : unpackLe structType (recordBytes pl nb n)
      = some [n.key.src.toNat, n.key.srcPort.toNat, n.key.dst.toNat, n.key.dstPort.toNat,
          n.key.protocol.toNat, n.record.totalSent.toNat, n.record.totalRecv.toNat,
          (n.record.createTime % 2 ^ 32).toNat, (n.record.lastUpdateTime % 2 ^ 32).toNat] := by
    rw [recordBytes, recordFields_ilp32 hlong htime, unpackLe_flatten (by simp [structType])]
    simp only [List.map_cons, List.map_nil, htimes]
    rw [ofLe_leBytes_of_lt n.key.src.toNat_lt, ofLe_leBytes_of_lt n.key.srcPort.toNat_lt,
      ofLe_leBytes_of_lt n.key.dst.toNat_lt, ofLe_leBytes_of_lt n.key.dstPort.toNat_lt,
      ofLe_leBytes_of_lt n.key.protocol.toNat_lt, ofLe_leBytes_of_lt n.record.totalSent.toNat_lt,
      ofLe_leBytes_of_lt n.record.totalRecv.toNat_lt]
  rw [unpack, hread]
  rfl

/-- A message of a platform with four-byte `long` and `time_t` decodes to the
approved records. -/
theorem decode_message {pl : Platform} (hlong : pl.sizeofLong = 4) (htime : pl.sizeofTimeT = 4)
    (around : AddrPair → Neighbours) (h : History) :
    decode (message pl around h) = some ((approvedOf h.nodes).map wireTuple) := by
  have hpl : pl.LongOk := Or.inl hlong
  have hsize : pl.structSize = Client.structSize := by
    rw [Platform.structSize, hlong, htime]
    rfl
  rw [decode, message_eq hpl, slices_flatten (show 0 < Client.structSize by decide)]
  · exact mapM_eq_some_map (f := unpack) (g := wireTuple)
      (e := fun n => recordBytes pl (around n.key) n)
      (fun n => unpack_recordBytes hlong htime (around n.key) n) (approvedOf h.nodes)
  · intro r hr
    obtain ⟨n, -, rfl⟩ := List.mem_map.mp hr
    rw [length_recordBytes hpl, hsize]

/-- The row a record of the box should become. The times are those of the
record as four unsigned bytes. -/
def rowOf (n : Node) : Row where
  outerIp := hostOrder n.key.src
  outerPort := n.key.srcPort.toNat
  protocols := [n.key.protocol.toNat]
  recv := n.record.totalSent.toNat
  send := n.record.totalRecv.toNat
  create := (n.record.createTime % 2 ^ 32).toNat
  endTime := (n.record.lastUpdateTime % 2 ^ 32).toNat

/-- A time that `time(NULL)` can return and four bytes can hold. -/
def ClockReading (t : Int) : Prop := 0 ≤ t ∧ t < 2 ^ 32

theorem toNat_clockReading {t : Int} (h : ClockReading t) : ((t % 2 ^ 32).toNat : Int) = t := by
  obtain ⟨h0, h1⟩ := h
  rw [Int.emod_eq_of_lt h0 h1, Int.toNat_of_nonneg h0]

/-- The approved records of a table with a destination address. -/
def approvedFor (ip : Nat) (h : History) : List Node :=
  (approvedOf h.nodes).filter fun n => hostOrder n.key.dst == ip

/-- The client's records for an address are the box's with that destination. -/
theorem recordsFor_wireTuple (ip : Nat) (ns : List Node) :
    recordsFor ip (ns.map wireTuple)
      = (ns.filter fun n => hostOrder n.key.dst == ip).map wireTuple := by
  rw [recordsFor, List.filter_map]
  congr 1
  apply List.filter_congr
  intro n _
  show (swapEndian n.key.dst.toNat == ip) = _
  rw [swapEndian_eq]

/-- The row of an unpacked record is the row of the record. -/
theorem newRow_wireTuple (n : Node) : newRow (wireTuple n) (wireTuple n).outerPort = rowOf n := by
  simp only [newRow, wireTuple, rowOf, swapEndian_eq]

theorem hostOrder_lt (addr : UInt32) : hostOrder addr < 2 ^ 32 := by
  have hlt : addr.toNat < 2 ^ 32 := addr.toNat_lt
  unfold hostOrder
  omega

/-- No record has a destination beyond 32 bits. -/
theorem approvedFor_large {ip : Nat} (h : History) (hip : ¬ ip < 2 ^ 32) : approvedFor ip h = [] := by
  refine List.filter_eq_nil_iff.mpr fun n _ => ?_
  have := hostOrder_lt n.key.dst
  simp only [beq_iff_eq]
  omega

/-- **The round trip of a 32-bit box.** `save_data` reads the message to its end
and leaves, for each address of 172.16.0.0/16, the rows of its approved records
in walk order, and nothing for any other key. The times in the rows are the
record's own. -/
theorem saveData_message {pl : Platform} (hlong : pl.sizeofLong = 4) (htime : pl.sizeofTimeT = 4)
    (around : AddrPair → Neighbours) (h : History) (boxid : Int) :
    (saveData true boxid (message pl around h) emptyTable).2 = true
      ∧ (∀ ip, InNet ip → (saveData true boxid (message pl around h) emptyTable).1 (boxid, ip)
          = if approvedFor ip h = [] then none else some ((approvedFor ip h).map rowOf))
      ∧ (∀ key : Key, (key.1 ≠ boxid ∨ ¬ InNet key.2) →
          (saveData true boxid (message pl around h) emptyTable).1 key = none)
      ∧ (∀ n : Node, ClockReading n.record.createTime → ClockReading n.record.lastUpdateTime →
          ((rowOf n).create : Int) = n.record.createTime
            ∧ ((rowOf n).endTime : Int) = n.record.lastUpdateTime) := by
  rw [saveData_of_decode (decode_message hlong htime around h)]
  have hkey : ∀ ip, isInner ip = true →
      saveTuples true boxid ((approvedOf h.nodes).map wireTuple) emptyTable (boxid, ip)
        = if approvedFor ip h = [] then none else some ((approvedFor ip h).map rowOf) := by
    intro ip hip
    have hrows : ((approvedFor ip h).map wireTuple).map (fun t => newRow t t.outerPort)
        = (approvedFor ip h).map rowOf := by
      rw [List.map_map]
      exact List.map_congr_left fun n _ => newRow_wireTuple n
    rw [saveTuples_inside hip, recordsFor_wireTuple, ← approvedFor, foldl_fileRow_port, hrows]
    simp only [List.map_eq_nil_iff]
    rfl
  refine ⟨rfl, fun ip hip => hkey ip ?_, fun key hout => ?_,
    fun n hc hu => ⟨toNat_clockReading hc, toNat_clockReading hu⟩⟩
  · exact hip.isInner
  · obtain ⟨b, ip⟩ := key
    by_cases hb : b = boxid
    · subst hb
      rcases hout with hout | hout
      · exact absurd rfl hout
      · by_cases hin : isInner ip = true
        · -- the mask of the filter does not see bits above the 32nd
          have hlarge : ¬ ip < 2 ^ 32 := fun hlt => hout ((isInner_iff hlt).mp hin)
          show saveTuples true b _ emptyTable (b, ip) = none
          rw [hkey ip hin, approvedFor_large h hlarge]
          rfl
        · exact saveTuples_outside (Or.inr (by simpa using hin))
    · exact saveTuples_outside (Or.inl hb)

/-- A 32-bit build. -/
def ilp32 : Platform := { lp64 with sizeofLong := 4, sizeofTimeT := 4 }

/-- A table of one approved record, of 10.0.0.1:1000 to 172.16.0.2:80. -/
def oneRecord : History :=
  (KeyedTable.empty addrHash HistoryType).insert
    { protocol := 6, srcPort := 1000, src := 16777226, dstPort := 80, dst := 33558700 }
    { totalSent := 40, totalRecv := 60, createTime := 10, lastUpdateTime := 50, approval := true }
    ((KeyedTable.hashFind_eq_none_iff _).mpr fun n hn => absurd hn (by
      show n ∉ (hashInitialise addrHash HistoryType).nodes
      rw [nodes_hashInitialise]
      exact List.not_mem_nil))

theorem saveData_message_oneRecord :
    (saveData true 7 (message ilp32 (fun _ => ⟨0, 0⟩) oneRecord) emptyTable).2 = true
      ∧ (∀ ip, InNet ip →
          (saveData true 7 (message ilp32 (fun _ => ⟨0, 0⟩) oneRecord) emptyTable).1 (7, ip)
            = if approvedFor ip oneRecord = [] then none
              else some ((approvedFor ip oneRecord).map rowOf))
      ∧ (∀ key : Key, (key.1 ≠ 7 ∨ ¬ InNet key.2) →
          (saveData true 7 (message ilp32 (fun _ => ⟨0, 0⟩) oneRecord) emptyTable).1 key = none)
      ∧ (∀ n : Node, ClockReading n.record.createTime → ClockReading n.record.lastUpdateTime →
          ((rowOf n).create : Int) = n.record.createTime
            ∧ ((rowOf n).endTime : Int) = n.record.lastUpdateTime) :=
  saveData_message rfl rfl (fun _ => ⟨0, 0⟩) oneRecord 7

/-! ## Eight-byte `long` and `time_t` -/

theorem length_slices {size : Nat} (bytes : List UInt8) :
    (slices size bytes).length = (bytes.length + size - 1) / size := by
  rw [slices, List.length_map, List.length_range]

theorem length_of_mapM {α β : Type} {f : α → Option β} : ∀ {xs : List α} {ys : List β},
    xs.mapM f = some ys → ys.length = xs.length
  | [], ys, h => by
    obtain rfl : [] = ys := by simpa using h
    rfl
  | x :: xs, ys, h => by
    rw [List.mapM_cons] at h
    obtain ⟨y, -, h⟩ := Option.bind_eq_some_iff.mp h
    obtain ⟨ys', hys, hcons⟩ := Option.bind_eq_some_iff.mp h
    obtain rfl : y :: ys' = ys := Option.some.inj hcons
    rw [List.length_cons, length_of_mapM hys, List.length_cons]

/-- The four bytes behind the key follow its destination address in the message. -/
theorem recordBytes_lp64_behind {pl : Platform} (hlong : pl.sizeofLong = 8) (nb : Neighbours)
    (n : Node) : ((recordBytes pl nb n).drop 14).take 4 = leBytes 4 nb.behind.toNat := by
  rw [recordBytes, recordFields, hlong]
  rfl

/-- **No message of an LP64 box decodes.** Whatever the table, as long as it has
an approved record: the tuples are not the approved records, and the bytes
depend on the memory behind the keys, even with all padding zero. -/
theorem message_lp64 {pl : Platform} (hlong : pl.sizeofLong = 8) (htime : pl.sizeofTimeT = 8)
    (h : History) (hn : 1 ≤ (approvedOf h.nodes).length) :
    (∀ around, decode (message pl around h) ≠ some ((approvedOf h.nodes).map wireTuple))
      ∧ ∃ around around', (∀ k, (around k).padding = 0 ∧ (around' k).padding = 0)
        ∧ message pl around h ≠ message pl around' h := by
  have hpl : pl.LongOk := Or.inr hlong
  have hsize : pl.structSize = 54 := by rw [Platform.structSize, hlong, htime]
  refine ⟨fun around hdec => ?_, fun _ => ⟨0, 0⟩, fun _ => ⟨0, 1⟩, fun _ => ⟨rfl, rfl⟩,
    fun heq => ?_⟩
  · -- 54 n bytes make more than n slices of 38
    have hlen := length_of_mapM hdec
    rw [length_slices, length_message hpl, hsize, List.length_map] at hlen
    have h38 : Client.structSize = 38 := rfl
    rw [h38] at hlen
    omega
  · rw [message_eq hpl, message_eq hpl] at heq
    cases hap : approvedOf h.nodes with
    | nil =>
      rw [hap] at hn
      exact absurd hn (by simp)
    | cons n ns =>
      rw [hap, List.map_cons, List.map_cons, List.flatten_cons, List.flatten_cons] at heq
      obtain ⟨hrec, -⟩ := List.append_inj heq (by rw [length_recordBytes hpl, length_recordBytes hpl])
      have hbehind := congrArg (fun bytes => (bytes.drop 14).take 4) hrec
      simp only [recordBytes_lp64_behind hlong] at hbehind
      exact absurd hbehind (by decide)

theorem message_lp64_oneRecord :
    (∀ around, decode (message lp64 around oneRecord)
        ≠ some ((approvedOf oneRecord.nodes).map wireTuple))
      ∧ ∃ around around', (∀ k, (around k).padding = 0 ∧ (around' k).padding = 0)
        ∧ message lp64 around oneRecord ≠ message lp64 around' oneRecord :=
  message_lp64 rfl rfl oneRecord (by decide +kernel)

/-- One record of 10.0.0.1:1000 to 172.16.0.2:80, sent by an LP64 box: two
slices, the second of 16 bytes, so that nothing is decoded. -/
theorem decode_lp64_fails :
    (approvedOf oneRecord.nodes).length = 1
      ∧ (message lp64 (fun _ => ⟨0, 0⟩) oneRecord).length = 54
      ∧ decode (message lp64 (fun _ => ⟨0, 0⟩) oneRecord)
          ≠ some ((approvedOf oneRecord.nodes).map wireTuple) := by
  decide +kernel

end Dotqoo.Wire
