import Dotqoo.Link.Handlers

/-!
# IPv6 frames

The capture filter lets IPv4 and IPv6 through, and `handle_ip_packet` reads every
header as an IPv4 header: the test of the version is commented out, with a note
that IPv6 packets are ignored for now. So it is up to the link layer. Ethernet
checks the type and drops IPv6. Token ring and PPP check something, and most
IPv6 frames pass it (PPP accepts the Ethernet type, not its own); the others
check nothing.

`tableKept_iff` says what becomes of an IPv6 frame for each link layer. A frame
that is handed over leaves the table alone only by accident: the filters reject
the header as they read it, or its length reads 0 (an IPv6 flow label has its
lower half there) and the record it is taken for was written in this second.
-/

namespace Dotqoo.Link

open Dotqoo.Capture Dotqoo.Lib Dotqoo.Table Dotqoo.Lib.Reads

/-- `IP_V`. -/
def ipV (iptr : Packet) : UInt8 := (byteAt iptr 0 &&& 0xf0) >>> 4

/-- Where the link layer's header ends, as the handler sees it. -/
def headerAt (packet : List UInt8) : LinkType → Nat
  | .ethernet => ethPayload packet
  | .pflog => ((byteAt packet 0).toNat + 3) / 4 * 4
  | .raw => 0
  | .null => 4
  | .radiotap => itLenOf packet + 34
  | .tokenRing => llcAt packet + 8
  | .ppp => 4
  | .cooked => 16

/-- The direction the link layer gives a packet. -/
def hwDirOf (hw : HwAddr) (packet : List UInt8) : LinkType → Int
  | .ethernet => ethDirection hw packet
  | .tokenRing => tokenDirection hw packet
  | .cooked => sllDirection (ntohsAt packet 0)
  | _ => -1

/-- `PPP_IPV6`. -/
def pppIpv6 : UInt16 := 0x0057

/-- The frame carries an IPv6 packet: its link layer says so, where it says
anything, and the packet has version 6. PPP may leave out the address and control
bytes and the first byte of the protocol; the 802.11 header behind a radiotap
header has 24 bytes or more, and an LLC header after it. -/
def CarriesIpv6 (packet : List UInt8) : LinkType → Prop
  | .ethernet => ntohsAt packet (ethPayload packet - 2) = ethertypeIpv6 ∧
      ipV (packet.drop (ethPayload packet)) = 6
  | .pflog => ipV (packet.drop (headerAt packet .pflog)) = 6
  | .raw => ipV packet = 6
  | .null => ipV (packet.drop 4) = 6
  | .radiotap => ∃ off, itLenOf packet + 32 ≤ off ∧ ntohsAt packet (off - 2) = ethertypeIpv6 ∧
      ipV (packet.drop off) = 6
  | .tokenRing => isLlc packet = true ∧ isSnap packet (llcAt packet) = true ∧
      ntohsAt packet (llcAt packet + 6) = ethertypeIpv6 ∧ ipV (packet.drop (llcAt packet + 8)) = 6
  | .ppp =>
      (byteAt packet 0 = 0xff ∧ (ntohsAt packet 2 = pppIpv6 ∨ ntohsAt packet 2 = ethertypeIpv6) ∧
        ipV (packet.drop 4) = 6) ∨
      (byteAt packet 0 ≠ 0xff ∧ ((ntohsAt packet 0 = pppIpv6 ∧ ipV (packet.drop 2) = 6) ∨
        (byteAt packet 0 = 0x57 ∧ ipV (packet.drop 1) = 6)))
  | .cooked => ntohsAt packet 14 = ethertypeIpv6 ∧ ipV (packet.drop 16) = 6

/-- The link layers, and what they test, that let an IPv6 frame through. -/
def HandedOver (caplen : Nat) (packet : List UInt8) : LinkType → Prop
  | .ethernet => False
  | .tokenRing => orgcodeAt packet (llcAt packet) = 0x000000 ∨
      orgcodeAt packet (llcAt packet) = 0x0000f8
  | .ppp => 4 ≤ caplen ∧ byteAt packet 0 = 0xff ∧ ntohsAt packet 2 = ethertypeIpv6
  | _ => True

theorem payloadOf_of_handedOver {hw : HwAddr} {caplen : Nat} {packet : List UInt8} {link : LinkType}
    (h6 : CarriesIpv6 packet link) (h : HandedOver caplen packet link) :
    payloadOf hw caplen packet link = some (headerAt packet link, hwDirOf hw packet link) := by
  cases link with
  | ethernet => exact absurd h id
  | pflog => rfl
  | raw => rfl
  | null => rfl
  | radiotap => rfl
  | cooked => rfl
  | ppp =>
    obtain ⟨hlen, haddr, hproto⟩ := h
    simp [payloadOf, hlen, haddr, hproto, pppAccepts, headerAt, hwDirOf]
  | tokenRing =>
    obtain ⟨hllc, hsnap, -, -⟩ := h6
    have haccept : llcAccepts (orgcodeAt packet (llcAt packet))
        (ntohsAt packet (llcAt packet + 6)) = true := by
      rcases h with h | h
      · simp [llcAccepts, h]
      · simp [llcAccepts, h]
    simp [payloadOf, hllc, hsnap, haccept, headerAt, hwDirOf]

theorem payloadOf_of_not_handedOver {hw : HwAddr} {caplen : Nat} {packet : List UInt8}
    {link : LinkType} (h6 : CarriesIpv6 packet link) (h : ¬ HandedOver caplen packet link) :
    payloadOf hw caplen packet link = none := by
  cases link with
  | ethernet =>
    have hne : ethertypeIpv6 ≠ ethertypeIp := by decide
    simp [payloadOf, h6.1, hne]
  | pflog => exact absurd trivial h
  | raw => exact absurd trivial h
  | null => exact absurd trivial h
  | radiotap => exact absurd trivial h
  | cooked => exact absurd trivial h
  | ppp =>
    have hnot : ¬ (4 ≤ caplen ∧ byteAt packet 0 = 0xff ∧ pppAccepts (ntohsAt packet 2) = true) := by
      rintro ⟨hlen, haddr, hproto⟩
      rcases h6 with ⟨-, hv6 | hv6, -⟩ | ⟨hne, -⟩
      · rw [hv6] at hproto
        exact absurd hproto (by decide)
      · exact h ⟨hlen, haddr, hv6⟩
      · exact hne haddr
    simp only [payloadOf]
    rw [if_neg]
    simpa [and_assoc] using hnot
  | tokenRing =>
    obtain ⟨hllc, hsnap, het, -⟩ := h6
    have hreject : llcAccepts (orgcodeAt packet (llcAt packet))
        (ntohsAt packet (llcAt packet + 6)) = false := by
      have hne : ethertypeIpv6 ≠ ethertypeAtalk := by decide
      simp only [HandedOver, not_or] at h
      simp [llcAccepts, h.1, h.2, het, hne]
    simp [payloadOf, hllc, hsnap, hreject]

/-! ## The table -/

/-- Two tables hold the same records. -/
def SameRecords (h h' : History) : Prop :=
  ∀ key, hashFind h.toHashType key = hashFind h'.toHashType key

/-- The box as the accounting of the frame finds it: after the packet's `tick`,
if `handle_ip_packet` is called. -/
def ticked (pl : Platform) (hw : HwAddr) (link : LinkType) (caplen : Nat) (e : PacketEnv)
    (packet : List UInt8) (b : Box) : Box :=
  match (packetHandler hw caplen link).value (memory packet) with
  | none => b
  | some _ => tick pl e.tick false e.t b

/-- The frame itself changes neither the table nor the totals. -/
def TableKept (pl : Platform) (hw : HwAddr) (link : LinkType) (caplen : Nat) (e : PacketEnv)
    (packet : List UInt8) (b : Box) : Prop :=
  SameRecords (handlePacket pl hw link caplen e packet b).history
      (ticked pl hw link caplen e packet b).history ∧
    (handlePacket pl hw link caplen e packet b).historyTotals = b.historyTotals

/-- The accounting of the packet would write what is there: no length, and a
record the pass does not remove, written at `t` already. -/
def WritesNothing (b : Box) (iptr : Packet) (key : AddrPair) (t : Int) : Prop :=
  ipLen iptr = 0 ∧ b.missesKey key t = false ∧
    ∃ d, hashFind b.history.toHashType key = some d ∧ d.lastUpdateTime = t

/-- An IPv6 frame is not handed over, or it is and nothing comes of it. -/
def Spared (hw : HwAddr) (link : LinkType) (caplen : Nat) (e : PacketEnv) (packet : List UInt8)
    (b : Box) : Prop :=
  HandedOver caplen packet link →
    ∀ f ∈ acceptedFlow b.config e (packet.drop (headerAt packet link)) (hwDirOf hw packet link),
      WritesNothing b (packet.drop (headerAt packet link)) f.key e.t

/-- A record the `tick` leaves under a key has the time of the one before it. -/
theorem hashFind_tick_some {pl : Platform} {e : TickEnv} {send : Bool} {t : Int} {b : Box}
    {key : AddrPair} {d : HistoryType}
    (h : hashFind (tick pl e send t b).history.toHashType key = some d) :
    ∃ d', hashFind b.history.toHashType key = some d' ∧ d.lastUpdateTime = d'.lastUpdateTime := by
  rw [hashFind_tick] at h
  split at h
  next =>
    obtain ⟨d', hd', hs⟩ := Option.bind_eq_some_iff.mp h
    exact ⟨d', hd', (settle_some hs).2.2.2.1⟩
  next => exact ⟨d, h, rfl⟩

theorem writesNothing_iff (pl : Platform) (e : TickEnv) {t : Int} {b : Box} {iptr : Packet}
    {key : AddrPair} :
    WritesNothing b iptr key t ↔ ipLen iptr = 0 ∧
      ∃ d, hashFind (tick pl e false t b).history.toHashType key = some d ∧ d.lastUpdateTime = t := by
  have hmiss : b.missesKey key t = false ↔
      hashFind (tick pl e false t b).history.toHashType key ≠ none := by
    rw [← Bool.not_eq_true, missesKey_iff pl e t b key]
  rw [WritesNothing, hmiss]
  refine and_congr_right fun _ => ?_
  constructor
  · rintro ⟨hne, d, hd, ht⟩
    obtain ⟨d', hd'⟩ := Option.ne_none_iff_exists'.mp hne
    obtain ⟨d'', hd'', heq⟩ := hashFind_tick_some hd'
    rw [hd] at hd''
    cases hd''
    exact ⟨d', hd', heq.trans ht⟩
  · rintro ⟨d, hd, ht⟩
    obtain ⟨d', hd', heq⟩ := hashFind_tick_some hd
    exact ⟨by rw [hd]; exact nofun, d', hd', heq.symm.trans ht⟩

/-- Accounting a packet without a length to a record of this second. -/
theorem accountRecord_same {iptr : Packet} {key : AddrPair} {t : Int} {d : HistoryType}
    (hlen : ipLen iptr = 0) (ht : d.lastUpdateTime = t) : accountRecord iptr key t d = d := by
  unfold accountRecord
  rw [hlen]
  subst ht
  split
  next => simp
  next => simp

theorem length_eq_zero_iff (len : UInt16) : len.toUInt64 = 0 ↔ len = 0 := by
  rw [← UInt64.toNat_inj, ← UInt16.toNat_inj, UInt16.toNat_toUInt64]
  rfl

/-- A counter changes unless the length is 0. -/
theorem totals_same_iff {iptr : Packet} {direction : Direction} {totals : HistoryType} :
    accountTotals iptr direction totals = totals ↔ ipLen iptr = 0 := by
  cases direction with
  | incoming =>
    rw [accountTotals, HistoryType.mk.injEq]
    simp [length_eq_zero_iff]
  | outgoing =>
    rw [accountTotals, HistoryType.mk.injEq]
    simp [length_eq_zero_iff]

/-- An accepted packet keeps table and totals exactly if it writes nothing. -/
theorem account_keeps_iff {pl : Platform} {e : PacketEnv} {iptr : Packet} {f : Flow} {b : Box} :
    (SameRecords (account iptr f e.t e.created (tick pl e.tick false e.t b)).history
        (tick pl e.tick false e.t b).history ∧
      (account iptr f e.t e.created (tick pl e.tick false e.t b)).historyTotals = b.historyTotals)
      ↔ WritesNothing b iptr f.key e.t := by
  have htotals : (account iptr f e.t e.created (tick pl e.tick false e.t b)).historyTotals
      = accountTotals iptr f.direction b.historyTotals := by
    rw [← tick_totals pl e.tick false e.t b]
    rfl
  rw [writesNothing_iff pl e.tick, htotals, totals_same_iff, and_comm]
  refine and_congr_right fun hlen => ?_
  constructor
  · intro hsame
    -- the accounted record is under the key, so it was there before
    have hkey := hsame f.key
    rw [hashFind_account_eq, if_pos rfl] at hkey
    exact ⟨_, hkey.symm, accountRecord_lastUpdateTime iptr f.key e.t _⟩
  · rintro ⟨d, hd, ht⟩ key
    rw [hashFind_account_eq]
    by_cases hk : key = f.key
    · rw [if_pos hk, hk, recordFor, hd, Option.getD_some, accountRecord_same hlen ht]
    · rw [if_neg hk]

/-- **What becomes of an IPv6 frame.** It leaves the table and the totals alone
if and only if its link layer does not hand it over, or nothing comes of it. -/
theorem tableKept_iff (pl : Platform) (hw : HwAddr) (link : LinkType) (caplen : Nat)
    (e : PacketEnv) (packet : List UInt8) (b : Box) (h6 : CarriesIpv6 packet link) :
    TableKept pl hw link caplen e packet b ↔ Spared hw link caplen e packet b := by
  unfold TableKept handlePacket ticked
  rw [value_packetHandler]
  by_cases hover : HandedOver caplen packet link
  · rw [payloadOf_of_handedOver h6 hover]
    have hspared : Spared hw link caplen e packet b ↔ ∀ f ∈ acceptedFlow b.config e
        (packet.drop (headerAt packet link)) (hwDirOf hw packet link),
        WritesNothing b (packet.drop (headerAt packet link)) f.key e.t :=
      ⟨fun h => h hover, fun h _ => h⟩
    rw [hspared]
    cases ha : acceptedFlow b.config e (packet.drop (headerAt packet link))
        (hwDirOf hw packet link) with
    | none =>
      simp only [handleIpPacket_none ha]
      constructor
      · intro _ f hf
        cases hf
      · intro _
        exact ⟨fun _ => rfl, tick_totals pl e.tick false e.t b⟩
    | some f =>
      simp only [handleIpPacket_some ha, account_keeps_iff]
      exact ⟨fun h g hg => by cases hg; exact h, fun h => h f rfl⟩
  · rw [payloadOf_of_not_handedOver h6 hover]
    exact ⟨fun _ h => absurd h hover, fun _ => ⟨fun _ => rfl, rfl⟩⟩

/-- TCP over IPv6 from 2001:db8:85a3::8a2e:370:7334, with the flow label 0x12345. -/
def ipv6Packet : List UInt8 :=
  [0x60, 0x01, 0x23, 0x45, 0, 20, 6, 64,
   0x20, 0x01, 0x0d, 0xb8, 0x85, 0xa3, 0, 0, 0, 0, 0x8a, 0x2e, 0x03, 0x70, 0x73, 0x34,
   0x20, 0x01, 0x0d, 0xb8, 0, 0, 0, 0, 0, 0, 0, 0, 0, 0, 0, 1,
   0x03, 0xe8, 0, 80, 0, 0, 0, 0, 0, 0, 0, 0, 0x50, 0x10, 0, 0, 0, 0, 0, 0]

/-- An interface without a hardware address, and a packet at 12. -/
def tunHw : HwAddr := ⟨false, List.replicate 6 0⟩

def tunPacketEnv : PacketEnv :=
  { tick := plainEnv none, t := 12, created := 12, i := 0, wild := false }

/-- The same packet behind an Ethernet header. -/
def ipv6Frame : List UInt8 :=
  [2, 0, 0, 0, 0, 1, 2, 0, 0, 0, 0, 2, 0x86, 0xdd] ++ ipv6Packet

theorem tableKept_iff_ethernet :
    TableKept lp64 tunHw .ethernet 72 tunPacketEnv ipv6Frame plainBox ↔
      Spared tunHw .ethernet 72 tunPacketEnv ipv6Frame plainBox :=
  tableKept_iff lp64 tunHw .ethernet 72 tunPacketEnv ipv6Frame plainBox
    ⟨by decide, by decide⟩

/-- On a raw link the packet is taken for 9029 bytes of IPv4 with protocol 1, and
becomes a record. -/
theorem tableKept_fails :
    CarriesIpv6 ipv6Packet .raw
      ∧ ((handlePacket lp64 tunHw .raw 60 tunPacketEnv ipv6Packet plainBox).history.nodes.map
          fun n => (n.key.protocol, n.record.totalRecv)) = [(1, 9029)]
      ∧ ¬ TableKept lp64 tunHw .raw 60 tunPacketEnv ipv6Packet plainBox := by
  have hv6 : ipV ipv6Packet = 6 := by decide
  refine ⟨hv6, by decide +kernel, ?_⟩
  rintro ⟨_, htotals⟩
  revert htotals
  decide +kernel

end Dotqoo.Link
