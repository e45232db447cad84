import Dotqoo.Link.Handlers

/-!
# Parsing inside the captured bytes

libpcap hands over the first `CAPTURE_LENGTH` bytes of a frame. Nothing on the
way from the link layer to the accounting compares an offset with `caplen`, but
for the two tests of `handle_ppp_packet`: a short frame is read behind its end,
and so is a long one whose IP header has many options, since the ports lie
`IP_HL * 4` bytes behind the header's start.

`Fits` collects what each path needs, and `frame_checked_iff` says that a frame
is read inside its captured bytes exactly if they suffice.
-/

namespace Dotqoo.Link

open Dotqoo.Capture Dotqoo.Lib Dotqoo.Table Dotqoo.Lib.Reads

/-- The captured bytes of a frame. -/
def captured (frame : List UInt8) : List UInt8 := frame.take captureLength

theorem captured_memory (frame : List UInt8) :
    ∀ i < (captured frame).length, (captured frame)[i]? = some (memory frame i) := by
  intro i hi
  simp only [captured, List.length_take] at hi
  have hlt : i < frame.length := by omega
  rw [captured, List.getElem?_take_of_lt (by omega), List.getElem?_eq_getElem hlt, memory,
    List.getD_eq_getElem?_getD, List.getElem?_eq_getElem hlt, Option.getD_some]

/-! ## Behind the IP header -/

section Ip

variable {packet : List UInt8} {n k : Nat}

theorem within_ntohsReads (off : Nat) :
    Within (memory packet) n (ntohsReads off) ↔ off + 2 ≤ n := by
  simp only [ntohsReads, ↓within_bind, within_cell, within_pure, and_true]
  omega

theorem within_sAddrReads (off : Nat) :
    Within (memory packet) n (sAddrReads off) ↔ off + 4 ≤ n := by
  simp only [sAddrReads, ↓within_bind, within_cells, within_pure, and_true]
  omega

theorem within_matchesReads (off : Nat) (addr : List UInt8) :
    Within (memory packet) n (matchesReads off addr) ↔ off + 6 ≤ n := by
  simp only [matchesReads, ↓within_bind, within_cells, within_pure, and_true]
  omega

/-- The scan reads `ip_p` and nothing else. -/
theorem within_blockScanReads (h : k + 9 < n) : ∀ entries : List Int,
    Within (memory packet) n (blockScanReads k entries)
  | [] => trivial
  | b :: rest => by
    rw [blockScanReads, within_ite]
    refine ⟨fun _ => trivial, fun _ => ?_⟩
    rw [within_bind, within_cell, within_ite]
    exact ⟨h, fun _ => trivial, fun _ => within_blockScanReads h rest⟩

/-- A verdict other than the one at an end mark takes a read of `ip_p`. -/
theorem bound_of_blockScan : ∀ {entries : List Int},
    blockScan entries (ipP (packet.drop k)) = some true →
    Within (memory packet) n (blockScanReads k entries) → k + 9 < n
  | [], hv, _ => by cases hv
  | b :: rest, hv, hw => by
    rw [blockScan] at hv
    rw [blockScanReads, within_ite] at hw
    by_cases hend : b = -1
    · rw [if_pos hend] at hv
      cases hv
    · exact (within_cell _).mp ((within_bind _ _).mp (hw.2 hend)).1

theorem within_blockedReads (h : k + 9 < n) (o : Options) (i : Int) (wild : Bool) :
    Within (memory packet) n (blockedReads o k i wild) := by
  have hwild : Within (memory packet) n (wildReads k wild) := by
    cases wild with
    | false => trivial
    | true => exact ⟨h, trivial⟩
  rw [blockedReads, within_ite]
  refine ⟨fun _ => ?_, fun _ => hwild⟩
  rw [within_bind]
  refine ⟨within_blockScanReads h _, ?_⟩
  split
  next => trivial
  next => exact hwild

/-- A packet is dropped by the scan only after its `ip_p` has been read. -/
theorem bound_of_blocked {o : Options} {i : Int} {wild : Bool}
    (hb : blocked o (ipP (packet.drop k)) i wild = true)
    (hw : Within (memory packet) n (blockedReads o k i wild)) : k + 9 < n := by
  have hwild : wild = true → Within (memory packet) n (wildReads k wild) → k + 9 < n := by
    intro hwild h
    rw [hwild] at h
    exact h.1
  unfold blocked at hb
  rw [blockedReads, within_ite] at hw
  by_cases hi : 0 ≤ i
  · rw [if_pos hi] at hb
    have hscan := (within_bind _ _).mp (hw.1 hi)
    rw [value_blockScanReads] at hscan
    cases hv : blockScan (o.blockProtocols.drop i.toNat) (ipP (packet.drop k)) with
    | none =>
      rw [hv] at hb hscan
      exact hwild hb hscan.2
    | some verdict =>
      rw [hv, Option.getD_some] at hb
      rw [hb] at hv
      exact bound_of_blockScan hv hscan.1
  · rw [if_neg hi] at hb
    exact hwild hb (hw.2 hi)

theorem within_oursReads (c : Config) {off : Nat} (h : off + 4 ≤ n) :
    Within (memory packet) n (oursReads c off) := by
  simp [oursReads, within_sAddrReads, h]

theorem within_crossesReads (o : Options) {a b : Nat} (ha : a + 4 ≤ n) (hb : b + 4 ≤ n) :
    Within (memory packet) n (crossesReads o a b) := by
  simp [crossesReads, within_sAddrReads, ha, hb]

/-- The cascade reads the two addresses at most. -/
theorem within_orientReads (h : k + 20 ≤ n) (c : Config) (hwDir : Int) :
    Within (memory packet) n (orientReads c k hwDir) := by
  have hsrc : k + 12 + 4 ≤ n := by omega
  have hdst : k + 16 + 4 ≤ n := by omega
  simp only [orientReads, ↓within_ite, ↓within_bind, within_pure, within_oursReads c hsrc,
    within_oursReads c hdst, within_crossesReads c.options hsrc hdst,
    within_crossesReads c.options hdst hsrc, within_sAddrReads, hsrc, hdst, implies_true, and_self]

theorem value_oursReads (c : Config) (off : Nat) : (oursReads c (k + off)).value (memory packet)
    = (c.haveIpAddr && ipAddrMatch c (sAddrAt (packet.drop k) off)) := by
  simp [oursReads, sAddrAt_drop]

theorem value_crossesReads (o : Options) (a b : Nat) :
    (crossesReads o (k + a) (k + b)).value (memory packet)
      = (inFilterNet o (sAddrAt (packet.drop k) a)
          && !inFilterNet o (sAddrAt (packet.drop k) b)) := by
  simp [crossesReads, sAddrAt_drop]

/-- The cascade junks a packet only after its destination has been read. -/
theorem bound_of_orient_none {c : Config} {hwDir : Int}
    (hnone : orient c (packet.drop k) hwDir = none)
    (hw : Within (memory packet) n (orientReads c k hwDir)) : k + 20 ≤ n := by
  unfold orient at hnone
  unfold orientReads at hw
  by_cases hnet : c.options.netfilter = false
  · rw [if_pos hnet] at hnone hw
    by_cases h1 : hwDir = 1
    · rw [if_pos h1] at hnone
      cases hnone
    rw [if_neg h1] at hnone hw
    by_cases h0 : hwDir = 0
    · rw [if_pos h0] at hnone
      cases hnone
    rw [if_neg h0] at hnone hw
    -- neither address is ours, so the test for a multicast destination is reached
    rw [within_bind, value_oursReads] at hw
    split_ifs at hnone with hsrc hdst hmulti
    have hrest := hw.2
    rw [← ipSrc, if_neg hsrc, within_bind, value_oursReads, ← ipDst, if_neg hdst,
      within_bind, within_sAddrReads] at hrest
    omega
  · rw [if_neg hnet] at hnone hw
    rw [within_bind, value_crossesReads] at hw
    split_ifs at hnone with hout hin
    -- the first test has failed, so the second one is made, and starts with the destination
    have hrest := hw.2
    rw [← ipSrc, ← ipDst, if_neg hout, within_bind] at hrest
    have hfirst := ((within_and _ _).mp hrest.1).1
    rw [within_bind, within_sAddrReads] at hfirst
    omega

/-- `assign_addr_pair` reads the two addresses, and the ports behind the header. -/
theorem within_assignAddrPairReads (flip : Bool) :
    Within (memory packet) n (assignAddrPairReads k flip) ↔ k + 20 ≤ n ∧
      (usesPorts (packet.drop k) = true → k + 4 * ipHl (packet.drop k) + 4 ≤ n) := by
  have hports : Within (memory packet) n (portsReads k) ↔ k + 9 < n ∧
      (usesPorts (packet.drop k) = true → k < n ∧ k + 4 * ipHl (packet.drop k) + 4 ≤ n) := by
    simp only [portsReads, ↓within_bind, within_cell, ↓within_ite, value_cell, within_ntohsReads,
      within_pure, and_true, ← usesPorts_drop, implies_true, ← ipHl_drop]
    constructor
    · rintro ⟨hp, hu⟩
      exact ⟨hp, fun h => by have := hu h; omega⟩
    · rintro ⟨hp, hu⟩
      exact ⟨hp, fun h => by have := hu h; omega⟩
  simp only [assignAddrPairReads, ↓within_bind, hports, within_sAddrReads, ↓within_ite, within_pure,
    implies_true, and_true]
  constructor
  · rintro ⟨⟨_, hu⟩, _, hdst⟩
    exact ⟨by omega, fun h => (hu h).2⟩
  · rintro ⟨hdst, hu⟩
    exact ⟨⟨by omega, fun h => ⟨by omega, hu h⟩⟩, by omega, by omega⟩

/-- What the part behind the IP header at `k` needs of `n` captured bytes. -/
def IpFits (c : Config) (e : PacketEnv) (hwDir : Int) (packet : List UInt8) (k n : Nat) : Prop :=
  if blocked c.options (ipP (packet.drop k)) e.i e.wild then k + 10 ≤ n
  else k + 20 ≤ n ∧ ((orient c (packet.drop k) hwDir).isSome → usesPorts (packet.drop k) = true →
    k + 4 * ipHl (packet.drop k) + 4 ≤ n)

theorem within_flowReads (c : Config) (hwDir : Int) :
    Within (memory packet) n (flowReads c k hwDir) ↔ k + 20 ≤ n ∧
      ((orient c (packet.drop k) hwDir).isSome → usesPorts (packet.drop k) = true →
        k + 4 * ipHl (packet.drop k) + 4 ≤ n) := by
  rw [flowReads, within_bind, value_orientReads]
  cases ho : orient c (packet.drop k) hwDir with
  | none =>
    constructor
    · rintro ⟨hw, _⟩
      exact ⟨bound_of_orient_none ho hw, fun h => by cases h⟩
    · rintro ⟨h, _⟩
      exact ⟨within_orientReads h c hwDir, trivial⟩
  | some p =>
    obtain ⟨flip, direction⟩ := p
    rw [within_bind, within_assignAddrPairReads, within_bind, within_cell]
    constructor
    · rintro ⟨_, ⟨h, hu⟩, _⟩
      exact ⟨h, fun _ => hu⟩
    · rintro ⟨h, hu⟩
      refine ⟨within_orientReads h c hwDir, ⟨h, hu rfl⟩, by omega, ?_⟩
      split
      next => trivial
      next => trivial

theorem within_accountReads (h : k + 20 ≤ n) (f : Option Flow) :
    Within (memory packet) n (accountReads k f) := by
  cases f with
  | none => trivial
  | some f =>
    simp only [accountReads, ↓within_bind, within_ntohsReads, within_sAddrReads, within_pure,
      and_true]
    omega

/-- `handle_ip_packet` stays inside `n` bytes exactly if they suffice. -/
theorem within_handleIpReads (c : Config) (e : PacketEnv) (hwDir : Int) :
    Within (memory packet) n (handleIpReads c e k hwDir) ↔ IpFits c e hwDir packet k n := by
  rw [handleIpReads, within_bind, value_acceptedReads, acceptedReads, within_bind, within_ite,
    value_blockedReads, acceptedFlow, IpFits]
  by_cases hb : blocked c.options (ipP (packet.drop k)) e.i e.wild = true
  · simp only [hb, if_true, true_implies, not_true, false_implies, and_true, within_pure,
      accountReads]
    constructor
    · intro h
      have := bound_of_blocked hb h
      omega
    · intro h
      exact within_blockedReads (by omega) c.options e.i e.wild
  · have hpass : blocked c.options (ipP (packet.drop k)) e.i e.wild = false := by simpa using hb
    simp only [hpass, Bool.false_eq_true, if_false, false_implies, not_false_iff, true_implies,
      true_and, within_flowReads]
    constructor
    · rintro ⟨⟨_, h⟩, _⟩
      exact h
    · intro h
      exact ⟨⟨within_blockedReads (by omega) c.options e.i e.wild, h⟩,
        within_accountReads h.1 _⟩

end Ip

/-! ## The link layer -/

section Link

variable {packet : List UInt8} {n : Nat}

/-- What an LLC header needs: the two SAPs, then the control byte, then the rest. -/
def LlcFits (packet : List UInt8) (llc n : Nat) : Prop :=
  llc + 2 ≤ n ∧ (byteAt packet (llc + 1) = 0xaa → byteAt packet llc = 0xaa →
    llc + 3 ≤ n ∧ (byteAt packet (llc + 2) = 0x03 → llc + 8 ≤ n))

/-- What the link-layer handlers need. -/
def LinkFits (packet : List UInt8) (n : Nat) : LinkType → Prop
  | .ethernet => 14 ≤ n ∧ (tagged packet = true → 18 ≤ n)
  | .pflog => 1 ≤ n
  | .raw => True
  | .null => True
  | .radiotap => 4 ≤ n
  | .tokenRing => 14 ≤ n ∧ (sourceRouted packet = true → 16 ≤ n) ∧
      (isLlc packet = true → LlcFits packet (llcAt packet) n)
  | .ppp => True
  | .cooked => 2 ≤ n

theorem within_handleEthPacket (hw : HwAddr) :
    Within (memory packet) n (handleEthPacket hw) ↔
      14 ≤ n ∧ (tagged packet = true → 18 ≤ n) := by
  have hpayload : ∀ etherType payload, 14 ≤ n →
      Within (memory packet) n (ethPayloadReads hw etherType payload) := by
    intro etherType payload h
    have h6 : 6 + 6 ≤ n := by omega
    have h0 : 0 + 6 ≤ n := by omega
    simp only [ethPayloadReads, ↓within_ite, ↓within_bind, within_and, within_matchesReads,
      within_pure, h6, h0, implies_true, and_self]
  simp only [handleEthPacket, ↓within_bind, within_ntohsReads, value_ntohsReads, ↓within_ite, tagged,
    decide_eq_true_eq]
  constructor
  · rintro ⟨h, htag, _⟩
    exact ⟨h, fun ht => (htag ht).1⟩
  · rintro ⟨h, htag⟩
    exact ⟨h, fun ht => ⟨htag ht, hpayload _ _ h⟩, fun _ => hpayload _ _ h⟩

theorem within_handleLlcPacket (llc : Nat) (dir : Int) :
    Within (memory packet) n (handleLlcPacket llc dir) ↔ LlcFits packet llc n := by
  simp only [handleLlcPacket, snapReads, ↓within_bind, within_and, value_and, ↓value_bind, value_cell,
    value_pure, within_cell, within_pure, ↓within_ite, within_cells, within_ntohsReads, memory_eq,
    LlcFits, implies_true, and_true, Bool.and_eq_true, beq_iff_eq]
  constructor
  · rintro ⟨⟨hssap, hdsap⟩, hrest⟩
    refine ⟨by omega, fun h1 h0 => ⟨?_, fun h2 => ?_⟩⟩
    · have := (hdsap h1).2 h0
      omega
    · have := hrest ⟨h1, h0, h2⟩
      omega
  · rintro ⟨h, hsnap⟩
    refine ⟨⟨by omega, fun h1 => ⟨by omega, fun h0 => ?_⟩⟩, ?_⟩
    · have := (hsnap h1 h0).1
      omega
    · rintro ⟨h1, h0, h2⟩
      have := (hsnap h1 h0).2 h2
      omega

theorem within_handleTokenringPacket (hw : HwAddr) :
    Within (memory packet) n (handleTokenringPacket hw) ↔
      14 ≤ n ∧ (sourceRouted packet = true → 16 ≤ n) ∧
        (isLlc packet = true → LlcFits packet (llcAt packet) n) := by
  have hrif : Within (memory packet) n rifReads ↔
      8 < n ∧ (sourceRouted packet = true → 16 ≤ n) := by
    simp only [rifReads, ↓within_bind, within_cell, value_cell, ↓within_ite, within_ntohsReads,
      within_pure, implies_true, and_true, sourceRouted, memory_eq, decide_eq_true_eq]
  have hdir : Within (memory packet) n (tokenDirReads hw) ↔ 14 ≤ n := by
    simp only [tokenDirReads, ↓within_bind, within_matchesReads, ↓within_ite, within_pure,
      implies_true, and_true, true_and]
    constructor
    · intro h
      exact h.1
    · intro h
      exact ⟨h, fun _ => ⟨by omega, fun _ => by omega⟩⟩
  have hvalue : 14 + rifReads.value (memory packet) = llcAt packet := by
    simp only [rifReads, ↓value_bind, ↓value_ite, value_cell, value_ntohsReads, value_pure, llcAt,
      sourceRouted, memory_eq, decide_eq_true_eq]
  simp only [handleTokenringPacket, ↓within_bind, hrif, hdir, within_cell, ↓within_ite, hvalue,
    within_handleLlcPacket, within_pure, implies_true, and_true, value_cell, isLlc, memory_eq,
    decide_eq_true_eq]
  constructor
  · rintro ⟨⟨_, hrouted⟩, h, _, hllc⟩
    exact ⟨h, hrouted, hllc⟩
  · rintro ⟨h, hrouted, hllc⟩
    exact ⟨⟨by omega, hrouted⟩, h, by omega, hllc⟩

/-- The one handler that looks at `caplen`. -/
theorem within_handlePppPacket : Within (memory packet) n (handlePppPacket n) := by
  simp only [handlePppPacket, ↓within_ite, ↓within_bind, within_cell, within_ntohsReads, within_pure,
    implies_true, and_true, true_and]
  intro h2
  refine ⟨by omega, fun _ => ?_⟩
  intro h4
  omega

/-- The handler of a link layer stays inside `n` bytes exactly if they suffice. -/
theorem within_packetHandler (hw : HwAddr) (link : LinkType) :
    Within (memory packet) n (packetHandler hw n link) ↔ LinkFits packet n link := by
  cases link with
  | ethernet => exact within_handleEthPacket hw
  | pflog =>
    simp only [packetHandler, handlePflogPacket, ↓within_bind, within_cell, within_pure, and_true,
      LinkFits]
    omega
  | raw => exact Iff.rfl
  | null => exact Iff.rfl
  | radiotap =>
    simp only [packetHandler, handleRadiotapPacket, ↓within_bind, within_cells, within_pure, and_true,
      LinkFits]
    omega
  | tokenRing => exact within_handleTokenringPacket hw
  | ppp => exact ⟨fun _ => trivial, fun _ => within_handlePppPacket⟩
  | cooked =>
    simp only [packetHandler, handleCookedPacket, ↓within_bind, within_ntohsReads, within_pure,
      and_true, LinkFits]

end Link

/-! ## The whole frame -/

/-- The captured bytes suffice: for the link layer's header, and for the header
that is taken to be an IP header, if the frame is handed on. -/
def Fits (c : Config) (hw : HwAddr) (e : PacketEnv) (link : LinkType) (frame : List UInt8) : Prop :=
  LinkFits frame (captured frame).length link ∧
    ∀ p ∈ payloadOf hw (captured frame).length frame link,
      IpFits c e p.2 frame p.1 (captured frame).length

/-- **A frame is read inside its captured bytes exactly if they suffice for the
headers on its path.** -/
theorem frame_checked_iff (c : Config) (hw : HwAddr) (e : PacketEnv) (link : LinkType)
    (frame : List UInt8) :
    ((frameReads c hw e link (captured frame).length).checked (captured frame)).isSome ↔
      Fits c hw e link frame := by
  rw [checked_isSome_iff (captured_memory frame), frameReads, within_bind, within_packetHandler,
    value_packetHandler, Fits]
  refine and_congr_right fun _ => ?_
  cases payloadOf hw (captured frame).length frame link with
  | none => simp
  | some p =>
    obtain ⟨k, dir⟩ := p
    simp [within_handleIpReads]

/-- An IP header with 40 bytes of options, from 10.0.0.1 to 172.16.0.2. -/
def optionsHeader : List UInt8 :=
  [0x4f, 0, 0, 100, 0, 0, 0, 0, 64, 6, 0, 0, 10, 0, 0, 1, 172, 16, 0, 2] ++ List.replicate 40 1

/-- TCP from port 1000 to port 80 behind it, 114 bytes with the Ethernet header. -/
def optionsFrame : List UInt8 :=
  [2, 0, 0, 0, 0, 1, 2, 0, 0, 0, 0, 2, 0x08, 0x00] ++ optionsHeader
    ++ [0x03, 0xe8, 0, 80] ++ List.replicate 36 0

/-- The interface the frame leaves through. -/
def plainHw : HwAddr := ⟨true, [2, 0, 0, 0, 0, 2]⟩

def plainPacketEnv : PacketEnv :=
  { tick := plainEnv none, t := 12, created := 12, i := 0, wild := false }

/-- The ports are at 74, and 72 bytes are captured. -/
theorem frame_checked_fails :
    optionsFrame.length = 114 ∧ (captured optionsFrame).length = 72
      ∧ ((frameReads plainConfig plainHw plainPacketEnv .ethernet
          (captured optionsFrame).length).checked (captured optionsFrame)).isSome = false := by
  decide

end Dotqoo.Link
