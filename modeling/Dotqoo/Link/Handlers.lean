import Dotqoo.Capture.Tick
import Dotqoo.Lib.Reads

/-!
# The link-layer handlers

The handlers `packet_init` can install, down to the call of `handle_ip_packet`,
and the loads `handle_ip_packet` makes on its way to the accounting. Everything
is written as a program of reads, in the order of the source: `packet` is the
memory from the captured frame on, a pointer into it is an offset, and a field
is read when the source reads it. `&&` reads its right side only if it has to;
`memcmp` reads all the bytes it is told to compare.

`value` of these programs is what the handlers compute, and for the part behind
the IP header it is what `acceptedFlow` says (`value_acceptedReads`); `Within`
is whether they stay inside the capture.

Mirroring notes:
- `DLT_LOOP` and `DLT_NULL` install one handler, `null` here.
- `pfloghdr.length`, like `radiotap_header.it_len`, is taken from the frame. The
  latter is not converted, so it is read as a little-endian number.
- `sizeof(struct llc)` is 8.
-/

namespace Dotqoo.Link

open Dotqoo.Capture Dotqoo.Lib Dotqoo.Table Dotqoo.Lib.Reads

/-- `CAPTURE_LENGTH`. -/
def captureLength : Nat := 72

/-- The link layers `packet_init` has a handler for. -/
inductive LinkType where
  | ethernet
  | pflog
  | raw
  | null
  | radiotap
  | tokenRing
  | ppp
  | cooked
  deriving DecidableEq, Repr

/-- `have_hw_addr` and `if_hw_addr`. -/
structure HwAddr where
  haveHwAddr : Bool
  ifHwAddr : List UInt8

/-- The six bytes of `0xFF`. -/
def broadcastAddr : List UInt8 := List.replicate 6 0xff

/-- The memory from `packet` on; what is not known reads as 0. -/
def memory (packet : List UInt8) (off : Nat) : UInt8 := packet.getD off 0

/-! ## Fields -/

/-- `ntohs` of the field at `off`. -/
def ntohsReads (off : Nat) : Reads UInt8 UInt16 := do
  let hi ← cell off
  let lo ← cell (off + 1)
  pure (UInt16.ofNat (256 * hi.toNat + lo.toNat))

/-- The `s_addr` at `off`. -/
def sAddrReads (off : Nat) : Reads UInt8 UInt32 := do
  let octets ← cells off 4
  pure (UInt32.ofNat (ofLe octets))

/-- `memcmp(packet + off, addr, 6) == 0`. -/
def matchesReads (off : Nat) (addr : List UInt8) : Reads UInt8 Bool := do
  let bytes ← cells off 6
  pure (bytes == addr)

/-! ## `handle_ip_packet` -/

/-- The block list scan from the current index on. -/
def blockScanReads (k : Nat) : List Int → Reads UInt8 (Option Bool)
  | [] => pure none
  | b :: rest =>
    if b = -1 then pure (some false)
    else do
      let p ← cell (k + 9)
      if (p.toNat : Int) = b then pure (some true) else blockScanReads k rest

/-- A scan that leaves the array compares `ip_p` with what lies there. (If nothing
there is equal to it the packet goes on, to reads behind `ip_p`.) -/
def wildReads (k : Nat) (wild : Bool) : Reads UInt8 Bool :=
  if wild then do
    let _ ← cell (k + 9)
    pure true
  else pure false

def blockedReads (o : Options) (k : Nat) (i : Int) (wild : Bool) : Reads UInt8 Bool :=
  if 0 ≤ i then do
    match ← blockScanReads k (o.blockProtocols.drop i.toNat) with
    | some verdict => pure verdict
    | none => wildReads k wild
  else wildReads k wild

/-- The ports, if the protocol uses them. -/
def portsReads (k : Nat) : Reads UInt8 (UInt16 × UInt16) := do
  let p ← cell (k + 9)
  if p == 6 || p == 17 then do
    let vhl ← cell k
    let sport ← ntohsReads (k + (vhl &&& 0x0f).toNat * 4)
    let dport ← ntohsReads (k + (vhl &&& 0x0f).toNat * 4 + 2)
    pure (sport, dport)
  else pure (0, 0)

/-- `assign_addr_pair`. -/
def assignAddrPairReads (k : Nat) (flip : Bool) : Reads UInt8 AddrPair := do
  let ports ← portsReads k
  let src ← sAddrReads (k + 12)
  let dst ← sAddrReads (k + 16)
  if flip = false then
    pure { protocol := 0, srcPort := ports.1, src := src, dstPort := ports.2, dst := dst }
  else
    pure { protocol := 0, srcPort := ports.2, src := dst, dstPort := ports.1, dst := src }

/-- `have_ip_addr && ip_addr_match(addr)`. -/
def oursReads (c : Config) (off : Nat) : Reads UInt8 Bool :=
  (pure c.haveIpAddr : Reads UInt8 Bool).and do
    let addr ← sAddrReads off
    pure (ipAddrMatch c addr)

/-- `in_filter_net(a) && !in_filter_net(b)`. -/
def crossesReads (o : Options) (a b : Nat) : Reads UInt8 Bool :=
  Reads.and
    (do
      let addr ← sAddrReads a
      pure (inFilterNet o addr))
    (do
      let addr ← sAddrReads b
      pure (!inFilterNet o addr))

/-- The cascade that orients the packet. -/
def orientReads (c : Config) (k : Nat) (hwDir : Int) : Reads UInt8 (Option (Bool × Direction)) :=
  if c.options.netfilter = false then
    if hwDir = 1 then pure (some (false, .outgoing))
    else if hwDir = 0 then pure (some (true, .incoming))
    else do
      if ← oursReads c (k + 12) then pure (some (false, .outgoing))
      else if ← oursReads c (k + 16) then pure (some (true, .incoming))
      else do
        let dst ← sAddrReads (k + 16)
        if inMulticast dst then pure (some (true, .incoming))
        else if c.options.promiscuousButChoosy then pure none
        else do
          let src ← sAddrReads (k + 12)
          if src < dst then pure (some (true, .incoming)) else pure (some (false, .incoming))
  else do
    if ← crossesReads c.options (k + 12) (k + 16) then pure (some (false, .outgoing))
    else if ← crossesReads c.options (k + 16) (k + 12) then pure (some (true, .incoming))
    else pure none

/-- From the direction to the key of the flow. -/
def flowReads (c : Config) (k : Nat) (hwDir : Int) : Reads UInt8 (Option Flow) := do
  match ← orientReads c k hwDir with
  | none => pure none
  | some (flip, direction) =>
    let ap ← assignAddrPairReads k flip
    let p ← cell (k + 9)
    match portFilter c { ap with protocol := p.toUInt16 } with
    | none => pure none
    | some key => pure (some { key, direction })

/-- `handle_ip_packet` up to the history table. -/
def acceptedReads (c : Config) (e : PacketEnv) (k : Nat) (hwDir : Int) :
    Reads UInt8 (Option Flow) := do
  if ← blockedReads c.options k e.i e.wild then pure none else flowReads c k hwDir

/-- The accounting reads the length, and the source address once more. -/
def accountReads (k : Nat) : Option Flow → Reads UInt8 Unit
  | none => pure ()
  | some _ => do
    let _ ← ntohsReads (k + 2)
    let _ ← sAddrReads (k + 12)
    pure ()

def handleIpReads (c : Config) (e : PacketEnv) (k : Nat) (hwDir : Int) : Reads UInt8 Unit := do
  let f ← acceptedReads c e k hwDir
  accountReads k f

/-! ## The handlers

Each says where `handle_ip_packet` is called and with which `hw_dir`. -/

/-- Where the IP header is taken to be, and the direction from the link layer. -/
abbrev Payload := Option (Nat × Int)

def ethertypeIp : UInt16 := 0x0800

def ethertypeIpv6 : UInt16 := 0x86dd

def ethertype8021Q : UInt16 := 0x8100

def ethertypeAtalk : UInt16 := 0x809b

/-- The part of `handle_eth_packet` behind the tag. -/
def ethPayloadReads (hw : HwAddr) (etherType : UInt16) (payload : Nat) : Reads UInt8 Payload :=
  if etherType = ethertypeIp then do
    if ← (pure hw.haveHwAddr : Reads UInt8 Bool).and (matchesReads 6 hw.ifHwAddr) then
      pure (some (payload, 1))
    else if ← (pure hw.haveHwAddr : Reads UInt8 Bool).and (matchesReads 0 hw.ifHwAddr) then
      pure (some (payload, 0))
    else if ← matchesReads 0 broadcastAddr then pure (some (payload, 0))
    else pure (some (payload, -1))
  else pure none

/-- `handle_eth_packet`. -/
def handleEthPacket (hw : HwAddr) : Reads UInt8 Payload := do
  let etherType ← ntohsReads 12
  if etherType = ethertype8021Q then do
    let etherType ← ntohsReads 16
    ethPayloadReads hw etherType 18
  else ethPayloadReads hw etherType 14

/-- `handle_pflog_packet`; `BPF_WORDALIGN` rounds up to a multiple of 4. -/
def handlePflogPacket : Reads UInt8 Payload := do
  let length ← cell 0
  pure (some ((length.toNat + 3) / 4 * 4, -1))

/-- `handle_raw_packet`. -/
def handleRawPacket : Reads UInt8 Payload := pure (some (0, -1))

/-- `handle_null_packet`. -/
def handleNullPacket : Reads UInt8 Payload := pure (some (4, -1))

/-- `handle_radiotap_packet`. -/
def handleRadiotapPacket : Reads UInt8 Payload := do
  let itLen ← cells 2 2
  pure (some (ofLe itLen + 34, -1))

/-- `LLCSAP_SNAP`, `LLCSAP_SNAP` and `LLC_UI`, as the source tests them. -/
def snapReads (llc : Nat) : Reads UInt8 Bool :=
  Reads.and
    (do
      let ssap ← cell (llc + 1)
      pure (ssap == 0xaa))
    (Reads.and
      (do
        let dsap ← cell llc
        pure (dsap == 0xaa))
      (do
        let llcui ← cell (llc + 2)
        pure (llcui == 0x03)))

/-- Does the LLC header of an organisation and a type announce IP? `OUI_ENCAP_ETHER`
and `OUI_CISCO_90` do whatever the type, `OUI_APPLETALK` with its own. -/
def llcAccepts (orgcode : Nat) (et : UInt16) : Bool :=
  if orgcode = 0x000000 || orgcode = 0x0000f8 then true
  else if orgcode = 0x080007 then et = ethertypeAtalk
  else false

/-- `handle_llc_packet`. -/
def handleLlcPacket (llc : Nat) (dir : Int) : Reads UInt8 Payload := do
  if ← snapReads llc then do
    let org ← cells (llc + 3) 3
    let et ← ntohsReads (llc + 6)
    if llcAccepts (ofLe org.reverse) et then pure (some (llc + 8, dir)) else pure none
  else pure none

/-- `IS_SOURCE_ROUTED` and `RIF_LENGTH`: the bytes the routing field takes. -/
def rifReads : Reads UInt8 Nat := do
  let shost ← cell 8
  if shost &&& 0x80 ≠ 0 then do
    let rcf ← ntohsReads 14
    pure ((rcf &&& 0x1f00) >>> 8).toNat
  else pure 0

/-- The direction `handle_tokenring_packet` finds. -/
def tokenDirReads (hw : HwAddr) : Reads UInt8 Int := do
  if ← matchesReads 8 hw.ifHwAddr then pure 1
  else if ← matchesReads 2 hw.ifHwAddr then pure 0
  else if ← matchesReads 2 broadcastAddr then pure 0
  else pure (-1)

/-- `handle_tokenring_packet`. -/
def handleTokenringPacket (hw : HwAddr) : Reads UInt8 Payload := do
  let rif ← rifReads
  let dir ← tokenDirReads hw
  let fc ← cell 1
  if (fc &&& 0xC0) >>> 6 = 1 then handleLlcPacket (14 + rif) dir else pure none

/-- `PPP_IP`, `ETHERTYPE_IP` or `ETHERTYPE_IPV6`. -/
def pppAccepts (proto : UInt16) : Bool :=
  proto = 0x0021 || proto = ethertypeIp || proto = ethertypeIpv6

/-- `handle_ppp_packet`. -/
def handlePppPacket (caplen : Nat) : Reads UInt8 Payload :=
  if caplen < 2 then pure none
  else do
    let address ← cell 0
    if address = 0xff then
      if caplen < 4 then pure none
      else do
        let proto ← ntohsReads 2
        if pppAccepts proto then pure (some (4, -1)) else pure none
    else pure none

/-- The `switch` of `handle_cooked_packet`. -/
def sllDirection (pkttype : UInt16) : Int :=
  if pkttype = 0 then 0 else if pkttype = 4 then 1 else -1

/-- `handle_cooked_packet`. -/
def handleCookedPacket : Reads UInt8 Payload := do
  let pkttype ← ntohsReads 0
  pure (some (16, sllDirection pkttype))

/-- The handler `packet_init` installs for a link layer. -/
def packetHandler (hw : HwAddr) (caplen : Nat) : LinkType → Reads UInt8 Payload
  | .ethernet => handleEthPacket hw
  | .pflog => handlePflogPacket
  | .raw => handleRawPacket
  | .null => handleNullPacket
  | .radiotap => handleRadiotapPacket
  | .tokenRing => handleTokenringPacket hw
  | .ppp => handlePppPacket caplen
  | .cooked => handleCookedPacket

/-- All a frame makes the program read. -/
def frameReads (c : Config) (hw : HwAddr) (e : PacketEnv) (link : LinkType) (caplen : Nat) :
    Reads UInt8 Unit := do
  match ← packetHandler hw caplen link with
  | none => pure ()
  | some (k, dir) => handleIpReads c e k dir

/-- What a frame does to the box. -/
def handlePacket (pl : Platform) (hw : HwAddr) (link : LinkType) (caplen : Nat) (e : PacketEnv)
    (packet : List UInt8) (b : Box) : Box :=
  match (packetHandler hw caplen link).value (memory packet) with
  | none => b
  | some (k, dir) => handleIpPacket pl e (packet.drop k) dir b

/-! ## What the reads compute -/

theorem memory_eq (packet : List UInt8) (off : Nat) : memory packet off = byteAt packet off := rfl

theorem byteAt_drop (packet : List UInt8) (k off : Nat) :
    byteAt (packet.drop k) off = byteAt packet (k + off) := by
  unfold byteAt
  rw [List.getD_eq_getElem?_getD, List.getD_eq_getElem?_getD, List.getElem?_drop]

theorem ntohsAt_drop (packet : List UInt8) (k off : Nat) :
    ntohsAt (packet.drop k) off = ntohsAt packet (k + off) := by
  unfold ntohsAt
  rw [byteAt_drop, byteAt_drop, Nat.add_assoc]

theorem sAddrAt_drop (packet : List UInt8) (k off : Nat) :
    sAddrAt (packet.drop k) off = sAddrAt packet (k + off) := by
  unfold sAddrAt
  simp only [byteAt_drop, Nat.add_assoc]

section Values

variable (packet : List UInt8)

@[simp] theorem value_ntohsReads (off : Nat) :
    (ntohsReads off).value (memory packet) = ntohsAt packet off := by
  simp [ntohsReads, ntohsAt, memory_eq]

@[simp] theorem value_sAddrReads (off : Nat) :
    (sAddrReads off).value (memory packet) = sAddrAt packet off := by
  simp [sAddrReads, sAddrAt, memory_eq, List.range'_succ]

/-- The `ip_p` of the header at `k`. -/
theorem ipP_drop (k : Nat) : ipP (packet.drop k) = memory packet (k + 9) :=
  byteAt_drop packet k 9

/-- The length field of the header at `k`. -/
theorem ipHl_drop (k : Nat) : ipHl (packet.drop k) = (memory packet k &&& 0x0f).toNat := by
  rw [ipHl, byteAt_drop]
  rfl

theorem usesPorts_drop (k : Nat) : usesPorts (packet.drop k)
    = (memory packet (k + 9) == 6 || memory packet (k + 9) == 17) := by
  rw [usesPorts, ipP_drop]

theorem value_blockScanReads (k : Nat) : ∀ entries : List Int,
    (blockScanReads k entries).value (memory packet) = blockScan entries (ipP (packet.drop k))
  | [] => rfl
  | b :: rest => by
    simp only [blockScanReads, blockScan, ↓value_ite, ↓value_bind, value_cell, value_pure,
      value_blockScanReads k rest, ipP_drop]

theorem value_blockedReads (o : Options) (k : Nat) (i : Int) (wild : Bool) :
    (blockedReads o k i wild).value (memory packet)
      = blocked o (ipP (packet.drop k)) i wild := by
  have hwild : (wildReads k wild).value (memory packet) = wild := by
    cases wild <;> rfl
  simp only [blockedReads, blocked, ↓value_ite, ↓value_bind, value_blockScanReads, hwild]
  cases blockScan (o.blockProtocols.drop i.toNat) (ipP (packet.drop k)) with
  | none => rw [Option.getD_none, hwild]
  | some verdict => rfl

theorem value_portsReads (k : Nat) : (portsReads k).value (memory packet)
    = (srcPortOf (packet.drop k), dstPortOf (packet.drop k)) := by
  simp only [portsReads, ↓value_bind, value_cell, ↓value_ite, value_ntohsReads, value_pure,
    srcPortOf, dstPortOf, usesPorts_drop, thSport, thDport, ipHl_drop, ntohsAt_drop, Nat.add_assoc]
  split
  next => rfl
  next => rfl

theorem value_assignAddrPairReads (k : Nat) (flip : Bool) :
    (assignAddrPairReads k flip).value (memory packet)
      = assignAddrPair (packet.drop k) flip := by
  simp only [assignAddrPairReads, ↓value_bind, value_portsReads, value_sAddrReads, ↓value_ite,
    value_pure, assignAddrPair, ipSrc, ipDst, sAddrAt_drop]

theorem value_orientReads (c : Config) (k : Nat) (hwDir : Int) :
    (orientReads c k hwDir).value (memory packet) = orient c (packet.drop k) hwDir := by
  simp only [orientReads, orient, oursReads, crossesReads, ↓value_bind, value_and, value_sAddrReads,
    ↓value_ite, value_pure, ipSrc, ipDst, sAddrAt_drop]

theorem value_flowReads (c : Config) (k : Nat) (hwDir : Int) :
    (flowReads c k hwDir).value (memory packet) = flowOf c (packet.drop k) hwDir := by
  simp only [flowReads, flowOf, ↓value_bind, value_orientReads]
  cases orient c (packet.drop k) hwDir with
  | none => rfl
  | some p =>
    obtain ⟨flip, direction⟩ := p
    simp only [↓value_bind, value_assignAddrPairReads, value_cell, orientedPair, ipP_drop]
    cases portFilter c { assignAddrPair (packet.drop k) flip with
        protocol := (memory packet (k + 9)).toUInt16 } with
    | none => rfl
    | some key => rfl

/-- The reads behind the IP header compute what the capture path accepts. -/
theorem value_acceptedReads (c : Config) (e : PacketEnv) (k : Nat) (hwDir : Int) :
    (acceptedReads c e k hwDir).value (memory packet)
      = acceptedFlow c e (packet.drop k) hwDir := by
  simp only [acceptedReads, acceptedFlow, ↓value_bind, value_blockedReads, ↓value_ite, value_pure,
    value_flowReads]

end Values

/-! ## Where the header is taken to be

`payloadOf` says of each link layer, field by field, what its handler computes. -/

/-- The six bytes at an offset. -/
def macAt (packet : List UInt8) (off : Nat) : List UInt8 := (List.range' off 6).map (memory packet)

/-- Does the frame carry a VLAN tag? -/
def tagged (packet : List UInt8) : Bool := ntohsAt packet 12 = ethertype8021Q

/-- The payload of an Ethernet frame; its type stands right before it. -/
def ethPayload (packet : List UInt8) : Nat := if tagged packet then 18 else 14

def ethDirection (hw : HwAddr) (packet : List UInt8) : Int :=
  if hw.haveHwAddr && macAt packet 6 == hw.ifHwAddr then 1
  else if hw.haveHwAddr && macAt packet 0 == hw.ifHwAddr then 0
  else if macAt packet 0 == broadcastAddr then 0
  else -1

def tokenDirection (hw : HwAddr) (packet : List UInt8) : Int :=
  if macAt packet 8 == hw.ifHwAddr then 1
  else if macAt packet 2 == hw.ifHwAddr then 0
  else if macAt packet 2 == broadcastAddr then 0
  else -1

/-- `IS_SOURCE_ROUTED`. -/
def sourceRouted (packet : List UInt8) : Bool := byteAt packet 8 &&& 0x80 ≠ 0

/-- The LLC header of a token ring frame. -/
def llcAt (packet : List UInt8) : Nat :=
  14 + if sourceRouted packet then ((ntohsAt packet 14 &&& 0x1f00) >>> 8).toNat else 0

/-- `FRAME_TYPE` is `TOKEN_FC_LLC`. -/
def isLlc (packet : List UInt8) : Bool := (byteAt packet 1 &&& 0xC0) >>> 6 = 1

def isSnap (packet : List UInt8) (llc : Nat) : Bool :=
  byteAt packet (llc + 1) == 0xaa && (byteAt packet llc == 0xaa && byteAt packet (llc + 2) == 0x03)

/-- The organisation code of an LLC header. -/
def orgcodeAt (packet : List UInt8) (llc : Nat) : Nat :=
  ofLe [byteAt packet (llc + 5), byteAt packet (llc + 4), byteAt packet (llc + 3)]

/-- `it_len`. -/
def itLenOf (packet : List UInt8) : Nat := ofLe [byteAt packet 2, byteAt packet 3]

def payloadOf (hw : HwAddr) (caplen : Nat) (packet : List UInt8) : LinkType → Payload
  | .ethernet =>
    if ntohsAt packet (ethPayload packet - 2) = ethertypeIp then
      some (ethPayload packet, ethDirection hw packet)
    else none
  | .pflog => some (((byteAt packet 0).toNat + 3) / 4 * 4, -1)
  | .raw => some (0, -1)
  | .null => some (4, -1)
  | .radiotap => some (itLenOf packet + 34, -1)
  | .tokenRing =>
    if isLlc packet && isSnap packet (llcAt packet)
        && llcAccepts (orgcodeAt packet (llcAt packet)) (ntohsAt packet (llcAt packet + 6)) then
      some (llcAt packet + 8, tokenDirection hw packet)
    else none
  | .ppp =>
    if 4 ≤ caplen && byteAt packet 0 = 0xff && pppAccepts (ntohsAt packet 2) then some (4, -1)
    else none
  | .cooked => some (16, sllDirection (ntohsAt packet 0))

section Payloads

variable (packet : List UInt8)

@[simp] theorem value_matchesReads (off : Nat) (addr : List UInt8) :
    (matchesReads off addr).value (memory packet) = (macAt packet off == addr) := by
  simp [matchesReads, macAt]

theorem value_handleEthPacket (hw : HwAddr) (caplen : Nat) :
    (handleEthPacket hw).value (memory packet) = payloadOf hw caplen packet .ethernet := by
  have hpayload : ∀ (etherType : UInt16) (payload : Nat),
      (ethPayloadReads hw etherType payload).value (memory packet)
        = if etherType = ethertypeIp then some (payload, ethDirection hw packet) else none := by
    intro etherType payload
    simp only [ethPayloadReads, ↓value_ite, ↓value_bind, value_and, value_pure, value_matchesReads,
      ethDirection]
    split_ifs
    all_goals rfl
  simp only [handleEthPacket, ↓value_ite, ↓value_bind, value_ntohsReads, hpayload, payloadOf,
    ethPayload, tagged, decide_eq_true_eq]
  split
  next => rfl
  next => rfl

theorem value_snapReads (llc : Nat) :
    (snapReads llc).value (memory packet) = isSnap packet llc := by
  simp [snapReads, isSnap, memory_eq]

theorem value_handleTokenringPacket (hw : HwAddr) (caplen : Nat) :
    (handleTokenringPacket hw).value (memory packet) = payloadOf hw caplen packet .tokenRing := by
  have hrif : 14 + rifReads.value (memory packet) = llcAt packet := by
    simp only [rifReads, ↓value_bind, ↓value_ite, value_cell, value_ntohsReads, value_pure, llcAt,
      sourceRouted, memory_eq, decide_eq_true_eq]
  have hdir : (tokenDirReads hw).value (memory packet) = tokenDirection hw packet := by
    simp only [tokenDirReads, ↓value_bind, ↓value_ite, value_matchesReads, value_pure,
      tokenDirection]
  have horg : ∀ llc, ofLe ((cells (llc + 3) 3).value (memory packet)).reverse
      = orgcodeAt packet llc := by
    intro llc
    simp [orgcodeAt, memory_eq, List.range'_succ]
  simp only [handleTokenringPacket, handleLlcPacket, ↓value_bind, ↓value_ite, hrif, hdir,
    value_cell, value_snapReads, horg, value_ntohsReads, value_pure, payloadOf, isLlc, memory_eq]
  split_ifs
  all_goals simp_all

theorem value_handlePppPacket (hw : HwAddr) (caplen : Nat) :
    (handlePppPacket caplen).value (memory packet) = payloadOf hw caplen packet .ppp := by
  simp only [handlePppPacket, ↓value_bind, ↓value_ite, value_cell, value_ntohsReads, value_pure,
    payloadOf, memory_eq]
  by_cases hlen : 4 ≤ caplen
  · have h2 : ¬ caplen < 2 := by omega
    have h4 : ¬ caplen < 4 := by omega
    rw [if_neg h2, if_neg h4]
    by_cases haddr : byteAt packet 0 = 0xff
    · simp [hlen, haddr]
    · simp [haddr]
  · have h4 : caplen < 4 := by omega
    simp [hlen, h4]

/-- The handlers compute what `payloadOf` says. -/
theorem value_packetHandler (hw : HwAddr) (caplen : Nat) (link : LinkType) :
    (packetHandler hw caplen link).value (memory packet) = payloadOf hw caplen packet link := by
  cases link with
  | ethernet => exact value_handleEthPacket packet hw caplen
  | pflog => rfl
  | raw => rfl
  | null => rfl
  | radiotap => rfl
  | tokenRing => exact value_handleTokenringPacket packet hw caplen
  | ppp => exact value_handlePppPacket packet hw caplen
  | cooked =>
    simp only [packetHandler, handleCookedPacket, ↓value_bind, value_ntohsReads, value_pure,
      payloadOf]

end Payloads

end Dotqoo.Link
