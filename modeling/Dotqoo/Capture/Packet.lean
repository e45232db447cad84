import Dotqoo.Capture.Options
import Dotqoo.Lib.Bytes

/-!
# From an IP header to a flow key

The part of `handle_ip_packet` that depends on the packet and the configuration
alone: the block list scan, the choice of a direction, and the tests on the
oriented pair. `flowOf` is what comes out of it: the `addr_pair` the packet is
accounted under and its direction, or `none` where the source returns early.

Mirroring notes:
- `iptr` is the memory from the IP header on, as bytes. A header field is read
  at its offset; `s_addr` fields keep network order, so on these little-endian
  hosts they are the little-endian reading of the four octets.
- The local `i` of the block list scan is never initialised in the source. Its
  entry value is a parameter here, and so is the verdict of a scan that leaves
  the array and goes on through whatever memory lies there (`wild`).
- `IN_MULTICAST` is applied to `s_addr` as it stands, in network order, exactly
  as the source does.
-/

namespace Dotqoo.Capture

open Dotqoo.Table Dotqoo.Lib

/-- The bytes from the IP header on. -/
abbrev Packet := List UInt8

/-- One byte of a packet. -/
def byteAt (iptr : Packet) (off : Nat) : UInt8 := iptr.getD off 0

/-- `ntohs` of the 16-bit field at `off`. -/
def ntohsAt (iptr : Packet) (off : Nat) : UInt16 :=
  UInt16.ofNat (256 * (byteAt iptr off).toNat + (byteAt iptr (off + 1)).toNat)

/-- The `s_addr` at `off`, in network order. -/
def sAddrAt (iptr : Packet) (off : Nat) : UInt32 :=
  UInt32.ofNat (ofLe [byteAt iptr off, byteAt iptr (off + 1), byteAt iptr (off + 2),
    byteAt iptr (off + 3)])

/-- `IP_HL`. -/
def ipHl (iptr : Packet) : Nat := (byteAt iptr 0 &&& 0x0f).toNat

/-- `ntohs(iptr->ip_len)`. -/
def ipLen (iptr : Packet) : UInt16 := ntohsAt iptr 2

/-- `iptr->ip_p`. -/
def ipP (iptr : Packet) : UInt8 := byteAt iptr 9

/-- `iptr->ip_src.s_addr`. -/
def ipSrc (iptr : Packet) : UInt32 := sAddrAt iptr 12

/-- `iptr->ip_dst.s_addr`. -/
def ipDst (iptr : Packet) : UInt32 := sAddrAt iptr 16

/-- `ntohs(thdr->th_sport)`, the header found through `IP_HL`. -/
def thSport (iptr : Packet) : UInt16 := ntohsAt iptr (ipHl iptr * 4)

/-- `ntohs(thdr->th_dport)`. -/
def thDport (iptr : Packet) : UInt16 := ntohsAt iptr (ipHl iptr * 4 + 2)

/-- `IPPROTO_TCP` or `IPPROTO_UDP`. -/
def usesPorts (iptr : Packet) : Bool := ipP iptr == 6 || ipP iptr == 17

/-- The source port as `assign_addr_pair` sees it: 0 for a protocol without ports. -/
def srcPortOf (iptr : Packet) : UInt16 := if usesPorts iptr then thSport iptr else 0

/-- The destination port as `assign_addr_pair` sees it. -/
def dstPortOf (iptr : Packet) : UInt16 := if usesPorts iptr then thDport iptr else 0

/-- `assign_addr_pair`: the packet's two ends, exchanged if `flip`. The protocol
is set by the caller. -/
def assignAddrPair (iptr : Packet) (flip : Bool) : AddrPair :=
  if flip = false then
    { protocol := 0, srcPort := srcPortOf iptr, src := ipSrc iptr,
      dstPort := dstPortOf iptr, dst := ipDst iptr }
  else
    { protocol := 0, srcPort := dstPortOf iptr, src := ipDst iptr,
      dstPort := srcPortOf iptr, dst := ipSrc iptr }

/-- `in_filter_net`. -/
def inFilterNet (o : Options) (addr : UInt32) : Bool :=
  (addr &&& o.netfiltermask) == o.netfilternet

/-- `ip_addr_match`. -/
def ipAddrMatch (c : Config) (addr : UInt32) : Bool := addr == c.ifIpAddr

/-- The `IN_MULTICAST` macro of `netinet/in.h`. -/
def inMulticast (a : UInt32) : Bool := (a &&& 0xf0000000) == 0xe0000000

/-- The local `direction`: 0 is incoming, 1 is outgoing. -/
inductive Direction where
  | incoming
  | outgoing
  deriving DecidableEq, Repr

/-- The cascade that orients the packet: the `flip` with which it calls
`assign_addr_pair` and the direction, or `none` where the packet is junked. -/
def orient (c : Config) (iptr : Packet) (hwDir : Int) : Option (Bool × Direction) :=
  if c.options.netfilter = false then
    -- the hardware addresses decide, then the interface address
    if hwDir = 1 then some (false, .outgoing)
    else if hwDir = 0 then some (true, .incoming)
    else if c.haveIpAddr && ipAddrMatch c (ipSrc iptr) then some (false, .outgoing)
    else if c.haveIpAddr && ipAddrMatch c (ipDst iptr) then some (true, .incoming)
    -- nothing says which end is ours
    else if inMulticast (ipDst iptr) then some (true, .incoming)
    else if c.options.promiscuousButChoosy then none
    else if ipSrc iptr < ipDst iptr then some (true, .incoming)
    else some (false, .incoming)
  else
    if inFilterNet c.options (ipSrc iptr) && !inFilterNet c.options (ipDst iptr) then
      some (false, .outgoing)
    else if inFilterNet c.options (ipDst iptr) && !inFilterNet c.options (ipSrc iptr) then
      some (true, .incoming)
    -- both ends inside the net, or neither
    else none

/-- The first dynamic port. -/
def dynamicPort : UInt16 := 49152

/-- The tests on the oriented pair: the router's packets are dropped, a dynamic
destination port is set to 0, and *otherwise* the port list is consulted. -/
def portFilter (c : Config) (ap : AddrPair) : Option AddrPair :=
  if ap.src = routerAddr then none
  else if dynamicPort ≤ ap.dstPort then some { ap with dstPort := 0 }
  -- reached with the destination port below the dynamic ones only
  else if inPortList c.portList portListLen ap.srcPort
      || inPortList c.portList portListLen ap.dstPort then none
  else some ap

/-- How a packet is accounted: under which key, and in which direction. -/
structure Flow where
  key : AddrPair
  direction : Direction
  deriving DecidableEq, Repr

/-- `ap` after `assign_addr_pair` and `ap.protocol = iptr->ip_p`. -/
def orientedPair (iptr : Packet) (flip : Bool) : AddrPair :=
  { assignAddrPair iptr flip with protocol := (ipP iptr).toUInt16 }

/-- What `handle_ip_packet` makes of a packet between the block list scan and
the look-up in the history table. -/
def flowOf (c : Config) (iptr : Packet) (hwDir : Int) : Option Flow :=
  match orient c iptr hwDir with
  | none => none
  | some (flip, direction) =>
    match portFilter c (orientedPair iptr flip) with
    | none => none
    | some key => some { key, direction }

/-- The loop of the block list scan over the entries from the current index on;
`none` when it runs off the end of the array. -/
def blockScan : List Int → UInt8 → Option Bool
  | [], _ => none
  | b :: rest, p =>
    if b = -1 then some false
    else if (p.toNat : Int) = b then some true
    else blockScan rest p

/-- Is the packet dropped by the scan that enters at index `i`? -/
def blocked (o : Options) (p : UInt8) (i : Int) (wild : Bool) : Bool :=
  if 0 ≤ i then (blockScan (o.blockProtocols.drop i.toNat) p).getD wild else wild

/-! ## The key of a flow -/

/-- The port filter keeps the addresses and the source port. -/
theorem portFilter_some {c : Config} {ap key : AddrPair} (h : portFilter c ap = some key) :
    key.src = ap.src ∧ key.dst = ap.dst ∧ key.srcPort = ap.srcPort
      ∧ key.protocol = ap.protocol := by
  unfold portFilter at h
  split at h
  next => exact absurd h (by simp)
  next =>
    split at h
    next => obtain rfl := Option.some.inj h; exact ⟨rfl, rfl, rfl, rfl⟩
    next =>
      split at h
      next => exact absurd h (by simp)
      next => obtain rfl := Option.some.inj h; exact ⟨rfl, rfl, rfl, rfl⟩

/-- The pairs that are dropped: the router's, and those with a listed port whose
destination port is not a dynamic one. -/
def DropsPair (c : Config) (ap : AddrPair) : Prop :=
  ap.src = routerAddr ∨
    (ap.dstPort < dynamicPort ∧ (inPortList c.portList portListLen ap.srcPort = true
      ∨ inPortList c.portList portListLen ap.dstPort = true))

theorem portFilter_eq_none_iff {c : Config} {ap : AddrPair} :
    portFilter c ap = none ↔ DropsPair c ap := by
  unfold portFilter DropsPair
  by_cases hrouter : ap.src = routerAddr
  · rw [if_pos hrouter]
    exact ⟨fun _ => Or.inl hrouter, fun _ => rfl⟩
  · rw [if_neg hrouter]
    by_cases hdyn : dynamicPort ≤ ap.dstPort
    · rw [if_pos hdyn]
      refine ⟨fun h => absurd h (by simp), fun h => ?_⟩
      rcases h with h | ⟨hlt, -⟩
      · exact absurd h hrouter
      · exact absurd hlt (UInt16.not_lt.mpr hdyn)
    · rw [if_neg hdyn]
      have hlt : ap.dstPort < dynamicPort := UInt16.not_le.mp hdyn
      split
      next hl => exact ⟨fun _ => Or.inr ⟨hlt, by simpa using hl⟩, fun _ => rfl⟩
      next hl =>
        refine ⟨fun h => absurd h (by simp), fun h => ?_⟩
        rcases h with h | ⟨-, h⟩
        · exact absurd h hrouter
        · exact absurd (by simpa using h) hl

end Dotqoo.Capture
