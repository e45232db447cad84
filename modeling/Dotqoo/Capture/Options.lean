import Dotqoo.Table.AddrHash

/-!
# The box's record types, options and port list

The data of `iftop.h`, `options.h` and `iftop_api.c` that the capture path
reads. Flags (`int` in C, tested against zero) are `Bool`. Times and the
interval options are `Int`: their C types are wider than any clock value, and
the code only subtracts and compares them. `threshold` is different: it is a
`long` compared with an `unsigned long long`, so the comparison is made on its
conversion, and it is an `Int64` here (which also holds every 32-bit `long`).

`options.send_last` is written by `tick`, so it lives in the box state
(`Dotqoo.Capture.Tick`) and not in `Options`.
-/

namespace Dotqoo.Capture

open Dotqoo.Table

/-- `RESOLUTION`. -/
def resolution : Int := 4

/-- `CHECK_AFTER_N_SECS`. -/
def checkAfterNSecs : Int := 120

/-- `PORT_LIST_LEN`. -/
def portListLen : Nat := 10

/-- `ROUTER_ADDR`: 172.16.64.31 as a little-endian `s_addr`. -/
def routerAddr : UInt32 := 524292268

/-- `history_type`. -/
structure HistoryType where
  totalSent : UInt64
  totalRecv : UInt64
  createTime : Int
  lastUpdateTime : Int
  approval : Bool
  deriving DecidableEq, Repr

/-- A record fresh from `xcalloc`. -/
def HistoryType.zero : HistoryType := ⟨0, 0, 0, 0, false⟩

/-- A node of the history table. -/
abbrev Node := HashNode AddrPair HistoryType

/-- The history table: the address hash, no key stored twice. -/
abbrev History := KeyedTable addrHash HistoryType

/-- The part of `options_t` that the capture path and `tick` read. -/
structure Options where
  promiscuousButChoosy : Bool
  netfilter : Bool
  netfilternet : UInt32
  netfiltermask : UInt32
  historyDeleteInterval : Int
  threshold : Int64
  duration : Int
  blockProtocols : List Int
  sendInterval : Int
  deriving Repr

/-- The globals fixed before the capture thread starts: the options, the `-P`
list and the interface address. -/
structure Config where
  options : Options
  portList : List Int
  haveIpAddr : Bool
  ifIpAddr : UInt32
  deriving Repr

/-- The loop of `in_port_list`, over the entries from the current index on. -/
def inPortListLoop : List Int → Int → Bool
  | [], _ => false
  | p :: list, port =>
    if p = port then true
    else if p = -1 then false
    else inPortListLoop list port

/-- `in_port_list`: is the port in the first `listLen` entries? -/
def inPortList (list : List Int) (listLen : Nat) (port : UInt16) : Bool :=
  if port = 0 then false else inPortListLoop (list.take listLen) (port.toNat : Int)

/-- The `-P` case of `options_read_args` for a list of at most `PORT_LIST_LEN`
ports: every entry is set to -1 first, then the ports are stored from index 0. -/
def storePortList (ports : List UInt16) : List Int :=
  ports.map (fun p => (p.toNat : Int)) ++ List.replicate (portListLen - ports.length) (-1)

theorem inPortListLoop_append_minus_one (port : UInt16) (k : Nat) : ∀ ports : List UInt16,
    inPortListLoop (ports.map (fun p => (p.toNat : Int)) ++ List.replicate k (-1)) port.toNat = true
      ↔ port ∈ ports
  | [] => by
    cases k with
    | zero => simp [inPortListLoop]
    | succ k =>
      have hne : (-1 : Int) ≠ (port.toNat : Int) := by omega
      simp [List.replicate_succ, inPortListLoop, hne]
  | p :: ports => by
    have hne : ((p.toNat : Int) = -1) = False := eq_false (by omega)
    have heq : ((p.toNat : Int) = (port.toNat : Int)) ↔ port = p := by
      rw [Int.natCast_inj, UInt16.toNat_inj]
      exact eq_comm
    rw [List.map_cons, List.cons_append, inPortListLoop]
    by_cases hp : port = p
    · simp [hp]
    · simp only [heq, hp, if_false, hne, List.mem_cons, false_or]
      exact inPortListLoop_append_minus_one port k ports

/-- On a list stored by `-P`, the scan finds exactly the listed ports. -/
theorem inPortList_storePortList {ports : List UInt16} (hlen : ports.length ≤ portListLen)
    (hpos : ∀ p ∈ ports, p ≠ 0) (port : UInt16) :
    inPortList (storePortList ports) portListLen port = true ↔ port ∈ ports := by
  have hall : (storePortList ports).take portListLen = storePortList ports := by
    apply List.take_of_length_le
    simp only [storePortList, List.length_append, List.length_map, List.length_replicate]
    omega
  unfold inPortList
  by_cases h0 : port = 0
  -- port 0 is never found, and never stored
  · rw [if_pos h0]
    exact ⟨fun h => absurd h (by simp), fun h => absurd h0 (hpos port h)⟩
  · rw [if_neg h0, hall]
    exact inPortListLoop_append_minus_one port _ ports

end Dotqoo.Capture
