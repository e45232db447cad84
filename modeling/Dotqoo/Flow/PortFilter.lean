import Dotqoo.Flow.Conservation

/-!
# The ignore-port filter

The `-P` list is consulted in the last branch of an if/else chain:

    if (ap.src is the router)          return;
    else if (ap.dst_port >= 49152)     ap.dst_port = 0;
    else if (in_port_list(src) || in_port_list(dst)) return;

so a packet whose oriented destination port is dynamic is never looked up. The
oriented destination is the client of a connection whenever the server is taken
for the source, and client ports are dynamic: a listed server port is then
counted after all.

`portFilter_exact` says which listed packets get through, and what that means
for the table: no record has bytes of an ignored port as long as no such packet
arrives.
-/

namespace Dotqoo.Capture

open Dotqoo.Table Dotqoo.Lib

/-- A TCP or UDP packet with a listed port on either side. -/
def Listed (ports : List UInt16) (iptr : Packet) : Prop :=
  usesPorts iptr = true ∧ (thSport iptr ∈ ports ∨ thDport iptr ∈ ports)

/-- The packet leaves table and totals as its tick left them. -/
def Unchanged (pl : Platform) (b : Box) (e : PacketEnv) (iptr : Packet) (hwDir : Int) : Prop :=
  (handleIpPacket pl e iptr hwDir b).history = (tick pl e.tick false e.t b).history
    ∧ (handleIpPacket pl e iptr hwDir b).historyTotals = (tick pl e.tick false e.t b).historyTotals

/-- The packet is blocked, or not given a direction, or the pair it is oriented
to is the router's or has a destination port below the dynamic ones. -/
def Filtered (c : Config) (e : PacketEnv) (iptr : Packet) (hwDir : Int) : Prop :=
  blocked c.options (ipP iptr) e.i e.wild = true ∨
    ∀ flip direction, orient c iptr hwDir = some (flip, direction) →
      (orientedPair iptr flip).src = routerAddr ∨ (orientedPair iptr flip).dstPort < dynamicPort

/-- Both ports of the packet are on the oriented pair, so the order in which the
list is asked for them does not matter. -/
theorem inPortList_orientedPair {c : Config} {ports : List UInt16}
    (hlen : ports.length ≤ portListLen) (hpos : ∀ p ∈ ports, p ≠ 0)
    (hc : c.portList = storePortList ports) (iptr : Packet) (flip : Bool) :
    (inPortList c.portList portListLen (orientedPair iptr flip).srcPort = true
      ∨ inPortList c.portList portListLen (orientedPair iptr flip).dstPort = true)
      ↔ Listed ports iptr := by
  have hports : (srcPortOf iptr ∈ ports ∨ dstPortOf iptr ∈ ports) ↔ Listed ports iptr := by
    unfold Listed srcPortOf dstPortOf
    by_cases hu : usesPorts iptr = true
    · simp [hu]
    · have hzero : (0 : UInt16) ∉ ports := fun h => hpos 0 h rfl
      simp [hu, hzero]
  rw [hc, inPortList_storePortList hlen hpos, inPortList_storePortList hlen hpos, ← hports]
  cases flip with
  | false => exact Iff.rfl
  | true => exact or_comm

/-- A packet is not accounted exactly if it is blocked or its pair is dropped. -/
theorem acceptedFlow_eq_none_iff {c : Config} {e : PacketEnv} {iptr : Packet} {hwDir : Int} :
    acceptedFlow c e iptr hwDir = none ↔
      blocked c.options (ipP iptr) e.i e.wild = true ∨
        ∀ flip direction, orient c iptr hwDir = some (flip, direction) →
          DropsPair c (orientedPair iptr flip) := by
  unfold acceptedFlow
  by_cases hb : blocked c.options (ipP iptr) e.i e.wild = true
  · rw [if_pos hb]
    exact ⟨fun _ => Or.inl hb, fun _ => rfl⟩
  · rw [if_neg hb, flowOf]
    simp only [hb, Bool.false_eq_true, false_or]
    cases ho : orient c iptr hwDir with
    | none => simp
    | some fd =>
      obtain ⟨flip, direction⟩ := fd
      cases hp : portFilter c (orientedPair iptr flip) with
      | none =>
        have hdrop := portFilter_eq_none_iff.mp hp
        simp only [hp]
        refine ⟨fun _ flip' direction' he => ?_, fun _ => trivial⟩
        obtain ⟨rfl, rfl⟩ : flip = flip' ∧ direction = direction' := by simpa using he
        exact hdrop
      | some key =>
        have hkeep : ¬ DropsPair c (orientedPair iptr flip) := fun hd => by
          rw [portFilter_eq_none_iff.mpr hd] at hp
          exact absurd hp (by simp)
        simp only [hp]
        exact ⟨fun h => absurd h (by simp), fun h => absurd (h flip direction rfl) hkeep⟩

/-- A listed packet is not accounted exactly if it is filtered. -/
theorem acceptedFlow_listed {c : Config} {ports : List UInt16} (hlen : ports.length ≤ portListLen)
    (hpos : ∀ p ∈ ports, p ≠ 0) (hc : c.portList = storePortList ports) {e : PacketEnv}
    {iptr : Packet} {hwDir : Int} (hl : Listed ports iptr) :
    acceptedFlow c e iptr hwDir = none ↔ Filtered c e iptr hwDir := by
  rw [acceptedFlow_eq_none_iff, Filtered]
  refine or_congr_right (forall₂_congr fun flip direction => imp_congr_right fun _ => ?_)
  have hlist := (inPortList_orientedPair hlen hpos hc iptr flip).mpr hl
  exact or_congr_right ⟨fun h => h.1, fun h => ⟨h, hlist⟩⟩

/-- A packet that carries bytes shows in the totals if it is accounted. -/
theorem unchanged_iff {pl : Platform} {b : Box} {e : PacketEnv} {iptr : Packet} {hwDir : Int}
    (hbytes : 0 < ipLen iptr) :
    Unchanged pl b e iptr hwDir ↔ acceptedFlow b.config e iptr hwDir = none := by
  cases ha : acceptedFlow b.config e iptr hwDir with
  | none =>
    refine ⟨fun _ => rfl, fun _ => ?_⟩
    rw [Unchanged, handleIpPacket_none ha]
    exact ⟨rfl, rfl⟩
  | some f =>
    refine ⟨fun h => ?_, fun h => absurd h (by simp)⟩
    -- an accepted packet moves the totals by its length, which is not 0 modulo 2 ^ 64
    have htotals := countedBytes_totals iptr f.direction
      (tick pl e.tick false e.t b).historyTotals
    have hsame : accountTotals iptr f.direction (tick pl e.tick false e.t b).historyTotals
        = (tick pl e.tick false e.t b).historyTotals := by
      have h2 := h.2
      rw [handleIpPacket_some ha] at h2
      exact h2
    have hlt := (ipLen iptr).toNat_lt
    have hpos : 0 < (ipLen iptr).toNat := hbytes
    rw [hsame] at htotals
    omega

/-- A packet without listed ports is dropped for the router's address only. -/
theorem portFilter_unlisted {c : Config} {ports : List UInt16} (hlen : ports.length ≤ portListLen)
    (hpos : ∀ p ∈ ports, p ≠ 0) (hc : c.portList = storePortList ports) {iptr : Packet}
    (hl : ¬ Listed ports iptr) (flip : Bool)
    (hnone : portFilter c (orientedPair iptr flip) = none) :
    (orientedPair iptr flip).src = routerAddr := by
  rcases portFilter_eq_none_iff.mp hnone with h | ⟨-, h⟩
  · exact h
  · exact absurd ((inPortList_orientedPair hlen hpos hc iptr flip).mp h) hl

/-! ## Over whole runs -/

/-- No record has bytes of a listed packet. -/
def NoListed (ports : List UInt16) (s : Traced) : Prop :=
  ∀ n ∈ s.box.history.nodes, ∀ q ∈ s.ledger n.key, ¬ Listed ports q

/-- If the event is a listed packet, the packet is filtered. -/
def FiltersListed (ports : List UInt16) (s : Traced) : Event → Prop
  | .packet e iptr hwDir => Listed ports iptr → Filtered s.box.config e iptr hwDir
  | _ => True

/-- No page of the ledger has a listed packet. -/
def CleanPages (ports : List UInt16) (s : Traced) : Prop :=
  ∀ k, ∀ q ∈ s.ledger k, ¬ Listed ports q

theorem CleanPages.keepPages {ports : List UInt16} {s : Traced} (h : CleanPages ports s)
    (hist : History) (k : AddrPair) : ∀ q ∈ keepPages hist s.ledger k, ¬ Listed ports q := by
  intro q hq
  unfold Capture.keepPages at hq
  split at hq
  next => exact h k q hq
  next => exact absurd hq List.not_mem_nil

section
variable {c : Config} {ports : List UInt16} (hlen : ports.length ≤ portListLen)
  (hpos : ∀ p ∈ ports, p ≠ 0) (hc : c.portList = storePortList ports)
include hlen hpos hc

theorem CleanPages.step {pl : Platform} {s : Traced} {ev : Event} (hcfg : s.box.config = c)
    (h : CleanPages ports s) (hok : FiltersListed ports s ev) :
    CleanPages ports (Traced.step pl s ev) := by
  intro k q hq
  cases ev with
  | packet e iptr hwDir =>
    cases ha : acceptedFlow s.box.config e iptr hwDir with
    | none =>
      simp only [Traced.step, ha] at hq
      exact h.keepPages _ k q hq
    | some f =>
      simp only [Traced.step, ha, enterPacket] at hq
      -- a listed packet would have been filtered, and not accepted
      have hnot : ¬ Listed ports iptr := fun hl => by
        rw [(acceptedFlow_listed hlen hpos (by rw [hcfg]; exact hc) hl).mpr (hok hl)] at ha
        exact absurd ha (by simp)
      split at hq
      next =>
        rcases List.mem_append.mp hq with hq | hq
        · exact h.keepPages _ k q hq
        · rw [List.mem_singleton.mp hq]
          exact hnot
      next => exact h.keepPages _ k q hq
  | tick e send t => exact h.keepPages _ k q hq
  | delivered dt => exact h.keepPages _ k q hq
  | connlost now connected => exact h.keepPages _ k q hq

/-- A listed packet that is not filtered lands in a record. -/
theorem not_noListed_step {pl : Platform} {s : Traced} {ev : Event} (hcfg : s.box.config = c)
    (hbad : ¬ FiltersListed ports s ev) : ¬ NoListed ports (Traced.step pl s ev) := by
  cases ev with
  | packet e iptr hwDir =>
    simp only [FiltersListed, not_forall] at hbad
    obtain ⟨hl, hf⟩ := hbad
    cases ha : acceptedFlow s.box.config e iptr hwDir with
    | none => exact absurd ((acceptedFlow_listed hlen hpos (by rw [hcfg]; exact hc) hl).mp ha) hf
    | some f =>
      intro hno
      refine hno ⟨f.key, accountRecord iptr f.key e.t
        (recordFor (tick pl e.tick false e.t s.box).history f.key e.created)⟩ ?_ iptr ?_ hl
      · show _ ∈ (handleIpPacket pl e iptr hwDir s.box).history.nodes
        rw [handleIpPacket_some ha]
        exact mem_account.mpr (Or.inr rfl)
      · simp [Traced.step, ha, enterPacket]
  | tick e send t => exact absurd trivial hbad
  | delivered dt => exact absurd trivial hbad
  | connlost now connected => exact absurd trivial hbad

theorem noListed_iff {pl : Platform} : ∀ {evs : List Event} {s : Traced}, s.box.config = c →
    CleanPages ports s →
    (Throughout (Traced.step pl) (NoListed ports) s evs ↔
      Along (Traced.step pl) (FiltersListed ports) s evs)
  | [], _, _, h => ⟨fun _ => trivial, fun _ n _ q hq => h n.key q hq⟩
  | ev :: evs, s, hcfg, h => by
    rw [Throughout, Along]
    have hnow : NoListed ports s := fun n _ q hq => h n.key q hq
    by_cases hok : FiltersListed ports s ev
    · have hcfg' : (Traced.step pl s ev).box.config = c := (step_config pl s.box ev).trans hcfg
      rw [noListed_iff hcfg' (h.step hlen hpos hc hcfg hok)]
      exact ⟨fun ht => ⟨hok, ht.2⟩, fun ha => ⟨hnow, ha.2⟩⟩
    · refine ⟨fun ht => ?_, fun ha => absurd ha.1 hok⟩
      exact absurd ht.2.first (not_noListed_step hlen hpos hc hcfg hok)

end

/-- **What gets past the ignore-port filter.** A packet is treated as the `-P`
list demands exactly if, being listed, it is filtered; and a run keeps every
record free of listed packets exactly if each listed packet of it is. -/
theorem portFilter_exact (c : Config) (ports : List UInt16) (hlen : ports.length ≤ portListLen)
    (hpos : ∀ p ∈ ports, p ≠ 0) (hc : c.portList = storePortList ports) :
    (∀ (pl : Platform) (b : Box) (e : PacketEnv) (iptr : Packet) (hwDir : Int),
        b.config = c → 0 < ipLen iptr →
        (((Listed ports iptr → Unchanged pl b e iptr hwDir) ∧
          (¬ Listed ports iptr → ∀ flip, portFilter c (orientedPair iptr flip) = none →
            (orientedPair iptr flip).src = routerAddr))
          ↔ (Listed ports iptr → Filtered c e iptr hwDir)))
      ∧ (∀ (pl : Platform) (sendLast lastTimestamp connectedAt : Int) (connected : Bool)
          (evs : List Event),
        Throughout (Traced.step pl) (NoListed ports)
            (Traced.boot c sendLast lastTimestamp connectedAt connected) evs
          ↔ Along (Traced.step pl) (FiltersListed ports)
            (Traced.boot c sendLast lastTimestamp connectedAt connected) evs) := by
  refine ⟨fun pl b e iptr hwDir hb hbytes => ?_,
    fun pl sendLast lastTimestamp connectedAt connected evs => ?_⟩
  · subst hb
    have hiff : Listed ports iptr →
        (Unchanged pl b e iptr hwDir ↔ Filtered b.config e iptr hwDir) := fun hl =>
      (unchanged_iff hbytes).trans (acceptedFlow_listed hlen hpos hc hl)
    refine ⟨fun h hl => (hiff hl).mp (h.1 hl), fun h => ⟨fun hl => (hiff hl).mpr (h hl), ?_⟩⟩
    exact fun hl flip hnone => portFilter_unlisted hlen hpos hc hl flip hnone
  · exact noListed_iff hlen hpos hc rfl fun _ _ hq => absurd hq List.not_mem_nil

/-- The plain box with `-P 80`. -/
def webConfig : Config := { plainConfig with portList := storePortList [80] }

theorem portFilter_exact_web :
    (∀ (pl : Platform) (b : Box) (e : PacketEnv) (iptr : Packet) (hwDir : Int),
        b.config = webConfig → 0 < ipLen iptr →
        (((Listed [80] iptr → Unchanged pl b e iptr hwDir) ∧
          (¬ Listed [80] iptr → ∀ flip, portFilter webConfig (orientedPair iptr flip) = none →
            (orientedPair iptr flip).src = routerAddr))
          ↔ (Listed [80] iptr → Filtered webConfig e iptr hwDir)))
      ∧ (∀ (pl : Platform) (sendLast lastTimestamp connectedAt : Int) (connected : Bool)
          (evs : List Event),
        Throughout (Traced.step pl) (NoListed [80])
            (Traced.boot webConfig sendLast lastTimestamp connectedAt connected) evs
          ↔ Along (Traced.step pl) (FiltersListed [80])
            (Traced.boot webConfig sendLast lastTimestamp connectedAt connected) evs) :=
  portFilter_exact webConfig [80] (by simp [portListLen]) (by simp) rfl

/-- 40 bytes of TCP from a server, 172.16.0.2:80, to a client, 10.0.0.1:50000. -/
def serverPacket : Packet :=
  [0x45, 0, 0, 40, 0, 0, 0, 0, 64, 6, 0, 0, 172, 16, 0, 2, 10, 0, 0, 1, 0, 80, 0xc3, 0x50]

/-- It arrives at `t = 10`, sent from this host. -/
def serverEnv : PacketEnv where
  tick := plainEnv none
  t := 10
  created := 10
  i := 0
  wild := false

instance (ports : List UInt16) (iptr : Packet) : Decidable (Listed ports iptr) :=
  inferInstanceAs (Decidable (_ ∧ _))

/-- Port 80 is listed and the packet is counted: its 40 bytes are in the totals,
and the packet is on the page of a record. -/
theorem portFilter_bypassed :
    Listed [80] serverPacket
      ∧ (tick lp64 serverEnv.tick false serverEnv.t (boot webConfig 0 0 0 true)).historyTotals.totalSent
          = 0
      ∧ (handleIpPacket lp64 serverEnv serverPacket 1
          (boot webConfig 0 0 0 true)).historyTotals.totalSent = 40
      ∧ ¬ NoListed [80] (run (Traced.step lp64) (Traced.boot webConfig 0 0 0 true)
          [.packet serverEnv serverPacket 1]) := by
  unfold NoListed
  decide +kernel

end Dotqoo.Capture
