import Dotqoo.Capture.Tick

/-!
# Bytes are conserved

What the table and the totals say about the traffic is checked against a ghost:
a ledger that lists, for every key, the packets accepted under it since its
record was created. A tick that removes a record clears its page, an accepted
packet is entered on the page of its key. `Traced` is the box with its ledger;
the box takes no notice (`Traced.run_box`).

Two invariants then say that no byte is lost and none is made up. `LedgerInv`
is about one record: its counters are the lengths of the packets on its page,
split by which end sent them. `TotalsInv` is about all of them: `history_totals`
is what the records in the table hold together with what the removed ones held
when they went. Counters are 64 bits wide, so all of this is modulo `2 ^ 64`.
-/

namespace Dotqoo.Capture

open Dotqoo.Table Dotqoo.Lib

/-- The packets accepted under each key since its record was created. -/
abbrev Ledger := AddrPair → List Packet

/-- The box and its ledger. -/
structure Traced where
  box : Box
  ledger : Ledger

/-- The pages of the records that are in the table. -/
def keepPages (h : History) (ledger : Ledger) : Ledger := fun k =>
  if (hashFind h.toHashType k).isSome then ledger k else []

/-- A packet is entered on the page of its key. -/
def enterPacket (key : AddrPair) (iptr : Packet) (ledger : Ledger) : Ledger := fun k =>
  if k = key then ledger k ++ [iptr] else ledger k

/-- One event, with the ledger kept beside it. -/
def Traced.step (pl : Platform) (s : Traced) (ev : Event) : Traced where
  box := Capture.step pl s.box ev
  ledger :=
    let ledger := keepPages (tickPart pl s.box ev).history s.ledger
    match ev with
    | .packet e iptr hwDir =>
      match acceptedFlow s.box.config e iptr hwDir with
      | none => ledger
      | some f => enterPacket f.key iptr ledger
    | _ => ledger

/-- The box as the capture thread starts, and an empty ledger. -/
def Traced.boot (config : Config) (sendLast lastTimestamp connectedAt : Int) (connected : Bool) :
    Traced where
  box := Capture.boot config sendLast lastTimestamp connectedAt connected
  ledger := fun _ => []

theorem Traced.run_box (pl : Platform) (s : Traced) (evs : List Event) :
    (run (Traced.step pl) s evs).box = run (Capture.step pl) s.box evs := by
  induction evs generalizing s with
  | nil => rfl
  | cons ev evs ih =>
    rw [run_cons, run_cons, ih]
    rfl

/-! ## Lengths and counters -/

/-- `ntohs(ip_len)` of some packets, together. -/
def lengths (ps : List Packet) : Nat := (ps.map fun p => (ipLen p).toNat).sum

/-- The bytes that packets from the key's source carry. -/
def sentBytes (key : AddrPair) (ps : List Packet) : Nat :=
  lengths (ps.filter fun p => ipSrc p == key.src)

/-- The bytes that the other packets carry. -/
def recvBytes (key : AddrPair) (ps : List Packet) : Nat :=
  lengths (ps.filter fun p => ipSrc p != key.src)

/-- A record's counters are the bytes of the packets on its page. -/
def Agrees (key : AddrPair) (d : HistoryType) (page : List Packet) : Prop :=
  d.totalSent.toNat = sentBytes key page % 2 ^ 64
    ∧ d.totalRecv.toNat = recvBytes key page % 2 ^ 64

/-- The bytes a record has counted. -/
def countedBytes (d : HistoryType) : Nat := d.totalSent.toNat + d.totalRecv.toNat

/-- The bytes some nodes have counted. -/
def bytesOf (ns : List Node) : Nat := (ns.map fun n => countedBytes n.record).sum

theorem toNat_len (iptr : Packet) : (ipLen iptr).toUInt64.toNat = (ipLen iptr).toNat :=
  UInt16.toNat_toUInt64 _

/-- The accounting adds the length to one of the two counters. -/
theorem accountRecord_counters (iptr : Packet) (key : AddrPair) (t : Int) (d : HistoryType) :
    (accountRecord iptr key t d).totalSent.toNat
        = (d.totalSent.toNat + if ipSrc iptr = key.src then (ipLen iptr).toNat else 0) % 2 ^ 64
      ∧ (accountRecord iptr key t d).totalRecv.toNat
        = (d.totalRecv.toNat + if ipSrc iptr = key.src then 0 else (ipLen iptr).toNat) % 2 ^ 64 := by
  have hs := d.totalSent.toNat_lt
  have hr := d.totalRecv.toNat_lt
  unfold accountRecord
  by_cases hsrc : ipSrc iptr = key.src
  · simp only [if_pos hsrc, UInt64.toNat_add, toNat_len, Nat.add_zero]
    exact ⟨trivial, (Nat.mod_eq_of_lt hr).symm⟩
  · simp only [if_neg hsrc, UInt64.toNat_add, toNat_len, Nat.add_zero]
    exact ⟨(Nat.mod_eq_of_lt hs).symm, trivial⟩

theorem Agrees.account {key : AddrPair} {d : HistoryType} {page : List Packet} (iptr : Packet)
    (t : Int) (h : Agrees key d page) :
    Agrees key (accountRecord iptr key t d) (page ++ [iptr]) := by
  obtain ⟨hsent, hrecv⟩ := accountRecord_counters iptr key t d
  obtain ⟨h1, h2⟩ := h
  rw [Agrees, hsent, hrecv, h1, h2]
  by_cases hsrc : ipSrc iptr = key.src
  · simp [sentBytes, recvBytes, lengths, List.filter_append, hsrc]
  · simp [sentBytes, recvBytes, lengths, List.filter_append, hsrc]

theorem countedBytes_account (iptr : Packet) (key : AddrPair) (t : Int) (d : HistoryType) :
    countedBytes (accountRecord iptr key t d) % 2 ^ 64
      = (countedBytes d + (ipLen iptr).toNat) % 2 ^ 64 := by
  obtain ⟨hsent, hrecv⟩ := accountRecord_counters iptr key t d
  rw [countedBytes, hsent, hrecv, countedBytes]
  by_cases hsrc : ipSrc iptr = key.src
  · rw [if_pos hsrc, if_pos hsrc]
    omega
  · rw [if_neg hsrc, if_neg hsrc]
    omega

theorem countedBytes_totals (iptr : Packet) (direction : Direction) (d : HistoryType) :
    countedBytes (accountTotals iptr direction d) % 2 ^ 64
      = (countedBytes d + (ipLen iptr).toNat) % 2 ^ 64 := by
  cases direction with
  | incoming =>
    simp only [accountTotals, countedBytes, UInt64.toNat_add, toNat_len]
    omega
  | outgoing =>
    simp only [accountTotals, countedBytes, UInt64.toNat_add, toNat_len]
    omega

/-! ## The table as a whole -/

/-- A pass only moves bytes: what it removes is what it no longer holds. -/
theorem bytesOf_settled (o : Options) (t : Int) : ∀ ns : List Node,
    bytesOf (ns.filterMap (settleNode o t)) + bytesOf (removedOf o t ns) = bytesOf ns
  | [] => rfl
  | n :: ns => by
    have ih := bytesOf_settled o t ns
    cases hn : settleNode o t n with
    | none =>
      have hrm : removedOf o t (n :: ns) = n :: removedOf o t ns := by simp [removedOf, hn]
      rw [List.filterMap_cons_none hn, hrm]
      simp only [bytesOf, List.map_cons, List.sum_cons] at ih ⊢
      omega
    | some m =>
      have hrm : removedOf o t (n :: ns) = removedOf o t ns := by simp [removedOf, hn]
      have hbytes : countedBytes m.record = countedBytes n.record := by
        rw [settleNode, Option.map_eq_some_iff] at hn
        obtain ⟨d, hd, rfl⟩ := hn
        obtain ⟨hs, hr, -⟩ := settle_some hd
        rw [countedBytes, hs, hr, countedBytes]
      rw [List.filterMap_cons_some hn, hrm]
      simp only [bytesOf, List.map_cons, List.sum_cons, hbytes] at ih ⊢
      omega

/-- A fresh record has counted nothing. -/
theorem bytesOf_findOrCreate (h : History) (key : AddrPair) (created : Int) :
    bytesOf (findOrCreate h key created).nodes = bytesOf h.nodes := by
  unfold findOrCreate
  split
  next hf =>
    have hperm := (nodes_hashInsert_perm h.toHashType key (historyCreate created)).map
      fun n : Node => countedBytes n.record
    have hzero : countedBytes (historyCreate created) = 0 := rfl
    show (List.map _ (hashInsert h.toHashType key (historyCreate created)).nodes).sum = _
    rw [hperm.sum_eq, List.map_cons, List.sum_cons, hzero, Nat.zero_add]
    rfl
  next => rfl

/-- The accounting adds the length of the packet to the table. -/
theorem bytesOf_account (iptr : Packet) (f : Flow) (t created : Int) (b : Box) :
    bytesOf (account iptr f t created b).history.nodes % 2 ^ 64
      = (bytesOf b.history.nodes + (ipLen iptr).toNat) % 2 ^ 64 := by
  have hmem := mem_findOrCreate_key.mpr (rfl : recordFor b.history f.key created = _)
  -- the table is the accounted record and what is around it, which stays
  obtain ⟨l₁, l₂, hsplit⟩ := List.append_of_mem hmem
  have hstore := (findOrCreate b.history f.key created).nodes_store_of_split
    (f := accountRecord iptr f.key t) hsplit
  have hrec := countedBytes_account iptr f.key t (recordFor b.history f.key created)
  rw [← bytesOf_findOrCreate b.history f.key created, hsplit]
  show bytesOf ((findOrCreate b.history f.key created).store f.key
    (accountRecord iptr f.key t)).nodes % 2 ^ 64 = _
  rw [hstore]
  simp only [bytesOf, List.map_append, List.map_cons, List.sum_append, List.sum_cons]
  omega

/-- `history_totals` is the bytes of the table and of what was removed from it. -/
def TotalsInv (b : Box) : Prop :=
  countedBytes b.historyTotals % 2 ^ 64
    = (bytesOf b.history.nodes + bytesOf b.freed) % 2 ^ 64

theorem TotalsInv.tick {pl : Platform} {e : TickEnv} {send : Bool} {t : Int} {b : Box}
    (h : TotalsInv b) : TotalsInv (tick pl e send t b) := by
  unfold TotalsInv at h ⊢
  rw [tick_totals, h]
  rcases tick_history pl e send t b with ⟨hh, hf⟩ | ⟨hh, hf⟩
  · rw [hh, hf]
  · obtain ⟨hnodes, -, hfreed⟩ := historyRotate_spec b.config.options t e.stale b.history
    have hpass := bytesOf_settled b.config.options t b.history.nodes
    rw [hh, hf, hnodes, hfreed, ← hpass]
    simp only [bytesOf, List.map_append, List.sum_append]
    congr 1
    omega

theorem TotalsInv.account {iptr : Packet} {f : Flow} {t created : Int} {b : Box}
    (h : TotalsInv b) : TotalsInv (account iptr f t created b) := by
  unfold TotalsInv at h ⊢
  have htable := bytesOf_account iptr f t created b
  have htotals := countedBytes_totals iptr f.direction b.historyTotals
  show countedBytes (accountTotals iptr f.direction b.historyTotals) % 2 ^ 64
    = (bytesOf (Capture.account iptr f t created b).history.nodes + bytesOf b.freed) % 2 ^ 64
  omega

theorem TotalsInv.step {pl : Platform} {b : Box} {ev : Event} (h : TotalsInv b) :
    TotalsInv (Capture.step pl b ev) := by
  cases ev with
  | packet e iptr hwDir =>
    show TotalsInv (handleIpPacket pl e iptr hwDir b)
    cases ha : acceptedFlow b.config e iptr hwDir with
    | none =>
      rw [handleIpPacket_none ha]
      exact h.tick
    | some f =>
      rw [handleIpPacket_some ha]
      exact h.tick.account
  | tick e send t => exact h.tick
  | delivered dt => exact h
  | connlost now connected => exact h

/-! ## The ledger -/

/-- Every record agrees with its page, and a key without a record has none. -/
structure LedgerInv (s : Traced) : Prop where
  records : ∀ n ∈ s.box.history.nodes, Agrees n.key n.record (s.ledger n.key)
  absent : ∀ k, hashFind s.box.history.toHashType k = none → s.ledger k = []

/-- A tick keeps the counters of the records it keeps. -/
theorem LedgerInv.tickPart (pl : Platform) {s : Traced} (h : LedgerInv s) (ev : Event) :
    LedgerInv ⟨tickPart pl s.box ev, keepPages (tickPart pl s.box ev).history s.ledger⟩ := by
  constructor
  · intro n hn
    obtain ⟨d, hd, hs, hr, -⟩ := mem_tickPart hn
    have hfind : hashFind (Capture.tickPart pl s.box ev).history.toHashType n.key = some n.record :=
      (KeyedTable.hashFind_eq_some_iff _).mpr hn
    show Agrees n.key n.record (keepPages _ s.ledger n.key)
    rw [keepPages, hfind, Option.isSome_some, if_pos rfl, Agrees, hs, hr]
    exact h.records ⟨n.key, d⟩ hd
  · intro k hk
    show keepPages _ s.ledger k = []
    rw [keepPages, hk]
    rfl

/-- An accepted packet is entered and accounted. -/
theorem LedgerInv.account {s : Traced} (h : LedgerInv s) (iptr : Packet) (f : Flow)
    (t created : Int) :
    LedgerInv ⟨account iptr f t created s.box, enterPacket f.key iptr s.ledger⟩ := by
  have hbefore : Agrees f.key (recordFor s.box.history f.key created) (s.ledger f.key) := by
    unfold recordFor
    cases hf : hashFind s.box.history.toHashType f.key with
    | none =>
      -- a fresh record against an empty page
      rw [h.absent f.key hf]
      exact ⟨rfl, rfl⟩
    | some d => exact h.records ⟨f.key, d⟩ ((KeyedTable.hashFind_eq_some_iff _).mp hf)
  constructor
  · intro n hn
    show Agrees n.key n.record (enterPacket f.key iptr s.ledger n.key)
    rcases mem_account.mp hn with ⟨hn, hkey⟩ | rfl
    · rw [enterPacket, if_neg hkey]
      exact h.records n hn
    · rw [enterPacket, if_pos rfl]
      exact hbefore.account iptr t
  · intro k hk
    have hnone := (KeyedTable.hashFind_eq_none_iff _).mp hk
    have hkey : k ≠ f.key := fun he => hnone _ (mem_account.mpr (Or.inr rfl)) he.symm
    show enterPacket f.key iptr s.ledger k = []
    rw [enterPacket, if_neg hkey]
    refine h.absent k ((KeyedTable.hashFind_eq_none_iff _).mpr fun n hn he => ?_)
    exact hnone n (mem_account.mpr (Or.inl ⟨hn, by rw [he]; exact hkey⟩)) he

theorem LedgerInv.step {pl : Platform} {s : Traced} (h : LedgerInv s) (ev : Event) :
    LedgerInv (Traced.step pl s ev) := by
  have htick := h.tickPart pl ev
  cases ev with
  | packet e iptr hwDir =>
    cases ha : acceptedFlow s.box.config e iptr hwDir with
    | none =>
      have hstep : Traced.step pl s (.packet e iptr hwDir)
          = ⟨tick pl e.tick false e.t s.box,
              keepPages (tick pl e.tick false e.t s.box).history s.ledger⟩ := by
        simp only [Traced.step, Capture.step, Capture.tickPart, ha, handleIpPacket_none ha]
      rw [hstep]
      exact htick
    | some f =>
      have hstep : Traced.step pl s (.packet e iptr hwDir)
          = ⟨Capture.account iptr f e.t e.created (tick pl e.tick false e.t s.box),
              enterPacket f.key iptr
                (keepPages (tick pl e.tick false e.t s.box).history s.ledger)⟩ := by
        simp only [Traced.step, Capture.step, Capture.tickPart, ha, handleIpPacket_some ha]
      rw [hstep]
      exact htick.account iptr f e.t e.created
  | tick e send t => exact htick
  | delivered dt => exact ⟨htick.records, htick.absent⟩
  | connlost now connected => exact ⟨htick.records, htick.absent⟩

theorem nodes_boot (config : Config) (sendLast lastTimestamp connectedAt : Int)
    (connected : Bool) :
    (boot config sendLast lastTimestamp connectedAt connected).history.nodes = [] :=
  nodes_hashInitialise

theorem LedgerInv.boot (config : Config) (sendLast lastTimestamp connectedAt : Int)
    (connected : Bool) :
    LedgerInv (Traced.boot config sendLast lastTimestamp connectedAt connected) := by
  refine ⟨fun n hn => ?_, fun _ _ => rfl⟩
  have hnodes := nodes_boot config sendLast lastTimestamp connectedAt connected
  change n ∈ (Capture.boot config sendLast lastTimestamp connectedAt connected).history.nodes at hn
  rw [hnodes] at hn
  exact absurd hn List.not_mem_nil

/-! ## Conservation -/

/-- Next to its tick, a packet changes nothing, or it adds its length to the
record of one key and to the totals. -/
def CountedOnce (pl : Platform) (b : Box) (e : PacketEnv) (iptr : Packet) (hwDir : Int) : Prop :=
  match acceptedFlow b.config e iptr hwDir with
  | none =>
    (handleIpPacket pl e iptr hwDir b).history = (tick pl e.tick false e.t b).history
      ∧ (handleIpPacket pl e iptr hwDir b).historyTotals = b.historyTotals
  | some f =>
    (∀ k, k ≠ f.key →
      hashFind (handleIpPacket pl e iptr hwDir b).history.toHashType k
        = hashFind (tick pl e.tick false e.t b).history.toHashType k)
    ∧ (∃ d, hashFind (handleIpPacket pl e iptr hwDir b).history.toHashType f.key = some d
        ∧ countedBytes d % 2 ^ 64
          = (countedBytes (recordFor (tick pl e.tick false e.t b).history f.key e.created)
              + (ipLen iptr).toNat) % 2 ^ 64)
    ∧ countedBytes (handleIpPacket pl e iptr hwDir b).historyTotals % 2 ^ 64
        = (countedBytes b.historyTotals + (ipLen iptr).toNat) % 2 ^ 64

/-- Accounting leaves the records of other keys alone. -/
theorem hashFind_account {iptr : Packet} {f : Flow} {t created : Int} {b : Box} {k : AddrPair}
    (hk : k ≠ f.key) : hashFind (account iptr f t created b).history.toHashType k
      = hashFind b.history.toHashType k := by
  rw [hashFind_account_eq, if_neg hk]

theorem countedOnce (pl : Platform) (b : Box) (e : PacketEnv) (iptr : Packet) (hwDir : Int) :
    CountedOnce pl b e iptr hwDir := by
  unfold CountedOnce
  cases ha : acceptedFlow b.config e iptr hwDir with
  | none =>
    rw [handleIpPacket_none ha]
    exact ⟨rfl, tick_totals pl e.tick false e.t b⟩
  | some f =>
    rw [handleIpPacket_some ha]
    refine ⟨fun k hk => hashFind_account hk, ⟨accountRecord iptr f.key e.t
      (recordFor (tick pl e.tick false e.t b).history f.key e.created), ?_, ?_⟩, ?_⟩
    · exact (KeyedTable.hashFind_eq_some_iff _).mpr (mem_account.mpr (Or.inr rfl))
    · exact countedBytes_account iptr f.key e.t _
    · show countedBytes (accountTotals iptr f.direction
        (tick pl e.tick false e.t b).historyTotals) % 2 ^ 64 = _
      rw [tick_totals]
      exact countedBytes_totals iptr f.direction b.historyTotals

/-- **Bytes are conserved.** At the end of every run from the empty table (so at
every point of every run): each record has counted the packets on its page,
split by their source; the totals are the bytes of the records in the table and
of those removed from it; and the next packet is counted once or not at all. -/
theorem bytes_conserved (pl : Platform) (config : Config)
    (sendLast lastTimestamp connectedAt : Int) (connected : Bool) (evs : List Event) :
    (run (Traced.step pl) (Traced.boot config sendLast lastTimestamp connectedAt connected) evs).box
        = run (step pl) (boot config sendLast lastTimestamp connectedAt connected) evs
      ∧ (∀ n ∈ (run (step pl)
            (boot config sendLast lastTimestamp connectedAt connected) evs).history.nodes,
          Agrees n.key n.record ((run (Traced.step pl)
            (Traced.boot config sendLast lastTimestamp connectedAt connected) evs).ledger n.key))
      ∧ TotalsInv (run (step pl)
          (boot config sendLast lastTimestamp connectedAt connected) evs)
      ∧ ∀ e iptr hwDir, CountedOnce pl (run (step pl)
          (boot config sendLast lastTimestamp connectedAt connected) evs) e iptr hwDir := by
  have hbox := Traced.run_box pl
    (Traced.boot config sendLast lastTimestamp connectedAt connected) evs
  have hpages : ∀ (s : Traced) (ev : Event), LedgerInv s → LedgerInv (Traced.step pl s ev) :=
    fun s ev h => h.step ev
  have hledger := run_invariant hpages evs
    (LedgerInv.boot config sendLast lastTimestamp connectedAt connected)
  have hstart : TotalsInv (boot config sendLast lastTimestamp connectedAt connected) := by
    unfold TotalsInv
    rw [nodes_boot]
    rfl
  have hsums : ∀ (b : Box) (ev : Event), TotalsInv b → TotalsInv (step pl b ev) :=
    fun b ev h => h.step
  have htotals := run_invariant hsums evs hstart
  refine ⟨hbox, fun n hn => ?_, htotals, fun e iptr hwDir => countedOnce pl _ e iptr hwDir⟩
  have hn' : n ∈ (run (Traced.step pl)
      (Traced.boot config sendLast lastTimestamp connectedAt connected) evs).box.history.nodes := by
    rw [hbox]
    exact hn
  exact hledger.records n hn'

end Dotqoo.Capture
