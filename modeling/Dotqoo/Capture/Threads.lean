import Dotqoo.Capture.Tick

/-!
# Two threads

The capture thread and the thread of the MQTT library share the box. A `tick`
holds `tick_mutex` from beginning to end and is one step, whoever calls it. The
rest of `handle_ip_packet` holds no lock, and another thread can come in
between: after the packet's own `tick` and the filters, which read nothing that
changes; after the record has been found or inserted; and after the accounting.

Between the last two the capture thread holds `ht`, a pointer to the record.
`live` says whether the record it points to still exists: a pass that releases
the node of the key takes it away. The capture thread is the only one that
inserts, so while `live` holds the record is the one under the key, and an
update through `ht` is an update of the table; afterwards it is a write to
released memory, which the table does not see.
-/

namespace Dotqoo.Capture

open Dotqoo.Table Dotqoo.Lib

/-- How far the capture thread is with its packet. -/
inductive PacketPhase where
  | idle
  /-- The packet belongs to the flow `f`. -/
  | accepted (e : PacketEnv) (iptr : Packet) (f : Flow)
  /-- `ht` points to the record of the flow. -/
  | located (e : PacketEnv) (iptr : Packet) (f : Flow) (live : Bool)

/-- `ht` does not point to a released record. -/
def PacketPhase.sound : PacketPhase → Bool
  | .located _ _ _ live => live
  | _ => true

/-- The box and the capture thread. -/
structure Threads where
  box : Box
  phase : PacketPhase

/-- A step of one of the threads. -/
inductive Move where
  /-- `handle_ip_packet` up to the table: `tick(0, t)` and the filters. -/
  | enter (e : PacketEnv) (iptr : Packet) (hwDir : Int)
  /-- `hash_find`, and `history_create` and `hash_insert` if that found nothing. -/
  | locate
  /-- The update of the record and of the totals. -/
  | account
  /-- `msgarrvd`: `tick(1, t)`. -/
  | request (e : TickEnv) (t : Int)
  /-- The callback `delivered`. -/
  | delivered (dt : Int)
  /-- The callback `connlost`. -/
  | connlost (now : Int) (connected : Bool)

/-- Does going from `b` to `b'` release the record of the key? -/
def releases (b b' : Box) (key : AddrPair) : Bool :=
  (b'.freed.drop b.freed.length).any fun n => n.key = key

/-- `ht` after another thread has gone from `b` to `b'`. -/
def PacketPhase.after (b b' : Box) : PacketPhase → PacketPhase
  | .located e iptr f live => .located e iptr f (live && !releases b b' f.key)
  | phase => phase

/-- The update through `ht`. -/
def accountThrough (live : Bool) (e : PacketEnv) (iptr : Packet) (f : Flow) (b : Box) : Box :=
  { b with
    history :=
      if live then b.history.store f.key (accountRecord iptr f.key e.t) else b.history
    historyTotals := accountTotals iptr f.direction b.historyTotals }

/-- One step; a step of the capture thread that is not next does nothing. -/
def threadStep (pl : Platform) (s : Threads) : Move → Threads
  | .enter e iptr hwDir =>
    match s.phase with
    | .idle =>
      let b := tick pl e.tick false e.t s.box
      match acceptedFlow b.config e iptr hwDir with
      | none => { s with box := b }
      | some f => ⟨b, .accepted e iptr f⟩
    | _ => s
  | .locate =>
    match s.phase with
    | .accepted e iptr f =>
      ⟨{ s.box with history := findOrCreate s.box.history f.key e.created },
        .located e iptr f true⟩
    | _ => s
  | .account =>
    match s.phase with
    | .located e iptr f live => ⟨accountThrough live e iptr f s.box, .idle⟩
    | _ => s
  | .request e t =>
    let b := tick pl e true t s.box
    ⟨b, s.phase.after s.box b⟩
  | .delivered dt => { s with box := { s.box with mqtt := delivered dt s.box.mqtt } }
  | .connlost now connected =>
    { s with box := { s.box with mqtt := connlost now connected s.box.mqtt } }

/-- The program before its first packet. -/
def threadsBoot (config : Config) (sendLast lastTimestamp connectedAt : Int) (connected : Bool) :
    Threads := ⟨boot config sendLast lastTimestamp connectedAt connected, .idle⟩

/-- The three steps of a packet, with nothing in between, are `handle_ip_packet`. -/
theorem uninterrupted (pl : Platform) (e : PacketEnv) (iptr : Packet) (hwDir : Int) (b : Box) :
    run (threadStep pl) ⟨b, .idle⟩ [.enter e iptr hwDir, .locate, .account]
      = ⟨handleIpPacket pl e iptr hwDir b, .idle⟩ := by
  simp only [run_cons, run_nil, threadStep, handleIpPacket]
  cases acceptedFlow (tick pl e.tick false e.t b).config e iptr hwDir with
  | none => rfl
  | some f => rfl

/-! ## The record under the key -/

/-- The nodes a `tick` releases. -/
theorem freed_tick (pl : Platform) (e : TickEnv) (send : Bool) (t : Int) (b : Box) :
    (tick pl e send t b).freed.drop b.freed.length =
      if b.rotates send t then removedOf b.config.options t b.history.nodes else [] := by
  unfold tick
  split
  next =>
    show (b.freed ++ (historyRotate b.config.options t e.stale b.history).freed).drop _ = _
    rw [List.drop_left, (historyRotate_spec b.config.options t e.stale b.history).2.2]
  next => exact List.drop_length

/-- A request releases the record of a key exactly if the pass removes it. -/
theorem releases_request {pl : Platform} {e : TickEnv} {t : Int} {b : Box} {key : AddrPair}
    {d : HistoryType} (hfind : hashFind b.history.toHashType key = some d) :
    releases b (tick pl e true t b) key = true ↔ settle b.config.options t d = none := by
  have hmem : (⟨key, d⟩ : Node) ∈ b.history.nodes := (b.history.hashFind_eq_some_iff).mp hfind
  have hrot : b.rotates true t = true := rfl
  rw [releases, freed_tick, if_pos hrot, settle_eq_none_iff]
  simp only [List.any_eq_true, mem_removedOf, decide_eq_true_eq]
  constructor
  · intro ⟨n, ⟨hn, hdrop⟩, hkey⟩
    rw [b.history.eq_of_key hn hmem hkey] at hdrop
    exact hdrop
  · intro hdrop
    exact ⟨⟨key, d⟩, ⟨hmem, hdrop⟩, rfl⟩

/-- Whenever the update runs, now or at any later point of this state, the record
it writes is the one stored under the key of the packet, and the table has it
afterwards. -/
def RecordStored (pl : Platform) (s : Threads) : Prop :=
  ∀ e iptr f live, s.phase = .located e iptr f live → live = true ∧
    ∃ d, hashFind s.box.history.toHashType f.key = some d ∧
      hashFind (threadStep pl s .account).box.history.toHashType f.key
        = some (accountRecord iptr f.key e.t d)

/-- A request does not come between the two steps of a packet, or the packet's
record is one its pass does not remove. -/
def Spares (s : Threads) : Move → Prop
  | .request _ t => ∀ e iptr f live, s.phase = .located e iptr f live →
      ∀ d ∈ hashFind s.box.history.toHashType f.key,
        d.approval = true ∨ (isShortConnection s.box.config.options d t = false ∧
          isLowTrafficConnection s.box.config.options d t = false)
  | _ => True

/-- With `ht` live and the key in the table, the update reaches the record. -/
theorem recordStored_located {pl : Platform} {b : Box} {e : PacketEnv} {iptr : Packet} {f : Flow}
    {live : Bool} :
    RecordStored pl ⟨b, .located e iptr f live⟩ ↔
      live = true ∧ ∃ d, hashFind b.history.toHashType f.key = some d := by
  constructor
  · intro h
    obtain ⟨hlive, d, hd, _⟩ := h e iptr f live rfl
    exact ⟨hlive, d, hd⟩
  · intro ⟨hlive, d, hd⟩ e' iptr' f' live' hphase
    cases hphase
    refine ⟨hlive, d, hd, ?_⟩
    have hmem : (⟨f.key, d⟩ : Node) ∈ b.history.nodes := (b.history.hashFind_eq_some_iff).mp hd
    simp only [threadStep, accountThrough, hlive, if_true]
    rw [KeyedTable.hashFind_eq_some_iff, KeyedTable.mem_store]
    exact Or.inr ⟨d, hmem, rfl⟩

/-- Between two packets nothing is pending. -/
theorem recordStored_idle {pl : Platform} {b : Box} : RecordStored pl ⟨b, .idle⟩ :=
  fun _ _ _ _ hphase => by cases hphase

theorem recordStored_accepted {pl : Platform} {b : Box} {e : PacketEnv} {iptr : Packet} {f : Flow} :
    RecordStored pl ⟨b, .accepted e iptr f⟩ :=
  fun _ _ _ _ hphase => by cases hphase

theorem RecordStored.sound {pl : Platform} {s : Threads} (h : RecordStored pl s) :
    s.phase.sound = true := by
  cases hp : s.phase with
  | idle => rfl
  | accepted e iptr f => rfl
  | located e iptr f live => exact (h e iptr f live hp).1

/-- What one request does to the pending update. -/
theorem recordStored_request {pl : Platform} {b : Box} {pe : PacketEnv} {iptr : Packet} {f : Flow}
    {live : Bool} (h : RecordStored pl ⟨b, .located pe iptr f live⟩) (e : TickEnv) (t : Int) :
    RecordStored pl (threadStep pl ⟨b, .located pe iptr f live⟩ (.request e t)) ↔
      Spares ⟨b, .located pe iptr f live⟩ (.request e t) := by
  obtain ⟨hlive, d, hd⟩ := recordStored_located.mp h
  have hspares : Spares ⟨b, .located pe iptr f live⟩ (.request e t) ↔
      settle b.config.options t d ≠ none := by
    rw [ne_eq, settle_eq_none_iff, Spares]
    constructor
    · intro hs ⟨happ, hdrop⟩
      rcases hs pe iptr f live rfl d hd with h | ⟨h1, h2⟩
      · rw [happ] at h; cases h
      · rw [h1, h2] at hdrop; cases hdrop
    · intro hs pe' iptr' f' live' hphase d' hd'
      cases hphase
      obtain rfl : d = d' := Option.some.inj (hd.symm.trans hd')
      by_cases happ : d.approval = true
      · exact Or.inl happ
      · refine Or.inr ?_
        have hkeep : ¬ (isShortConnection b.config.options d t
            || isLowTrafficConnection b.config.options d t) = true :=
          fun hdrop => hs ⟨by simpa using happ, hdrop⟩
        simpa using hkeep
  have hfind := hashFind_tick pl e true t b f.key
  rw [if_pos (show b.rotates true t = true from rfl), hd, Option.bind_some] at hfind
  show RecordStored pl ⟨tick pl e true t b,
    .located pe iptr f (live && !releases b (tick pl e true t b) f.key)⟩ ↔ _
  rw [recordStored_located, hspares, hlive, hfind, Bool.true_and, Bool.not_eq_true',
    ← Bool.not_eq_true, releases_request hd]
  constructor
  · intro hs
    exact hs.1
  · intro hs
    exact ⟨hs, Option.ne_none_iff_exists'.mp hs⟩

/-- A callback that leaves the table alone leaves the pending update alone. -/
theorem recordStored_congr {pl : Platform} {b b' : Box} {phase : PacketPhase}
    (hhist : b'.history = b.history) (h : RecordStored pl ⟨b, phase⟩) :
    RecordStored pl ⟨b', phase⟩ := by
  cases phase with
  | idle => exact recordStored_idle
  | accepted e iptr f => exact recordStored_accepted
  | located e iptr f live =>
    rw [recordStored_located] at h ⊢
    rw [hhist]
    exact h

/-- The capture thread's own steps keep its update safe. -/
theorem recordStored_enter {pl : Platform} {s : Threads} (h : RecordStored pl s) (e : PacketEnv)
    (iptr : Packet) (hwDir : Int) : RecordStored pl (threadStep pl s (.enter e iptr hwDir)) := by
  obtain ⟨b, phase⟩ := s
  cases phase with
  | idle =>
    simp only [threadStep]
    split
    next => exact recordStored_idle
    next => exact recordStored_accepted
  | accepted e' iptr' f => exact h
  | located e' iptr' f live => exact h

theorem recordStored_locate {pl : Platform} {s : Threads} (h : RecordStored pl s) :
    RecordStored pl (threadStep pl s .locate) := by
  obtain ⟨b, phase⟩ := s
  cases phase with
  | idle => exact h
  | accepted e iptr f =>
    have hmem : (⟨f.key, recordFor b.history f.key e.created⟩ : Node)
        ∈ (findOrCreate b.history f.key e.created).nodes := mem_findOrCreate_key.mpr rfl
    exact recordStored_located.mpr ⟨rfl, _, (KeyedTable.hashFind_eq_some_iff _).mpr hmem⟩
  | located e iptr f live => exact h

theorem recordStored_account {pl : Platform} {s : Threads} (h : RecordStored pl s) :
    RecordStored pl (threadStep pl s .account) := by
  obtain ⟨b, phase⟩ := s
  cases phase with
  | idle => exact h
  | accepted e iptr f => exact h
  | located e iptr f live => exact recordStored_idle

/-- One step keeps the pending update safe exactly if it spares the record. -/
theorem recordStored_step (pl : Platform) (s : Threads) (ev : Move) (h : RecordStored pl s) :
    RecordStored pl (threadStep pl s ev) ↔ Spares s ev := by
  cases ev with
  | request e t =>
    obtain ⟨b, phase⟩ := s
    cases phase with
    | located pe iptr f live => exact recordStored_request h e t
    | idle =>
      exact ⟨fun _ _ _ _ _ => nofun, fun _ => recordStored_idle⟩
    | accepted pe iptr f =>
      exact ⟨fun _ _ _ _ _ => nofun, fun _ => recordStored_accepted⟩
  | enter e iptr hwDir => exact ⟨fun _ => trivial, fun _ => recordStored_enter h e iptr hwDir⟩
  | locate => exact ⟨fun _ => trivial, fun _ => recordStored_locate h⟩
  | account => exact ⟨fun _ => trivial, fun _ => recordStored_account h⟩
  | delivered dt => exact ⟨fun _ => trivial, fun _ => recordStored_congr (b := s.box) rfl h⟩
  | connlost now connected =>
    exact ⟨fun _ => trivial, fun _ => recordStored_congr (b := s.box) rfl h⟩

/-- **No update is lost exactly if no request removes a record with an update
pending.** For every interleaving of the two threads. -/
theorem recordStored_iff (pl : Platform) (config : Config)
    (sendLast lastTimestamp connectedAt : Int) (connected : Bool) (evs : List Move) :
    Throughout (threadStep pl) (RecordStored pl)
        (threadsBoot config sendLast lastTimestamp connectedAt connected) evs ↔
      Along (threadStep pl) Spares
        (threadsBoot config sendLast lastTimestamp connectedAt connected) evs :=
  throughout_iff_along (recordStored_step pl) recordStored_idle

/-- The thresholds of the shipped argument file: 300 bytes, and 60 seconds. -/
def shippedConfig : Config :=
  { plainConfig with options := { plainConfig.options with threshold := 300 } }

/-- A request between the two steps of the first packet of a connection. -/
def racingRun : List Move :=
  [.enter { tick := plainEnv none, t := 1000, created := 1000, i := 0, wild := false } tcpPacket 1,
   .locate, .request (plainEnv none) 1000, .account]

/-- The record was inserted with no traffic and `last_update_time` 0, so the
request's pass finds it quiet and releases it; the update goes nowhere. -/
theorem recordStored_fails :
    ¬ Throughout (threadStep lp64) (RecordStored lp64) (threadsBoot shippedConfig 0 0 0 true)
        racingRun
      ∧ (run (threadStep lp64) (threadsBoot shippedConfig 0 0 0 true)
          (racingRun.take 2)).box.history.nodes.length = 1
      ∧ (run (threadStep lp64) (threadsBoot shippedConfig 0 0 0 true)
          racingRun).box.history.nodes.length = 0
      ∧ (run (threadStep lp64) (threadsBoot shippedConfig 0 0 0 true)
          racingRun).box.historyTotals.totalSent = 40 := by
  refine ⟨?_, by decide +kernel, by decide +kernel, by decide +kernel⟩
  intro h
  have hsound := h.2.2.2.first.sound
  revert hsound
  decide +kernel

end Dotqoo.Capture
