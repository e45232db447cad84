import Dotqoo.Capture.Packet
import Dotqoo.Capture.Mqtt
import Dotqoo.Lib.Runs

/-!
# The box: `tick`, `handle_ip_packet`, and the events that drive them

`Box` is the whole state of the capture program behind the options: the history
table, the totals, the two clocks of `tick`, and the MQTT state. Four things
happen to it: a packet is handled, `tick` is called (by the user interface, or
by the callback `msgarrvd` with `send = 1`), a publication is confirmed, the
connection is lost. Each is an `Event`, and `Box.step` performs one. An event
carries what the outside decides: the clock readings of `time(NULL)`, the
outcomes of the library calls, and the values the source reads without having
written them (`TickEnv`, `PacketEnv`).

`freed` collects the nodes whose records `history_rotate` has released; no
function reads it.
-/

namespace Dotqoo.Capture

open Dotqoo.Table Dotqoo.Lib

/-- The outside world during one `tick`. -/
structure TickEnv where
  /-- Does `approval` of a released record read non-zero? -/
  stale : Node → Bool
  /-- The bytes around a key in memory. -/
  around : AddrPair → Neighbours
  /-- The outcome of `MQTTClient_connect`, if it is called. -/
  connect : Bool
  /-- The outcome of `MQTTClient_publishMessage`, if it is called. -/
  publish : Option Int

/-- The outside world during one `handle_ip_packet`. -/
structure PacketEnv where
  tick : TickEnv
  /-- The reading `t = time(NULL)` at the start. -/
  t : Int
  /-- The reading of `history_create`, if it is called. -/
  created : Int
  /-- The uninitialised index `i`. -/
  i : Int
  /-- The verdict of a block list scan that leaves the array. -/
  wild : Bool

/-- The state of the box. -/
structure Box where
  config : Config
  sendLast : Int
  lastTimestamp : Int
  history : History
  historyTotals : HistoryType
  mqtt : Mqtt
  freed : List Node

/-- `tick` between `history_rotate` and the end of its block: build a message
if one is due, look after the connection, send what was built. -/
def tickMqtt (pl : Platform) (e : TickEnv) (due : Bool) (t : Int) (size : Nat) (h : History)
    (m : Mqtt) : Mqtt :=
  let built := if due then constructMqttMsg pl e.around size h m else (1, m)
  let m := checkMqttConnection e.connect t built.2
  -- msg_ready
  if built.1 = 0 then sendMqttMsg e.publish m else m

/-- The condition of `tick` under which it rotates the table. -/
def Box.rotates (b : Box) (send : Bool) (t : Int) : Bool :=
  send || t - b.lastTimestamp ≥ resolution

/-- The condition of `tick` under which it asks for a message. -/
def Box.due (b : Box) (send : Bool) (t : Int) : Bool :=
  (b.config.options.sendInterval != 0 && t - b.sendLast > b.config.options.sendInterval) || send

/-- `tick`. -/
def tick (pl : Platform) (e : TickEnv) (send : Bool) (t : Int) (b : Box) : Box :=
  if b.rotates send t then
    let r := historyRotate b.config.options t e.stale b.history
    let due := b.due send t
    { b with
      history := r.history
      freed := b.freed ++ r.freed
      sendLast := if due then t else b.sendLast
      mqtt := checkStatus (tickMqtt pl e due t r.size r.history b.mqtt)
      lastTimestamp := t }
  -- `check_status` stands behind the block: it runs on every call
  else { b with mqtt := checkStatus b.mqtt }

/-- The record after the accounting of a packet. -/
def accountRecord (iptr : Packet) (key : AddrPair) (t : Int) (ht : HistoryType) : HistoryType :=
  let len := (ipLen iptr).toUInt64
  let ht := { ht with lastUpdateTime := t }
  if ipSrc iptr = key.src then { ht with totalSent := ht.totalSent + len }
  else { ht with totalRecv := ht.totalRecv + len }

/-- `hash_find`, and `history_create` and `hash_insert` if that found nothing. -/
def findOrCreate (h : History) (key : AddrPair) (created : Int) : History :=
  match hf : hashFind h.toHashType key with
  | none => h.insert key (historyCreate created) hf
  | some _ => h

/-- The totals after the accounting of a packet. -/
def accountTotals (iptr : Packet) (direction : Direction) (totals : HistoryType) : HistoryType :=
  let len := (ipLen iptr).toUInt64
  match direction with
  | .incoming => { totals with totalRecv := totals.totalRecv + len }
  | .outgoing => { totals with totalSent := totals.totalSent + len }

/-- The accounting part of `handle_ip_packet`. -/
def account (iptr : Packet) (f : Flow) (t created : Int) (b : Box) : Box :=
  { b with
    history := (findOrCreate b.history f.key created).store f.key (accountRecord iptr f.key t)
    historyTotals := accountTotals iptr f.direction b.historyTotals }

/-- The flow under which a packet is accounted, if it is: the block list scan,
then everything up to the table. -/
def acceptedFlow (c : Config) (e : PacketEnv) (iptr : Packet) (hwDir : Int) : Option Flow :=
  if blocked c.options (ipP iptr) e.i e.wild then none else flowOf c iptr hwDir

/-- `handle_ip_packet`. -/
def handleIpPacket (pl : Platform) (e : PacketEnv) (iptr : Packet) (hwDir : Int) (b : Box) : Box :=
  let b := tick pl e.tick false e.t b
  match acceptedFlow b.config e iptr hwDir with
  | none => b
  | some f => account iptr f e.t e.created b

/-- What can happen to the box. -/
inductive Event where
  | packet (e : PacketEnv) (iptr : Packet) (hwDir : Int)
  | tick (e : TickEnv) (send : Bool) (t : Int)
  | delivered (dt : Int)
  | connlost (now : Int) (connected : Bool)

/-- One event. -/
def step (pl : Platform) (b : Box) : Event → Box
  | .packet e iptr hwDir => handleIpPacket pl e iptr hwDir b
  | .tick e send t => tick pl e send t b
  | .delivered dt => { b with mqtt := delivered dt b.mqtt }
  | .connlost now connected => { b with mqtt := connlost now connected b.mqtt }

/-- The box when the capture thread starts: `init_history`, then `init_MQTT`. -/
def boot (config : Config) (sendLast lastTimestamp connectedAt : Int) (connected : Bool) : Box where
  config := config
  sendLast := sendLast
  lastTimestamp := lastTimestamp
  history := KeyedTable.empty addrHash HistoryType
  historyTotals := HistoryType.zero
  mqtt := initMqtt connected connectedAt
  freed := []

/-! ## One event at a time -/

/-- The `tick` inside an event, as the event starts. -/
def tickPart (pl : Platform) (b : Box) : Event → Box
  | .packet e _ _ => tick pl e.tick false e.t b
  | .tick e send t => tick pl e send t b
  | .delivered _ => b
  | .connlost _ _ => b

/-- The tick part of an event is one `tick`, or nothing. -/
theorem tickPart_cases (pl : Platform) (b : Box) (ev : Event) :
    tickPart pl b ev = b ∨ ∃ e send t, tickPart pl b ev = tick pl e send t b := by
  cases ev with
  | packet e iptr hwDir => exact Or.inr ⟨e.tick, false, e.t, rfl⟩
  | tick e send t => exact Or.inr ⟨e, send, t, rfl⟩
  | delivered dt => exact Or.inl rfl
  | connlost now connected => exact Or.inl rfl

/-- A `tick` changes the table by rotating it, or not at all. -/
theorem tick_history (pl : Platform) (e : TickEnv) (send : Bool) (t : Int) (b : Box) :
    ((tick pl e send t b).history = b.history ∧ (tick pl e send t b).freed = b.freed) ∨
    ((tick pl e send t b).history = (historyRotate b.config.options t e.stale b.history).history ∧
      (tick pl e send t b).freed
        = b.freed ++ (historyRotate b.config.options t e.stale b.history).freed) := by
  unfold tick
  split
  next => exact Or.inr ⟨rfl, rfl⟩
  next => exact Or.inl ⟨rfl, rfl⟩

@[simp] theorem tick_config (pl : Platform) (e : TickEnv) (send : Bool) (t : Int) (b : Box) :
    (tick pl e send t b).config = b.config := by
  unfold tick
  split <;> rfl

@[simp] theorem tick_totals (pl : Platform) (e : TickEnv) (send : Bool) (t : Int) (b : Box) :
    (tick pl e send t b).historyTotals = b.historyTotals := by
  unfold tick
  split <;> rfl

/-- A packet that is not accepted is its tick and nothing more. -/
theorem handleIpPacket_none {pl : Platform} {e : PacketEnv} {iptr : Packet} {hwDir : Int} {b : Box}
    (h : acceptedFlow b.config e iptr hwDir = none) :
    handleIpPacket pl e iptr hwDir b = tick pl e.tick false e.t b := by
  unfold handleIpPacket
  simp only [tick_config, h]

/-- An accepted packet is its tick, then the accounting of its flow. -/
theorem handleIpPacket_some {pl : Platform} {e : PacketEnv} {iptr : Packet} {hwDir : Int} {b : Box}
    {f : Flow} (h : acceptedFlow b.config e iptr hwDir = some f) :
    handleIpPacket pl e iptr hwDir b
      = account iptr f e.t e.created (tick pl e.tick false e.t b) := by
  unfold handleIpPacket
  simp only [tick_config, h]

@[simp] theorem handleIpPacket_config (pl : Platform) (e : PacketEnv) (iptr : Packet) (hwDir : Int)
    (b : Box) : (handleIpPacket pl e iptr hwDir b).config = b.config := by
  cases h : acceptedFlow b.config e iptr hwDir with
  | none => rw [handleIpPacket_none h, tick_config]
  | some f =>
    rw [handleIpPacket_some h]
    exact tick_config pl e.tick false e.t b

@[simp] theorem step_config (pl : Platform) (b : Box) (ev : Event) :
    (step pl b ev).config = b.config := by
  cases ev with
  | packet e iptr hwDir => exact handleIpPacket_config pl e iptr hwDir b
  | tick e send t => exact tick_config pl e send t b
  | delivered dt => rfl
  | connlost now connected => rfl

/-- The options are fixed: nothing a run does changes them. -/
theorem run_config (pl : Platform) (b : Box) (evs : List Event) :
    (run (step pl) b evs).config = b.config := by
  induction evs generalizing b with
  | nil => rfl
  | cons ev evs ih => rw [run_cons, ih, step_config]

/-- A packet changes the MQTT state through its tick only. -/
theorem handleIpPacket_mqtt (pl : Platform) (e : PacketEnv) (iptr : Packet) (hwDir : Int)
    (b : Box) : (handleIpPacket pl e iptr hwDir b).mqtt = (tick pl e.tick false e.t b).mqtt := by
  cases h : acceptedFlow b.config e iptr hwDir with
  | none => rw [handleIpPacket_none h]
  | some f =>
    rw [handleIpPacket_some h]
    rfl

/-! ## The accounted record -/

@[simp] theorem accountRecord_approval (iptr : Packet) (key : AddrPair) (t : Int)
    (d : HistoryType) : (accountRecord iptr key t d).approval = d.approval := by
  unfold accountRecord
  split <;> rfl

@[simp] theorem accountRecord_createTime (iptr : Packet) (key : AddrPair) (t : Int)
    (d : HistoryType) : (accountRecord iptr key t d).createTime = d.createTime := by
  unfold accountRecord
  split <;> rfl

@[simp] theorem accountRecord_lastUpdateTime (iptr : Packet) (key : AddrPair) (t : Int)
    (d : HistoryType) : (accountRecord iptr key t d).lastUpdateTime = t := by
  unfold accountRecord
  split <;> rfl

/-- `hash_find` after find-or-create: the key is there, other keys are as before. -/
theorem mem_findOrCreate {h : History} {key : AddrPair} {created : Int} {n : Node} :
    n ∈ (findOrCreate h key created).nodes ↔
      n ∈ h.nodes ∨ (hashFind h.toHashType key = none ∧ n = ⟨key, historyCreate created⟩) := by
  unfold findOrCreate
  split
  next hf =>
    rw [h.mem_insert hf]
    simp [hf, or_comm]
  next r hf => simp [hf]

/-- The record a packet of the key is accounted to: the one in the table, or a
fresh one. -/
def recordFor (h : History) (key : AddrPair) (created : Int) : HistoryType :=
  (hashFind h.toHashType key).getD (historyCreate created)

theorem mem_findOrCreate_key {h : History} {key : AddrPair} {created : Int} {r : HistoryType} :
    (⟨key, r⟩ : Node) ∈ (findOrCreate h key created).nodes ↔ r = recordFor h key created := by
  rw [mem_findOrCreate, recordFor]
  cases hf : hashFind h.toHashType key with
  | none =>
    have hno : (⟨key, r⟩ : Node) ∉ h.nodes := fun hn => (h.hashFind_eq_none_iff).mp hf _ hn rfl
    simp [hno]
  | some r' =>
    have hmem := (h.hashFind_eq_some_iff).mp hf
    constructor
    · intro hr
      rcases hr with hr | ⟨hr, -⟩
      · have := h.eq_of_key hr hmem rfl
        simpa using congrArg HashNode.record this
      · exact absurd hr (by simp)
    · intro hr
      rw [show r = r' from hr]
      exact Or.inl hmem

/-- A node after the accounting: the flow's node, its record updated, or a node
of another key as it was. -/
theorem mem_account {iptr : Packet} {f : Flow} {t created : Int} {b : Box} {n : Node} :
    n ∈ (account iptr f t created b).history.nodes ↔
      (n ∈ b.history.nodes ∧ n.key ≠ f.key) ∨
      n = ⟨f.key, accountRecord iptr f.key t (recordFor b.history f.key created)⟩ := by
  show n ∈ ((findOrCreate b.history f.key created).store f.key
    (accountRecord iptr f.key t)).nodes ↔ _
  rw [KeyedTable.mem_store]
  constructor
  · intro hn
    rcases hn with ⟨hn, hk⟩ | ⟨r, hr, rfl⟩
    · rcases mem_findOrCreate.mp hn with hn' | ⟨-, rfl⟩
      · exact Or.inl ⟨hn', hk⟩
      · exact absurd rfl hk
    · rw [mem_findOrCreate_key.mp hr]
      exact Or.inr rfl
  · intro hn
    rcases hn with ⟨hn, hk⟩ | rfl
    · exact Or.inl ⟨mem_findOrCreate.mpr (Or.inl hn), hk⟩
    · exact Or.inr ⟨_, mem_findOrCreate_key.mpr rfl, rfl⟩

/-! ## The table, key by key -/

/-- `hash_find` after a pass: the record there was, settled. -/
theorem hashFind_historyRotate (o : Options) (t : Int) (stale : Node → Bool) (h : History)
    (key : AddrPair) :
    hashFind (historyRotate o t stale h).history.toHashType key
      = (hashFind h.toHashType key).bind (settle o t) := by
  ext d
  rw [KeyedTable.hashFind_eq_some_iff, mem_historyRotate, Option.bind_eq_some_iff]
  constructor
  · intro ⟨d', hd', hs⟩
    exact ⟨d', (h.hashFind_eq_some_iff).mpr hd', hs⟩
  · intro ⟨d', hd', hs⟩
    exact ⟨d', (h.hashFind_eq_some_iff).mp hd', hs⟩

/-- `hash_find` after a `tick`. -/
theorem hashFind_tick (pl : Platform) (e : TickEnv) (send : Bool) (t : Int) (b : Box)
    (key : AddrPair) :
    hashFind (tick pl e send t b).history.toHashType key =
      if b.rotates send t then
        (hashFind b.history.toHashType key).bind (settle b.config.options t)
      else hashFind b.history.toHashType key := by
  unfold tick
  split
  next => exact hashFind_historyRotate b.config.options t e.stale b.history key
  next => rfl

/-- The table has no record of the key, or has one the pass due at `t` removes. -/
def Box.missesKey (b : Box) (key : AddrPair) (t : Int) : Bool :=
  match hashFind b.history.toHashType key with
  | none => true
  | some d => b.rotates false t && !d.approval
      && (isShortConnection b.config.options d t || isLowTrafficConnection b.config.options d t)

/-- A packet with this key would be the first one of a record. -/
theorem missesKey_iff (pl : Platform) (e : TickEnv) (t : Int) (b : Box) (key : AddrPair) :
    b.missesKey key t = true ↔ hashFind (tick pl e false t b).history.toHashType key = none := by
  rw [hashFind_tick]
  unfold Box.missesKey
  cases hashFind b.history.toHashType key with
  | none => simp
  | some d =>
    by_cases hrot : b.rotates false t = true
    · simp [hrot, settle_eq_none_iff]
    · simp [hrot]

/-- `hash_find` after the accounting of a packet. -/
theorem hashFind_account_eq (iptr : Packet) (f : Flow) (t created : Int) (b : Box) (key : AddrPair) :
    hashFind (account iptr f t created b).history.toHashType key =
      if key = f.key then some (accountRecord iptr f.key t (recordFor b.history f.key created))
      else hashFind b.history.toHashType key := by
  ext d
  rw [KeyedTable.hashFind_eq_some_iff, mem_account]
  by_cases hk : key = f.key
  · subst hk
    simp [eq_comm]
  · simp [hk, KeyedTable.hashFind_eq_some_iff]

/-- A node after the tick of an event was there before, with the same counters
and times; it is approved if it was, or if it met the criteria. -/
theorem mem_tickPart {pl : Platform} {b : Box} {ev : Event} {n : Node}
    (hn : n ∈ (tickPart pl b ev).history.nodes) :
    ∃ d, (⟨n.key, d⟩ : Node) ∈ b.history.nodes
      ∧ n.record.totalSent = d.totalSent ∧ n.record.totalRecv = d.totalRecv
      ∧ n.record.createTime = d.createTime ∧ n.record.lastUpdateTime = d.lastUpdateTime
      ∧ (n.record.approval = true → d.approval = true ∨ meetsCriteria b.config.options d = true) := by
  rcases tickPart_cases pl b ev with hpart | ⟨e, send, t, hpart⟩
  · rw [hpart] at hn
    exact ⟨n.record, hn, rfl, rfl, rfl, rfl, Or.inl⟩
  · rw [hpart] at hn
    rcases tick_history pl e send t b with ⟨hh, -⟩ | ⟨hh, -⟩
    · rw [hh] at hn
      exact ⟨n.record, hn, rfl, rfl, rfl, rfl, Or.inl⟩
    · -- the table was rotated: the node is a settled one
      rw [hh] at hn
      obtain ⟨d, hd, hs⟩ := mem_historyRotate.mp hn
      exact ⟨d, hd, settle_some hs⟩

/-! ## A small box

An LP64 box with the connection on, the TCP packet it is shown, and a benign
environment; the fixed runs of the development are made of these. -/

/-- An LP64 build, and a `deflate` that shrinks everything to one byte. -/
def lp64 : Platform where
  sizeofLong := 8
  sizeofTimeT := 8
  deflate := fun bytes => bytes.take 1

/-- No net filter, nothing blocked or ignored, and a threshold of 0 bytes. -/
def plainConfig : Config where
  options :=
    { promiscuousButChoosy := false, netfilter := false, netfilternet := 0, netfiltermask := 0,
      historyDeleteInterval := 60, threshold := 0, duration := 0, blockProtocols := [-1],
      sendInterval := 0 }
  portList := storePortList []
  haveIpAddr := false
  ifIpAddr := 0

/-- 40 bytes of TCP from 10.0.0.1:1000 to 172.16.0.2:80. -/
def tcpPacket : Packet :=
  [0x45, 0, 0, 40, 0, 0, 0, 0, 64, 6, 0, 0, 10, 0, 0, 1, 172, 16, 0, 2, 0x03, 0xe8, 0, 80]

/-- The box is up, and the connection with it. -/
def plainBox : Box := boot plainConfig 0 0 0 true

/-- Freed records read as zero, memory around keys is zero, connecting works. -/
def plainEnv (publish : Option Int) : TickEnv where
  stale := fun _ => false
  around := fun _ => ⟨0, 0⟩
  connect := true
  publish := publish

/-- The packet arrives at `t`, its hardware addresses naming us as the source. -/
def packetAt (t : Int) : Event :=
  .packet { tick := plainEnv none, t := t, created := t, i := 0, wild := false } tcpPacket 1

/-- A requested message at `t`, with the library's answer. -/
def sendAt (t : Int) (publish : Option Int) : Event := .tick (plainEnv publish) true t

end Dotqoo.Capture
