import Dotqoo.Client.Commands
import Dotqoo.Lib.Parts
import Dotqoo.Wire.Posted
import Dotqoo.Wire.Topic

/-!
# The network: boxes, broker, client

Any number of boxes post messages; the client asks for them and files what arrives; the
broker is between them. A state is a box for every index, the client, and for the
statements only what is in the client's table (`arrived`, which no step reads).

The broker promises little. It may hand over a posted message at any time and as often
as it likes, in any order, or not at all; and so with a request, which it hands to a box
if the topic is one that the box has subscribed to. The subscriptions of a box are those of
its connection (`cleansession` is set), so a box that is offline is not reached; a line may be
long on its way to the broker, so one that has connected since it was typed can be. Which
topics a filter lets through is a parameter with what MQTT says of it (`Broker`).

`arrived` tells where every row of the client's table is from: `NetInv` says that the
table is made of the messages since it was emptied last, that each of these was posted
by the box of its id, and that it shows the table of that box at a moment of its run.
-/

namespace Dotqoo.Wire

open Dotqoo.Lib Dotqoo.Table Dotqoo.Capture Dotqoo.Client Dotqoo.Config

/-- `BROADCST`. -/
def broadcst : CString := "NWSTAT/BROADCAST".toList

/-- The filter that `on_connect` subscribes to. -/
def autoFilter : List Char := "NWSTAT/AUTO/#".toList

/-- Which filters let which topics through. A filter without wildcards lets itself
through, and `#` all that is below a path. -/
structure Broker where
  routes : List Char → List Char → Bool
  exact : ∀ filter topic, '+' ∉ filter → '#' ∉ filter → (routes filter topic = true ↔ topic = filter)
  below : ∀ path rest, '+' ∉ path → '#' ∉ path → routes (path ++ "/#".toList) (path ++ '/' :: rest)

/-- What a box is besides its state: its build and options, an id of at most 19 characters,
for which both topics fit, and what it met when it started. -/
structure Device where
  platform : Platform
  config : Config
  id : DeviceId
  fits : id.text.length ≤ 19
  sendLast : Int
  lastTimestamp : Int
  connectedAt : Int
  connected : Bool

/-- The box as it starts. -/
def Device.boot (d : Device) : Box :=
  Capture.boot d.config d.sendLast d.lastTimestamp d.connectedAt d.connected

/-- A build with four-byte `long` and `time_t`. -/
def Device.Ilp32 (d : Device) : Prop :=
  d.platform.sizeofLong = 4 ∧ d.platform.sizeofTimeT = 4

/-- zlib, at the two ends. -/
def Device.Zlib (decompress : List UInt8 → Option (List UInt8)) (d : Device) : Prop :=
  SelfDelimiting d.platform.deflate decompress

/-- `my_send_topic`. -/
def Device.sendTopic (d : Device) : CString := Wire.sendTopic ++ d.id.text

/-- `my_retrieve_topic`. -/
def Device.retrieveTopic (d : Device) : CString := retrieve ++ d.id.text

/-- A message in the table of the client. -/
structure Arrival (ι : Type) where
  box : ι
  index : Nat
  boxid : Int
  data : Message

/-- The state of all. `listening` is that `loop_forever` has not ended. -/
structure Net (ι : Type) where
  box : ι → Box
  console : Console
  listening : Bool
  arrived : List (Arrival ι)

/-- What happens. -/
inductive NetEvent (ι : Type) where
  /-- A packet, a `tick` of the box's own clock, or a callback of its library. -/
  | box (i : ι) (ev : Event)
  /-- A line is typed. -/
  | command (line : List Char) (sent : Bool)
  /-- Request `k` is handed to a box, at the clock reading `t` of its callback. -/
  | request (i : ι) (k : Nat) (e : TickEnv) (t : Int)
  /-- Message `k` of a box is handed to the client. -/
  | deliver (i : ι) (k : Nat)

/-- The client: its modules, and its option. -/
structure Receiver where
  decompress : List UInt8 → Option (List UInt8)
  /-- Whether the library goes on when `on_message` has raised. -/
  suppress : Bool
  port : Bool

variable {ι : Type} [DecidableEq ι] (broker : Broker) (device : ι → Device) (receiver : Receiver)

/-- A request in the sense of `msgarrvd`, which is not the box's own. -/
def requested : Event → Bool
  | .tick _ send _ => send
  | _ => false

/-- The topic is one of the two that `connect_and_subscribe` subscribes to. -/
def Device.takes (d : Device) (topic : List Char) : Bool :=
  broker.routes broadcst topic || broker.routes d.retrieveTopic topic

/-- The box, as it is, has a subscription that lets the topic through. It has subscribed
since `MQTTClient_connect` succeeded, and has none without a connection. -/
def Device.subscribed (d : Device) (b : Box) (topic : List Char) : Bool :=
  b.mqtt.connection == .on && d.takes broker topic

/-- The event of box `i` in a step of the network. -/
def boxEvent (i : ι) (s : Net ι) : NetEvent ι → Option Event
  | .box j ev => if j = i ∧ requested ev = false then some ev else none
  | .request j k e t =>
    if j = i ∧ (s.console.requests[k]?).any ((device i).subscribed broker (s.box i)) then
      -- `msgarrvd`
      some (.tick e true t)
    else none
  | _ => none

/-- The client files a message, or raises. -/
def arrival (i : ι) (k : Nat) (post : Post) : Option (Arrival ι) :=
  match receiver.decompress post.payload, topicBoxid (device i).sendTopic with
  | some _, some boxid => some ⟨i, k, boxid, post.data⟩
  | _, _ => none

/-- A message is handed to the client. -/
def deliverPost (s : Net ι) (i : ι) (k : Nat) (post : Post) : Net ι :=
  let (globals, raised) := onMessage receiver.decompress receiver.port s.console.globals
    (device i).sendTopic post.payload
  { s with
    console := { s.console with globals := globals }
    listening := receiver.suppress || raised.isNone
    arrived := s.arrived ++ (arrival device receiver i k post).toList }

/-- A line that empties the globals. -/
def clears (line : List Char) : Bool := (requestTopic (readCommand line)).isSome

/-- One step. -/
def netStep (s : Net ι) (e : NetEvent ι) : Net ι :=
  let s := { s with
    box := fun i => run (step (device i).platform) (s.box i) (boxEvent broker device i s e).toList }
  match e with
  | .command line sent =>
    if s.console.running = true then
      { s with
        console := enterLine s.console line sent
        arrived := if clears line then [] else s.arrived }
    else s
  | .deliver i k =>
    match (posted (s.box i).mqtt.log)[k]? with
    | some post =>
      if s.console.running = true ∧ s.listening = true
          ∧ broker.routes autoFilter (device i).sendTopic then
        deliverPost device receiver s i k post
      else s
    | none => s
  | _ => s

/-- The start: every box has booted, the client has started. -/
def netStart : Net ι := ⟨fun i => (device i).boot, consoleStart, true, []⟩

/-- A run from the start. -/
def netRun (es : List (NetEvent ι)) : Net ι :=
  run (netStep broker device receiver) (netStart device) es

/-! ## A box in the network -/

section Boxes

variable {broker} {device} {receiver}

theorem box_netStep (s : Net ι) (e : NetEvent ι) (i : ι) :
    (netStep broker device receiver s e).box i
      = run (step (device i).platform) (s.box i) (boxEvent broker device i s e).toList := by
  cases e with
  | box j ev => rfl
  | request j k e t => rfl
  | command line sent =>
    rw [netStep]
    dsimp only
    split <;> rfl
  | deliver j k =>
    rw [netStep]
    dsimp only
    split
    next => split <;> rfl
    next => rfl

/-- **Every box is a part of the network.** -/
theorem box_isPart (i : ι) : IsPart (netStep broker device receiver)
    (step (device i).platform) (fun s => s.box i) (fun s e => boxEvent broker device i s e) :=
  fun s e => box_netStep s e i

/-- The events of box `i` in a run from the start. -/
abbrev boxEvents (broker : Broker) (device : ι → Device)
    (receiver : Receiver) (i : ι)
    (es : List (NetEvent ι)) : List Event :=
  seen (netStep broker device receiver) (boxEvent broker device i) (netStart device) es

theorem netRun_append (es fs : List (NetEvent ι)) : netRun broker device receiver (es ++ fs)
    = run (netStep broker device receiver) (netRun broker device receiver es) fs :=
  run_append _ _ _

/-- A box in a run of the network. -/
theorem box_netRun (i : ι) (es : List (NetEvent ι)) :
    (netRun broker device receiver es).box i = run (step (device i).platform) (device i).boot
      (boxEvents broker device receiver i es) :=
  (box_isPart i).view_run es (netStart device)

variable (broker receiver) in
/-- What is posted stays. -/
theorem posted_kept (hlong : ∀ i, (device i).Ilp32) (s : Net ι) (e : NetEvent ι) (i : ι) :
    posted (s.box i).mqtt.log
      <+: posted ((netStep broker device receiver s e).box i).mqtt.log := by
  rw [box_netStep]
  cases boxEvent broker device i s e with
  | none => exact List.prefix_refl _
  | some ev =>
    obtain ⟨hposts, hnot⟩ := posted_step (Or.inl (hlong i).1) (s.box i) ev
    show _ <+: posted (step (device i).platform (s.box i) ev).mqtt.log
    by_cases h : Posts (s.box i) ev
    · obtain ⟨post, -, heq⟩ := hposts h
      rw [heq]
      exact List.prefix_append _ _
    · rw [hnot h]

end Boxes

/-! ## The moment a message shows -/

/-- Every message of a run shows the table at a moment of the run: right behind the tick
of an event that posts. -/
theorem posted_run {pl : Platform} (hpl : pl.LongOk) : ∀ (evs : List Event) (b : Box),
    ∀ post ∈ posted (run (step pl) b evs).mqtt.log, post ∈ posted b.mqtt.log ∨
      ∃ before ev after, evs = before ++ ev :: after ∧ Posts (run (step pl) b before) ev ∧
        Shows pl (tickPart pl (run (step pl) b before) ev).history post
  | [], _, _, hpost => Or.inl hpost
  | ev :: evs, b, post, hpost => by
    rcases posted_run hpl evs (step pl b ev) post hpost with
      hold | ⟨before, ev', after, rfl, hs⟩
    · obtain ⟨hposts, hnot⟩ := posted_step hpl b ev
      by_cases h : Posts b ev
      · obtain ⟨new, hs, heq⟩ := hposts h
        rw [heq] at hold
        rcases List.mem_append.mp hold with hold | hold
        · exact Or.inl hold
        · rw [List.mem_singleton.mp hold]
          exact Or.inr ⟨[], ev, evs, rfl, h, hs⟩
      · rw [hnot h] at hold
        exact Or.inl hold
    · exact Or.inr ⟨ev :: before, ev', after, rfl, hs⟩

theorem posted_boot (d : Device) : posted d.boot.mqtt.log = [] :=
  congrArg (posted ∘ Mqtt.log) (initMqtt_eq d.connected d.connectedAt)

/-! ## The table of the client -/

/-- The call that a message led to. -/
def Arrival.call (a : Arrival ι) : Call := ⟨a.boxid, a.data.bytes⟩

/-- The message was posted by its box, and fitted. -/
structure Arrival.From (device : ι → Device) (s : Net ι) (a : Arrival ι) : Prop where
  posted : ∃ payload, (posted (s.box a.box).mqtt.log)[a.index]? = some ⟨a.data, payload⟩
  boxid : topicBoxid (device a.box).sendTopic = some a.boxid

/-- What holds of the client's table in every run. -/
structure NetInv (device : ι → Device) (receiver : Receiver) (s : Net ι) : Prop where
  shows : ∀ i, ∀ post ∈ posted (s.box i).mqtt.log, ∃ h, Shows (device i).platform h post
  table : s.console.globals.table = saveCalls receiver.port (s.arrived.map Arrival.call) emptyTable
  arrived : ∀ a ∈ s.arrived, a.From device s

section Invariant

variable {broker} {device} {receiver}

theorem Arrival.From.step (hlong : ∀ i, (device i).Ilp32) {s : Net ι} {a : Arrival ι}
    (h : a.From device s) (e : NetEvent ι) :
    a.From device (netStep broker device receiver s e) := by
  obtain ⟨⟨payload, hpost⟩, hboxid⟩ := h
  refine ⟨⟨payload, ?_⟩, hboxid⟩
  obtain ⟨rest, hrest⟩ := posted_kept broker receiver hlong s e a.box
  have hlt := (List.getElem?_eq_some_iff.mp hpost).1
  rw [← hrest, List.getElem?_append_left hlt, hpost]

omit [DecidableEq ι] in
/-- A message that is filed is an arrival, and the call of one. -/
theorem table_deliverPost (s : Net ι) {i : ι} (k : Nat) {h : History} {post : Post}
    (hs : Shows (device i).platform h post) (hlong : (device i).Ilp32)
    (hz : (device i).Zlib receiver.decompress) :
    (deliverPost device receiver s i k post).console.globals.table
      = saveCalls receiver.port ((arrival device receiver i k post).toList.map Arrival.call)
          s.console.globals.table := by
  obtain ⟨hfits, hcut⟩ := hs.decompress_eq (Or.inl hlong.1) hz
  by_cases hfit : post.Fits (device i).platform
  · rw [deliverPost, onMessage, arrival, hfits hfit]
    cases topicBoxid (device i).sendTopic with
    | none => rfl
    | some boxid => rfl
  · rw [deliverPost, onMessage, arrival, hcut hfit]
    rfl

omit [DecidableEq ι] in
theorem arrival_eq {i : ι} {k : Nat} {post : Post} {a : Arrival ι}
    (h : arrival device receiver i k post = some a) :
    ∃ boxid, topicBoxid (device i).sendTopic = some boxid ∧ a = ⟨i, k, boxid, post.data⟩ := by
  unfold arrival at h
  split at h
  next boxid _ hboxid => exact ⟨boxid, hboxid, (Option.some.inj h).symm⟩
  next => cases h

/-- A line leaves the table, or empties it. -/
theorem table_enterLine (c : Console) (line : List Char) (sent : Bool) :
    (enterLine c line sent).globals.table
      = if clears line then emptyTable else c.globals.table := by
  rw [clears, enterLine]
  cases readCommand line <;> rfl

variable (broker device receiver) in
theorem command_cases (s : Net ι) (line : List Char) (sent : Bool) :
    (s.console.running = true ∧ netStep broker device receiver s (.command line sent)
      = { s with
          console := enterLine s.console line sent
          arrived := if clears line then [] else s.arrived }) ∨
    (s.console.running ≠ true ∧ netStep broker device receiver s (.command line sent) = s) := by
  by_cases hrun : s.console.running = true
  · refine Or.inl ⟨hrun, ?_⟩
    simp only [netStep, hrun, if_true]
    rfl
  · refine Or.inr ⟨hrun, ?_⟩
    simp only [netStep, if_neg hrun]
    rfl

variable (broker device receiver) in
theorem deliver_cases (s : Net ι) (i : ι) (k : Nat) :
    netStep broker device receiver s (.deliver i k) = s ∨
    ∃ post, (posted (s.box i).mqtt.log)[k]? = some post ∧
      netStep broker device receiver s (.deliver i k) = deliverPost device receiver s i k post := by
  rw [netStep]
  dsimp only [boxEvent, Option.toList_none, run_nil]
  split
  next post hpost =>
    split
    next => exact Or.inr ⟨post, hpost, rfl⟩
    next => exact Or.inl rfl
  next => exact Or.inl rfl

theorem saveCalls_append (port : Bool) (calls calls' : List Call) (table : Table) :
    saveCalls port (calls ++ calls') table = saveCalls port calls' (saveCalls port calls table) :=
  List.foldl_append

/-- **One step keeps it.** -/
theorem NetInv.step (hlong : ∀ i, (device i).Ilp32)
    (hz : ∀ i, (device i).Zlib receiver.decompress) {s : Net ι}
    (h : NetInv device receiver s) (e : NetEvent ι) :
    NetInv device receiver (netStep broker device receiver s e) := by
  have hshows : ∀ i, ∀ post ∈ posted ((netStep broker device receiver s e).box i).mqtt.log,
      ∃ h, Shows (device i).platform h post := by
    intro i post hpost
    rw [box_netStep] at hpost
    rcases posted_run (Or.inl (hlong i).1) _ _ post hpost with
      hold | ⟨before, ev, after, -, -, hs⟩
    · exact h.shows i post hold
    · exact ⟨_, hs⟩
  have hfrom : ∀ a ∈ s.arrived, a.From device (netStep broker device receiver s e) :=
    fun a ha => (h.arrived a ha).step hlong e
  -- the table and what is in it
  suffices hclient : (netStep broker device receiver s e).console.globals.table
      = saveCalls receiver.port
          ((netStep broker device receiver s e).arrived.map Arrival.call) emptyTable ∧
      ∀ a ∈ (netStep broker device receiver s e).arrived,
        a.From device (netStep broker device receiver s e) from
    ⟨hshows, hclient.1, hclient.2⟩
  cases e with
  | box j ev => exact ⟨h.table, hfrom⟩
  | request j k e t => exact ⟨h.table, hfrom⟩
  | command line sent =>
    rcases command_cases broker device receiver s line sent with ⟨-, heq⟩ | ⟨-, heq⟩
    · rw [heq] at hfrom ⊢
      dsimp only at hfrom ⊢
      rw [table_enterLine]
      by_cases hclear : clears line = true
      · rw [if_pos hclear, if_pos hclear]
        exact ⟨rfl, fun a ha => absurd ha List.not_mem_nil⟩
      · rw [if_neg hclear, if_neg hclear]
        exact ⟨h.table, fun a ha => ⟨(hfrom a ha).posted, (hfrom a ha).boxid⟩⟩
    · rw [heq] at hfrom ⊢
      exact ⟨h.table, hfrom⟩
  | deliver j k =>
    rcases deliver_cases broker device receiver s j k with heq | ⟨post, hpost, heq⟩
    · rw [heq] at hfrom ⊢
      exact ⟨h.table, hfrom⟩
    · rw [heq] at hfrom ⊢
      obtain ⟨t, ht⟩ := h.shows j post (List.mem_of_getElem? hpost)
      have harrived : (deliverPost device receiver s j k post).arrived
          = s.arrived ++ (arrival device receiver j k post).toList := rfl
      refine ⟨?_, fun a ha => ?_⟩
      · rw [harrived, table_deliverPost s k ht (hlong j) (hz j), List.map_append,
          saveCalls_append, ← h.table]
      · rw [harrived] at ha
        rcases List.mem_append.mp ha with ha | ha
        · exact hfrom a ha
        · obtain ⟨boxid, hboxid, rfl⟩ := arrival_eq (Option.mem_toList.mp ha)
          exact ⟨⟨post.payload, hpost⟩, hboxid⟩

omit [DecidableEq ι] in
theorem NetInv.start : NetInv device receiver (netStart device) where
  shows := fun i post hpost => by
    rw [netStart, posted_boot] at hpost
    exact absurd hpost List.not_mem_nil
  table := rfl
  arrived := fun a ha => absurd ha List.not_mem_nil

variable (broker) in
/-- What holds in every run. -/
theorem NetInv.run (hlong : ∀ i, (device i).Ilp32)
    (hz : ∀ i, (device i).Zlib receiver.decompress) (es : List (NetEvent ι)) :
    NetInv device receiver (netRun broker device receiver es) :=
  run_invariant (I := NetInv device receiver) (fun _ e h => h.step hlong hz e) es NetInv.start

end Invariant

end Dotqoo.Wire
