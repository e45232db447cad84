import Dotqoo.Capture.Encode

/-!
# `mqtt.c`: the publishing state machine

The box keeps one message in two heap buffers, `data` (the records) and `out`
(the compressed form), and a small state around it: `status`, `connection`, and
the two tokens that say which message the library was given and which one it
last confirmed. The functions below are those of mqtt.c that touch this state.

What the MQTT library does is an input: whether `MQTTClient_connect` succeeds,
and what `MQTTClient_publishMessage` returns (`some token` on success, `none`
for an error, which leaves `token` alone). `inflight` is the library's side of
it: the tokens published on the current connection and not yet confirmed.

A pointer is `null`, `live` with the contents it owns, or `released`; `free`
of a pointer that is not live and an allocation over a live one do not stop the
model, they are written to `log`, which also records the messages built and
every publish call. The log is not read by any function.

The device id, the topics, the subscriptions and the printed text are left out:
no function here depends on them.
-/

namespace Dotqoo.Capture

open Dotqoo.Table

/-- `mqtt_status_enum`. -/
inductive MqttStatus where
  | init
  | lost
  | pending
  | complete
  deriving DecidableEq, Repr

/-- `mqtt_connect_enum`. -/
inductive MqttConnect where
  | on
  | off
  deriving DecidableEq, Repr

/-- A pointer to a heap buffer. -/
inductive Buffer (α : Type) where
  | null
  | live (contents : α)
  | released

def Buffer.isLive {α : Type} : Buffer α → Bool
  | .live _ => true
  | _ => false

/-- What a `data` buffer holds: the bytes, and how they came about. -/
structure Message where
  slots : List Node
  bytes : List UInt8
  cursor : Nat
  overrun : Bool

/-- The two buffers of mqtt.c. -/
inductive Pointer where
  | data
  | out
  deriving DecidableEq, Repr

/-- What the log records. -/
inductive Action where
  /-- An allocation is stored in `p`, which was still `owned` a live buffer. -/
  | alloc (p : Pointer) (owned : Bool)
  /-- `free(p)`, with `p` live or not. -/
  | free (p : Pointer) (live : Bool)
  | built (msg : Message)
  | publish (result : Option Int) (data : Buffer Message) (payload : List UInt8)
  | confirmed (token : Int)
  | connectionLost

/-- The globals of mqtt.c, the library's `inflight`, and the log. -/
structure Mqtt where
  status : MqttStatus
  connection : MqttConnect
  token : Int
  deliveredtoken : Int
  data : Buffer Message
  out : Buffer (List UInt8)
  msgLen : Nat
  compressedSize : Nat
  lastTry : Int
  inflight : List Int
  log : List Action

/-- `RECONNECT_INTERVAL`. -/
def reconnectInterval : Int := 120

/-- `free(data)`. -/
def Mqtt.freeData (m : Mqtt) : Mqtt :=
  { m with data := .released, log := m.log ++ [.free .data m.data.isLive] }

/-- `free(out)`. -/
def Mqtt.freeOut (m : Mqtt) : Mqtt :=
  { m with out := .released, log := m.log ++ [.free .out m.out.isLive] }

/-- `connect_and_subscribe`; `connected` is the outcome of `MQTTClient_connect`. -/
def connectAndSubscribe (connected : Bool) (m : Mqtt) : Int × Mqtt :=
  -- `out` and `deliveredtoken` stay as they are
  let m := if m.status = .pending then { m.freeData with status := .init } else m
  if connected = false then (1, m) else (0, { m with connection := .on })

/-- `check_MQTT_connection`. -/
def checkMqttConnection (connected : Bool) (t : Int) (m : Mqtt) : Mqtt :=
  if m.connection = .off && t - m.lastTry > reconnectInterval then
    (connectAndSubscribe connected { m with lastTry := t }).2
  else m

/-- `compress_msg`: the output block has the size of the input, and `deflate`
writes into it what fits. -/
def compressMsg (pl : Platform) (msg : Message) (m : Mqtt) : Mqtt :=
  let compressed := (pl.deflate (msg.bytes.take m.msgLen)).take m.msgLen
  { m with
    out := .live (compressed ++ List.replicate (m.msgLen - compressed.length) 0)
    compressedSize := compressed.length
    log := m.log ++ [.alloc .out m.out.isLive] }

/-- `construct_MQTT_msg`; the first component is its return value. -/
def constructMqttMsg (pl : Platform) (around : AddrPair → Neighbours) (n : Nat) (h : History)
    (m : Mqtt) : Int × Mqtt :=
  if m.status = .pending || m.connection = .off then (1, m)
  else if n = 0 then (1, m)
  else
    let w := encodeTable pl around n h
    let msg : Message :=
      { slots := w.slots, bytes := w.block, cursor := w.current, overrun := w.overrun }
    (0, compressMsg pl msg
      { m with
        data := .live msg
        status := .pending
        msgLen := pl.structSize * n
        log := m.log ++ [.alloc .data m.data.isLive, .built msg] })

/-- The payload handed to the library: `compressed_size` bytes from `out`. -/
def Mqtt.payload (m : Mqtt) : List UInt8 :=
  match m.out with
  | .live bytes => bytes.take m.compressedSize
  | _ => []

/-- `MQTTClient_publishMessage(client, topic, &pubmsg, &token)`, whose return
value the source does not look at. -/
def publishMessage (result : Option Int) (m : Mqtt) : Mqtt :=
  match result with
  | some tk =>
    { m with
      token := tk
      inflight := m.inflight ++ [tk]
      log := m.log ++ [.publish (some tk) m.data m.payload] }
  | none => { m with log := m.log ++ [.publish none m.data m.payload] }

/-- `send_MQTT_msg`. -/
def sendMqttMsg (result : Option Int) (m : Mqtt) : Mqtt :=
  if m.connection = .off then Mqtt.freeOut (Mqtt.freeData { m with status := .complete })
  else publishMessage result { m with deliveredtoken := 0 }

/-- `check_status`. -/
def checkStatus (m : Mqtt) : Mqtt :=
  if m.deliveredtoken = m.token then
    { Mqtt.freeOut (Mqtt.freeData { m with
        deliveredtoken := 0
        log := m.log ++ [.confirmed m.token] }) with status := .complete }
  else m

/-- The callback `delivered`; the library has had the token confirmed. -/
def delivered (dt : Int) (m : Mqtt) : Mqtt :=
  { m with deliveredtoken := dt, inflight := m.inflight.erase dt }

/-- The callback `connlost`, at the clock reading `now`. Nothing is in flight on
the connection that comes next. -/
def connlost (now : Int) (connected : Bool) (m : Mqtt) : Mqtt :=
  (connectAndSubscribe connected
    { m with
      connection := .off
      lastTry := now
      inflight := []
      log := m.log ++ [.connectionLost] }).2

/-- The loop `while (status == MQTT_STATUS_PENDING) check_status();` of
`destory_MQTT`, for a number of rounds. -/
def destoryMqttLoop : Nat → Mqtt → Mqtt
  | 0, m => m
  | rounds + 1, m => if m.status = .pending then destoryMqttLoop rounds (checkStatus m) else m

/-- `init_MQTT`, on the globals as the program starts. -/
def initMqtt (connected : Bool) (now : Int) : Mqtt :=
  let m : Mqtt :=
    { status := .init, connection := .off, token := -1, deliveredtoken := 0, data := .null,
      out := .null, msgLen := 0, compressedSize := 0, lastTry := 0, inflight := [], log := [] }
  { (connectAndSubscribe connected m).2 with lastTry := now }

/-! ## What each function can do -/

/-- The globals as `init_MQTT` leaves them. -/
theorem initMqtt_eq (connected : Bool) (now : Int) : initMqtt connected now =
    { status := .init, connection := if connected then .on else .off, token := -1,
      deliveredtoken := 0, data := .null, out := .null, msgLen := 0, compressedSize := 0,
      lastTry := now, inflight := [], log := [] } := by
  cases connected <;> rfl

theorem connectAndSubscribe_idle {connected : Bool} {m : Mqtt} (h : m.status ≠ .pending) :
    (connectAndSubscribe connected m).2
      = { m with connection := if connected then .on else m.connection } := by
  unfold connectAndSubscribe
  rw [if_neg h]
  cases connected <;> rfl

theorem connectAndSubscribe_pending {connected : Bool} {m : Mqtt} (h : m.status = .pending) :
    (connectAndSubscribe connected m).2
      = { m.freeData with
          status := .init
          connection := if connected then .on else m.connection } := by
  unfold connectAndSubscribe
  rw [if_pos h]
  cases connected <;> rfl

/-- Connecting leaves the tokens alone, and nothing pending. -/
theorem connectAndSubscribe_tokens (connected : Bool) (m : Mqtt) :
    (connectAndSubscribe connected m).2.status ≠ .pending
      ∧ (connectAndSubscribe connected m).2.token = m.token
      ∧ (connectAndSubscribe connected m).2.inflight = m.inflight := by
  by_cases hp : m.status = .pending
  · rw [connectAndSubscribe_pending hp]
    exact ⟨by simp, rfl, rfl⟩
  · rw [connectAndSubscribe_idle hp]
    exact ⟨hp, rfl, rfl⟩

theorem checkMqttConnection_on {connected : Bool} {t : Int} {m : Mqtt} (h : m.connection = .on) :
    checkMqttConnection connected t m = m := by
  unfold checkMqttConnection
  rw [if_neg (by simp [h])]

/-- The check tries to connect, which it does with the connection off only, or
does nothing. -/
theorem checkMqttConnection_cases (connected : Bool) (t : Int) (m : Mqtt) :
    checkMqttConnection connected t m = m ∨
    (m.connection = .off ∧
      checkMqttConnection connected t m
        = (connectAndSubscribe connected { m with lastTry := t }).2) := by
  unfold checkMqttConnection
  split
  next h =>
    simp only [Bool.and_eq_true, decide_eq_true_eq] at h
    exact Or.inr ⟨h.1, rfl⟩
  next => exact Or.inl rfl

/-- The state after a message has been built. -/
def Mqtt.withMessage (m : Mqtt) (pl : Platform) (n : Nat) (msg : Message) : Mqtt :=
  compressMsg pl msg
    { m with
      data := .live msg
      status := .pending
      msgLen := pl.structSize * n
      log := m.log ++ [.alloc .data m.data.isLive, .built msg] }

/-- The message built from a table. -/
def messageOf (pl : Platform) (around : AddrPair → Neighbours) (n : Nat) (h : History) : Message :=
  { slots := (encodeTable pl around n h).slots
    bytes := (encodeTable pl around n h).block
    cursor := (encodeTable pl around n h).current
    overrun := (encodeTable pl around n h).overrun }

@[simp] theorem slots_messageOf (pl : Platform) (around : AddrPair → Neighbours) (n : Nat)
    (h : History) : (messageOf pl around n h).slots = approvedOf h.nodes :=
  (encodeTable_walk pl around n h).1

/-- The guard of `construct_MQTT_msg`. -/
def Mqtt.Ready (m : Mqtt) (n : Nat) : Prop :=
  m.status ≠ .pending ∧ m.connection = .on ∧ n ≠ 0

theorem constructMqttMsg_ready {pl : Platform} {around : AddrPair → Neighbours} {n : Nat}
    {h : History} {m : Mqtt} (hr : m.Ready n) :
    constructMqttMsg pl around n h m = (0, m.withMessage pl n (messageOf pl around n h)) := by
  unfold constructMqttMsg
  rw [if_neg (by simp [hr.1, hr.2.1]), if_neg hr.2.2]
  rfl

theorem constructMqttMsg_refused {pl : Platform} {around : AddrPair → Neighbours} {n : Nat}
    {h : History} {m : Mqtt} (hr : ¬ m.Ready n) : constructMqttMsg pl around n h m = (1, m) := by
  unfold constructMqttMsg
  split
  next => rfl
  next hg =>
    split
    next => rfl
    next hn =>
      refine absurd ⟨fun hp => hg (by simp [hp]), ?_, hn⟩ hr
      cases hc : m.connection with
      | on => rfl
      | off => exact absurd (by simp [hc]) hg

end Dotqoo.Capture
