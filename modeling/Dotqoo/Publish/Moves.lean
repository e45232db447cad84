import Dotqoo.Capture.Tick

/-!
# What one event does to the MQTT state

The MQTT state machine has many callers but few moves. A `tick` ends with
`check_status`, and what comes before it is nothing, an attempt to reconnect, or
a message built and handed to the library (`tick_mqtt`); every event is such a
`tick` or one of the two library callbacks (`step_mqtt`). The invariants of this
part of the development are proved for these moves and never unfold `tick`.

The middle of `tick` collapses because its guards exclude each other: a message
is built with the connection on only, so the reconnect that follows does
nothing and `send_MQTT_msg` takes its publishing branch.
-/

namespace Dotqoo.Capture

open Dotqoo.Table Dotqoo.Lib

/-- The arguments of the `tick` inside an event, if it has one. -/
def Event.tickArgs : Event → Option (TickEnv × Bool × Int)
  | .packet e _ _ => some (e.tick, false, e.t)
  | .tick e send t => some (e, send, t)
  | .delivered _ => none
  | .connlost _ _ => none

/-- What the library would answer to a publish call during the event. -/
def Event.offer (ev : Event) : Option Int := ev.tickArgs.bind fun args => args.1.publish

/-- The token an event confirms. -/
def Event.confirms : Event → Option Int
  | .delivered dt => some dt
  | _ => none

/-- Does the event lose the connection? -/
def Event.loses : Event → Bool
  | .connlost _ _ => true
  | _ => false

theorem Event.offer_of_args {ev : Event} {e : TickEnv} {send : Bool} {t : Int}
    (h : ev.tickArgs = some (e, send, t)) : ev.offer = e.publish := by
  rw [Event.offer, h]
  rfl

/-- The tokens of the successful publish calls. -/
def publishedTokens (log : List Action) : List Int :=
  log.filterMap fun
    | .publish result _ _ => result
    | _ => none

/-- A message is built and given to the library; `check_status` is still to come. -/
def Mqtt.sent (m : Mqtt) (pl : Platform) (n : Nat) (msg : Message) (result : Option Int) : Mqtt :=
  publishMessage result { m.withMessage pl n msg with deliveredtoken := 0 }

@[simp] theorem sent_status (m : Mqtt) (pl : Platform) (n : Nat) (msg : Message)
    (result : Option Int) : (m.sent pl n msg result).status = .pending := by
  cases result <;> rfl

@[simp] theorem sent_connection (m : Mqtt) (pl : Platform) (n : Nat) (msg : Message)
    (result : Option Int) : (m.sent pl n msg result).connection = m.connection := by
  cases result <;> rfl

@[simp] theorem sent_deliveredtoken (m : Mqtt) (pl : Platform) (n : Nat) (msg : Message)
    (result : Option Int) : (m.sent pl n msg result).deliveredtoken = 0 := by
  cases result <;> rfl

@[simp] theorem sent_token (m : Mqtt) (pl : Platform) (n : Nat) (msg : Message)
    (result : Option Int) : (m.sent pl n msg result).token = result.getD m.token := by
  cases result <;> rfl

@[simp] theorem sent_inflight (m : Mqtt) (pl : Platform) (n : Nat) (msg : Message)
    (result : Option Int) : (m.sent pl n msg result).inflight = m.inflight ++ result.toList := by
  cases result with
  | none => exact (List.append_nil m.inflight).symm
  | some tk => rfl

theorem sent_live (m : Mqtt) (pl : Platform) (n : Nat) (msg : Message) (result : Option Int) :
    (m.sent pl n msg result).data.isLive = true
      ∧ (m.sent pl n msg result).out.isLive = true := by
  cases result <;> exact ⟨rfl, rfl⟩

theorem sent_log (m : Mqtt) (pl : Platform) (n : Nat) (msg : Message) (result : Option Int) :
    (m.sent pl n msg result).log
      = m.log ++ [.alloc .data m.data.isLive, .built msg, .alloc .out m.out.isLive,
          .publish result (.live msg) (m.withMessage pl n msg).payload] := by
  have hlog : (m.sent pl n msg result).log
      = ((m.log ++ [.alloc .data m.data.isLive, .built msg]) ++ [.alloc .out m.out.isLive])
          ++ [.publish result (.live msg) (m.withMessage pl n msg).payload] := by
    cases result <;> rfl
  rw [hlog]
  simp only [List.append_assoc, List.cons_append, List.nil_append]

/-- The middle of `tick`: a message built and sent, or a look at the connection. -/
theorem tickMqtt_cases (pl : Platform) (e : TickEnv) (due : Bool) (t : Int) (size : Nat)
    (h : History) (m : Mqtt) :
    ((due = true ∧ m.Ready size) ∧ tickMqtt pl e due t size h m
        = m.sent pl size (messageOf pl e.around size h) e.publish) ∨
    (¬ (due = true ∧ m.Ready size) ∧
      tickMqtt pl e due t size h m = checkMqttConnection e.connect t m) := by
  unfold tickMqtt
  cases due with
  | false => exact Or.inr ⟨fun hc => absurd hc.1 (by simp), rfl⟩
  | true =>
    by_cases hr : m.Ready size
    · refine Or.inl ⟨⟨rfl, hr⟩, ?_⟩
      -- built with the connection on: no reconnect, and the publishing branch
      have hon : (m.withMessage pl size (messageOf pl e.around size h)).connection = .on := hr.2.1
      simp only [if_true, constructMqttMsg_ready hr]
      rw [checkMqttConnection_on hon, sendMqttMsg, if_neg (by simp [hon])]
      rfl
    · refine Or.inr ⟨fun hc => hr hc.2, ?_⟩
      simp only [if_true, constructMqttMsg_refused hr]
      rw [if_neg (by simp)]

/-- Does this `tick` come to the publish call? -/
def Box.Publishes (b : Box) (e : TickEnv) (send : Bool) (t : Int) : Prop :=
  b.rotates send t = true ∧ b.due send t = true
    ∧ b.mqtt.Ready (historyRotate b.config.options t e.stale b.history).size

/-- The MQTT state after a `tick`. A message that was sent shows the table as it
stands after the pass. -/
theorem tick_mqtt (pl : Platform) (e : TickEnv) (send : Bool) (t : Int) (b : Box) :
    (¬ b.Publishes e send t ∧ (tick pl e send t b).mqtt = checkStatus b.mqtt) ∨
    (¬ b.Publishes e send t ∧ b.mqtt.connection = .off ∧ (tick pl e send t b).mqtt
        = checkStatus (connectAndSubscribe e.connect { b.mqtt with lastTry := t }).2) ∨
    (b.Publishes e send t ∧ ∃ n, b.mqtt.Ready n ∧ (tick pl e send t b).mqtt
      = checkStatus (b.mqtt.sent pl n
          (messageOf pl e.around n (tick pl e send t b).history) e.publish)) := by
  by_cases hrot : b.rotates send t = true
  · have hmiddle : (tick pl e send t b).mqtt = checkStatus (tickMqtt pl e (b.due send t) t
        (historyRotate b.config.options t e.stale b.history).size
        (tick pl e send t b).history b.mqtt) := by
      rw [tick, if_pos hrot]
    rw [hmiddle]
    rcases tickMqtt_cases pl e (b.due send t) t
      (historyRotate b.config.options t e.stale b.history).size
      (tick pl e send t b).history b.mqtt with ⟨⟨hdue, hr⟩, hm⟩ | ⟨hno, hm⟩
    · rw [hm]
      exact Or.inr (Or.inr ⟨⟨hrot, hdue, hr⟩, _, hr, rfl⟩)
    · have hnot : ¬ b.Publishes e send t := fun hp => hno hp.2
      rw [hm]
      rcases checkMqttConnection_cases e.connect t b.mqtt with hc | ⟨hoff, hc⟩
      · rw [hc]
        exact Or.inl ⟨hnot, rfl⟩
      · rw [hc]
        exact Or.inr (Or.inl ⟨hnot, hoff, rfl⟩)
  · refine Or.inl ⟨fun hp => hrot hp.1, ?_⟩
    rw [tick, if_neg hrot]

/-- An event moves the MQTT state by its `tick`, or by its callback. -/
theorem step_mqtt (pl : Platform) (b : Box) (ev : Event) :
    (∃ e send t, ev.tickArgs = some (e, send, t) ∧ tickPart pl b ev = tick pl e send t b ∧
      (step pl b ev).mqtt = (tick pl e send t b).mqtt) ∨
    (∃ dt, ev = .delivered dt ∧ (step pl b ev).mqtt = delivered dt b.mqtt) ∨
    (∃ now connected, ev = .connlost now connected ∧
      (step pl b ev).mqtt = connlost now connected b.mqtt) := by
  cases ev with
  | packet e iptr hwDir =>
    exact Or.inl ⟨e.tick, false, e.t, rfl, rfl, handleIpPacket_mqtt pl e iptr hwDir b⟩
  | tick e send t => exact Or.inl ⟨e, send, t, rfl, rfl, rfl⟩
  | delivered dt => exact Or.inr (Or.inl ⟨dt, rfl, rfl⟩)
  | connlost now connected => exact Or.inr (Or.inr ⟨now, connected, rfl, rfl⟩)

/-! ## The messages built -/

/-- The messages a log says were built, in order. -/
def builtMessages (log : List Action) : List Message :=
  log.filterMap fun
    | .built msg => some msg
    | _ => none

theorem built_connectAndSubscribe (connected : Bool) (m : Mqtt) :
    builtMessages (connectAndSubscribe connected m).2.log = builtMessages m.log := by
  by_cases hp : m.status = .pending
  · rw [connectAndSubscribe_pending hp]
    simp [builtMessages, Mqtt.freeData]
  · rw [connectAndSubscribe_idle hp]

theorem built_checkStatus (m : Mqtt) :
    builtMessages (checkStatus m).log = builtMessages m.log := by
  unfold checkStatus
  split
  next => simp [builtMessages, Mqtt.freeOut, Mqtt.freeData]
  next => rfl

/-- An event builds no message, or one that shows the table after its tick. -/
theorem built_step (pl : Platform) (b : Box) (ev : Event) :
    builtMessages (step pl b ev).mqtt.log = builtMessages b.mqtt.log ∨
    ∃ msg, msg.slots = approvedOf (tickPart pl b ev).history.nodes ∧
      builtMessages (step pl b ev).mqtt.log = builtMessages b.mqtt.log ++ [msg] := by
  rcases step_mqtt pl b ev with ⟨e, send, t, -, hpart, hm⟩ | ⟨dt, -, hm⟩ | ⟨now, connected, -, hm⟩
  · rw [hm, hpart]
    rcases tick_mqtt pl e send t b with ⟨-, hm⟩ | ⟨-, -, hm⟩ | ⟨-, n, -, hm⟩
    · rw [hm, built_checkStatus]
      exact Or.inl rfl
    · rw [hm, built_checkStatus, built_connectAndSubscribe]
      exact Or.inl rfl
    · refine Or.inr ⟨_, slots_messageOf pl e.around n (tick pl e send t b).history, ?_⟩
      rw [hm, built_checkStatus, sent_log]
      simp [builtMessages]
  · rw [hm]
    exact Or.inl rfl
  · refine Or.inl ?_
    rw [hm, connlost, built_connectAndSubscribe]
    simp [builtMessages]

end Dotqoo.Capture
