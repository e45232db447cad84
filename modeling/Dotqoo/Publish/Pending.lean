import Dotqoo.Publish.Moves

/-!
# The way out of PENDING

`status == MQTT_STATUS_PENDING` is the program's belief that a message is on its
way. It is set by `construct_MQTT_msg`, before the message is handed to the
library, and it ends when `check_status` sees `deliveredtoken == token`. The
library's side of the story is `inflight`, and the two are tied together by a
machine of three phases:

    idle --(publish)--> waiting --(delivered)--> confirmed --(check_status)--> idle

with a lost connection leading back to idle from anywhere. `PendingInv` says
that the state is in one of the phases, and in every phase there is a way out.

The one call that leaves the machine is a publish call that fails:
`send_MQTT_msg` does not look at its return value, so the message counts as
pending while nothing is in flight. That state is `Stuck`. No later message is
built, the loop of `destory_MQTT` does not end (`Stuck.loop`), and only the loss
of the connection helps (`Stuck.step`). `wayOut_iff` says that this is the
only way to get there.
-/

namespace Dotqoo.Capture

open Dotqoo.Lib

/-- What the library promises about tokens: a new one is positive and was not
given out before, and a confirmation is for a message in flight. -/
def FlightContract (b : Box) (ev : Event) : Prop :=
  (∀ tk ∈ ev.offer, 0 < tk ∧ tk ∉ publishedTokens b.mqtt.log)
    ∧ (∀ dt ∈ ev.confirms, dt ∈ b.mqtt.inflight)

/-- The event makes a publish call, and the call fails. -/
def PublishFails (b : Box) (ev : Event) : Prop :=
  ∃ e send t, ev.tickArgs = some (e, send, t) ∧ b.Publishes e send t ∧ e.publish = none

/-- A pending message is in flight on the connection, or it has been confirmed
and waits for `check_status`. -/
def Mqtt.WayOut (m : Mqtt) : Prop :=
  m.status = .pending →
    m.connection = .on ∧ (m.token ∈ m.inflight ∨ m.deliveredtoken = m.token)

/-- A message counts as pending, nothing is in flight, and the loop of
`destory_MQTT` goes on however often it turns. -/
def Mqtt.Spins (m : Mqtt) : Prop :=
  m.inflight = [] ∧ ∀ rounds, (destoryMqttLoop rounds m).status = .pending

instance (b : Box) (ev : Event) : Decidable (FlightContract b ev) :=
  inferInstanceAs (Decidable (_ ∧ _))

instance (m : Mqtt) : Decidable m.WayOut := inferInstanceAs (Decidable (_ → _))

/-! ## The three phases -/

/-- The life of a message, as the program and the library see it together. -/
inductive Phase where
  | idle
  | waiting
  | confirmed

/-- The state of the globals in each phase. -/
def Mqtt.InPhase (m : Mqtt) : Phase → Prop
  | .idle => m.status ≠ .pending ∧ m.inflight = []
  | .waiting =>
    m.status = .pending ∧ m.connection = .on ∧ m.inflight = [m.token]
      ∧ m.deliveredtoken ≠ m.token
  | .confirmed =>
    m.status = .pending ∧ m.connection = .on ∧ m.inflight = [] ∧ m.deliveredtoken = m.token

/-- The state is in a phase, and `token` is no longer the 0 of `deliveredtoken`. -/
structure PendingInv (m : Mqtt) : Prop where
  token : m.token ≠ 0
  phase : ∃ p, m.InPhase p

theorem PendingInv.initMqtt (connected : Bool) (now : Int) :
    PendingInv (initMqtt connected now) := by
  rw [initMqtt_eq]
  exact ⟨by simp, .idle, by simp, rfl⟩

theorem PendingInv.wayOut {m : Mqtt} (h : PendingInv m) : m.WayOut := by
  intro hp
  obtain ⟨p, hph⟩ := h.phase
  cases p with
  | idle => exact absurd hp hph.1
  | waiting =>
    obtain ⟨-, hon, hin, -⟩ := hph
    exact ⟨hon, Or.inl (by simp [hin])⟩
  | confirmed =>
    obtain ⟨-, hon, -, hd⟩ := hph
    exact ⟨hon, Or.inr hd⟩

/-- With nothing pending, nothing is in flight. -/
theorem PendingInv.inflight_of_idle {m : Mqtt} (h : PendingInv m) (hidle : m.status ≠ .pending) :
    m.inflight = [] := by
  obtain ⟨p, hph⟩ := h.phase
  cases p with
  | idle => exact hph.2
  | waiting => exact absurd hph.1 hidle
  | confirmed => exact absurd hph.1 hidle

/-- `check_status` ends the confirmed phase and leaves the others. -/
theorem PendingInv.checkStatus {m : Mqtt} (h : PendingInv m) : PendingInv (checkStatus m) := by
  unfold Capture.checkStatus
  split
  next hd =>
    obtain ⟨p, hph⟩ := h.phase
    refine ⟨h.token, .idle, by simp, ?_⟩
    cases p with
    | idle => exact hph.2
    | waiting => exact absurd hd hph.2.2.2
    | confirmed => exact hph.2.2.1
  next => exact h

/-- A message handed over starts to wait. -/
theorem PendingInv.sent {m : Mqtt} {pl : Platform} {n : Nat} {msg : Message} {tk : Int}
    (h : PendingInv m) (hr : m.Ready n) (hpos : 0 < tk) :
    PendingInv (m.sent pl n msg (some tk)) := by
  have hin : m.inflight = [] := h.inflight_of_idle hr.1
  have htoken : (m.sent pl n msg (some tk)).token = tk := sent_token m pl n msg (some tk)
  refine ⟨by omega, .waiting, sent_status m pl n msg _, ?_, ?_, ?_⟩
  · rw [sent_connection]
    exact hr.2.1
  · rw [sent_inflight, hin, htoken]
    rfl
  · rw [sent_deliveredtoken, htoken]
    omega

/-- An attempt to connect, made with nothing in flight, ends in the idle phase. -/
theorem PendingInv.reconnect {m m' : Mqtt} {connected : Bool} (h : PendingInv m)
    (htoken : m'.token = m.token) (hin : m'.inflight = []) :
    PendingInv (connectAndSubscribe connected m').2 := by
  obtain ⟨hs, ht, hf⟩ := connectAndSubscribe_tokens connected m'
  refine ⟨?_, .idle, hs, hf.trans hin⟩
  rw [ht, htoken]
  exact h.token

/-- One event whose publish call, if it makes one, succeeds. -/
theorem PendingInv.step {pl : Platform} {b : Box} {ev : Event} (h : PendingInv b.mqtt)
    (hlib : FlightContract b ev) (hok : ¬ PublishFails b ev) :
    PendingInv (Capture.step pl b ev).mqtt := by
  rcases step_mqtt pl b ev with ⟨e, send, t, hev, -, hm⟩ | ⟨dt, rfl, hm⟩ | ⟨now, connected, rfl, hm⟩
  · rw [hm]
    rcases tick_mqtt pl e send t b with ⟨-, hm⟩ | ⟨-, hoff, hm⟩ | ⟨hpub, n, hr, hm⟩
    · rw [hm]
      exact h.checkStatus
    · -- the connection is off, so the phase is idle
      obtain ⟨p, hph⟩ := h.phase
      cases p with
      | idle =>
        rw [hm]
        exact PendingInv.checkStatus (h.reconnect rfl hph.2)
      | waiting => exact absurd (hph.2.1.symm.trans hoff) (by simp)
      | confirmed => exact absurd (hph.2.1.symm.trans hoff) (by simp)
    · cases htk : e.publish with
      | none => exact absurd ⟨e, send, t, hev, hpub, htk⟩ hok
      | some tk =>
        have hoffer : tk ∈ ev.offer := by
          rw [Event.offer_of_args hev, htk]
          rfl
        rw [hm, htk]
        exact (h.sent hr (hlib.1 tk hoffer).1).checkStatus
  · have hdt : dt ∈ b.mqtt.inflight := hlib.2 dt rfl
    obtain ⟨p, hph⟩ := h.phase
    rw [hm]
    cases p with
    | idle =>
      rw [hph.2] at hdt
      exact absurd hdt List.not_mem_nil
    | waiting =>
      -- the message in flight is the one of `token`
      obtain ⟨hp, hon, hin, -⟩ := hph
      rw [hin, List.mem_singleton] at hdt
      refine ⟨h.token, .confirmed, hp, hon, ?_, hdt⟩
      show b.mqtt.inflight.erase dt = []
      rw [hin, hdt, List.erase_cons_head]
    | confirmed =>
      rw [hph.2.2.1] at hdt
      exact absurd hdt List.not_mem_nil
  · rw [hm]
    exact h.reconnect rfl rfl

/-! ## A failed publish call -/

/-- A message is pending that was never handed over. -/
structure Stuck (m : Mqtt) : Prop where
  token : m.token ≠ 0
  status : m.status = .pending
  connection : m.connection = .on
  inflight : m.inflight = []
  waits : m.deliveredtoken ≠ m.token

theorem Stuck.checkStatus {m : Mqtt} (h : Stuck m) : checkStatus m = m := by
  unfold Capture.checkStatus
  rw [if_neg h.waits]

/-- The loop of `destory_MQTT` turns in place. -/
theorem Stuck.loop {m : Mqtt} (h : Stuck m) : ∀ rounds, destoryMqttLoop rounds m = m
  | 0 => rfl
  | rounds + 1 => by
    rw [destoryMqttLoop, if_pos h.status, h.checkStatus, h.loop rounds]

theorem Stuck.not_wayOut {m : Mqtt} (h : Stuck m) : ¬ m.WayOut := by
  intro hw
  rcases (hw h.status).2 with hin | hd
  · rw [h.inflight] at hin
    exact absurd hin List.not_mem_nil
  · exact h.waits hd

/-- A failed publish call, from a state in order. -/
theorem PendingInv.stuck {pl : Platform} {b : Box} {ev : Event} (h : PendingInv b.mqtt)
    (hfail : PublishFails b ev) : Stuck (Capture.step pl b ev).mqtt := by
  obtain ⟨e, send, t, hev, hpub, hnone⟩ := hfail
  -- the guard of `construct_MQTT_msg` passed, so the phase was idle
  have hin : b.mqtt.inflight = [] := h.inflight_of_idle hpub.2.2.1
  rcases step_mqtt pl b ev with ⟨e', send', t', hev', -, hm⟩ | ⟨dt, rfl, -⟩ | ⟨now, c, rfl, -⟩
  · obtain ⟨rfl, rfl, rfl⟩ : e = e' ∧ send = send' ∧ t = t' := by
      simpa using Option.some.inj (hev.symm.trans hev')
    rcases tick_mqtt pl e send t b with ⟨hno, -⟩ | ⟨hno, -, -⟩ | ⟨-, n, hr, hsent⟩
    · exact absurd hpub hno
    · exact absurd hpub hno
    · have hstuck : Stuck (b.mqtt.sent pl n
          (messageOf pl e.around n (Capture.tick pl e send t b).history) none) := by
        refine ⟨?_, sent_status _ _ _ _ _, ?_, ?_, ?_⟩
        · rw [sent_token]
          exact h.token
        · rw [sent_connection]
          exact hr.2.1
        · rw [sent_inflight, hin]
          rfl
        · rw [sent_deliveredtoken, sent_token]
          exact fun h0 => h.token h0.symm
      rw [hm, hsent, hnone, hstuck.checkStatus]
      exact hstuck
  · exact absurd hev (by simp [Event.tickArgs])
  · exact absurd hev (by simp [Event.tickArgs])

/-- Until the connection is lost, no event that keeps the library's contract
leads out, and no message is built. -/
theorem Stuck.step {pl : Platform} {b : Box} {ev : Event} (h : Stuck b.mqtt)
    (hlib : FlightContract b ev) (hkeep : ev.loses = false) :
    (Capture.step pl b ev).mqtt = b.mqtt := by
  rcases step_mqtt pl b ev with ⟨e, send, t, -, -, hm⟩ | ⟨dt, rfl, -⟩ | ⟨now, c, rfl, -⟩
  · rw [hm]
    rcases tick_mqtt pl e send t b with ⟨-, hm⟩ | ⟨-, hoff, -⟩ | ⟨hpub, -⟩
    · rw [hm]
      exact h.checkStatus
    · exact absurd (h.connection.symm.trans hoff) (by simp)
    · exact absurd h.status hpub.2.2.1
  · have hdt : dt ∈ b.mqtt.inflight := hlib.2 dt rfl
    rw [h.inflight] at hdt
    exact absurd hdt List.not_mem_nil
  · exact absurd hkeep (by simp [Event.loses])

/-- A state with a way out does not spin: one round ends a confirmed message. -/
theorem Mqtt.WayOut.not_spins {m : Mqtt} (h : m.WayOut) : ¬ m.Spins := by
  intro hs
  have hp : m.status = .pending := hs.2 0
  rcases (h hp).2 with hin | hd
  · rw [hs.1] at hin
    exact absurd hin List.not_mem_nil
  · have hone : (destoryMqttLoop 1 m).status = .complete := by
      rw [destoryMqttLoop, if_pos hp, destoryMqttLoop, checkStatus, if_pos hd]
    exact absurd ((hs.2 1).symm.trans hone) (by simp)

/-- From a state in order, the whole run has its way out exactly if no publish
call of the run fails. -/
theorem PendingInv.throughout_iff {pl : Platform} : ∀ {evs : List Event} {b : Box},
    PendingInv b.mqtt → Along (Capture.step pl) FlightContract b evs →
    (Throughout (Capture.step pl) (fun b => b.mqtt.WayOut ∧ ¬ b.mqtt.Spins) b evs ↔
      Along (Capture.step pl) (fun b ev => ¬ PublishFails b ev) b evs)
  | [], _, h, _ => ⟨fun _ => trivial, fun _ => ⟨h.wayOut, h.wayOut.not_spins⟩⟩
  | ev :: evs, b, h, hlib => by
    rw [Throughout, Along]
    by_cases hfail : PublishFails b ev
    -- a failed call spoils the very next state, so the rest of the run does not matter
    · refine ⟨fun hw => ?_, fun ha => absurd hfail ha.1⟩
      exact absurd hw.2.first.1 (h.stuck hfail).not_wayOut
    · have hnext : PendingInv (Capture.step pl b ev).mqtt := h.step hlib.1 hfail
      rw [hnext.throughout_iff hlib.2]
      exact ⟨fun hw => ⟨hfail, hw.2⟩, fun ha => ⟨⟨h.wayOut, h.wayOut.not_spins⟩, ha.2⟩⟩

/-- **PENDING has a way out exactly while no publish call fails.** -/
theorem wayOut_iff (pl : Platform) (b : Box) (evs : List Event) (connected : Bool) (now : Int)
    (hinit : b.mqtt = initMqtt connected now) (hlib : Along (step pl) FlightContract b evs) :
    Throughout (step pl) (fun b => b.mqtt.WayOut ∧ ¬ b.mqtt.Spins) b evs ↔
      Along (step pl) (fun b ev => ¬ PublishFails b ev) b evs := by
  have hstart : PendingInv b.mqtt := by
    rw [hinit]
    exact PendingInv.initMqtt connected now
  exact hstart.throughout_iff hlib

/-- A message sent and confirmed, the connection lost under the next one. -/
def deliveryRun : List Event :=
  [packetAt 10, sendAt 20 (some 1), .delivered 1, packetAt 21, sendAt 30 (some 2),
    .connlost 31 true, sendAt 40 (some 3)]

theorem wayOut_iff_deliveryRun :
    Throughout (step lp64) (fun b => b.mqtt.WayOut ∧ ¬ b.mqtt.Spins) plainBox deliveryRun ↔
      Along (step lp64) (fun b ev => ¬ PublishFails b ev) plainBox deliveryRun :=
  wayOut_iff lp64 plainBox deliveryRun true 0 rfl (by decide +kernel)

/-- The publish call fails, and the program waits for a message it has not sent. -/
def failedPublishRun : List Event := [packetAt 10, sendAt 20 none]

theorem wayOut_fails :
    Along (step lp64) FlightContract plainBox failedPublishRun
      ∧ ¬ (run (step lp64) plainBox failedPublishRun).mqtt.WayOut
      ∧ (run (step lp64) plainBox failedPublishRun).mqtt.Spins := by
  obtain ⟨hlib, ht, hs, hc, hin, hw⟩ :
      Along (step lp64) FlightContract plainBox failedPublishRun
      ∧ (run (step lp64) plainBox failedPublishRun).mqtt.token ≠ 0
      ∧ (run (step lp64) plainBox failedPublishRun).mqtt.status = .pending
      ∧ (run (step lp64) plainBox failedPublishRun).mqtt.connection = .on
      ∧ (run (step lp64) plainBox failedPublishRun).mqtt.inflight = []
      ∧ (run (step lp64) plainBox failedPublishRun).mqtt.deliveredtoken
          ≠ (run (step lp64) plainBox failedPublishRun).mqtt.token := by
    decide +kernel
  have hstuck : Stuck (run (step lp64) plainBox failedPublishRun).mqtt := ⟨ht, hs, hc, hin, hw⟩
  refine ⟨hlib, hstuck.not_wayOut, hin, fun rounds => ?_⟩
  rw [hstuck.loop]
  exact hs

end Dotqoo.Capture
