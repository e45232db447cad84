import Dotqoo.Publish.Moves

/-!
# The two send buffers

`data` and `out` are allocated by `construct_MQTT_msg` and `compress_msg`, and
released in three places under three conditions: by `check_status` when the
confirmed token is the published one, by `send_MQTT_msg` with the connection
off, and by `connect_and_subscribe` when a message is pending. An `Action` is
sound when it releases a live buffer, or stores an allocation over a pointer
that owns none.

The three places do not fit together. `connect_and_subscribe` releases `data`
and leaves `out` alone, so the next message overwrites a live `out`; and a
confirmation that was noted before the connection went makes `check_status`
release `data` a second time. What saves a run is that the library's signals
come in time: the connection is not lost while a message is pending, and the
current token is confirmed while one is. `BufferInv` is the invariant of such
runs.
-/

namespace Dotqoo.Capture

open Dotqoo.Lib

/-- No release of a buffer that is not live, no allocation over a live one. -/
def Action.sound : Action → Bool
  | .alloc _ owned => !owned
  | .free _ live => live
  | _ => true

/-- What the library promises: tokens are positive, and a confirmation is for a
token it has given out. -/
def TokenContract (b : Box) (ev : Event) : Prop :=
  (∀ tk ∈ ev.offer, 0 < tk) ∧ (∀ dt ∈ ev.confirms, dt ∈ publishedTokens b.mqtt.log)

/-- The library's signal comes in time: the current token is confirmed with a
message pending, and the connection is lost with nothing pending. -/
def TimelySignal (b : Box) (ev : Event) : Prop :=
  (∀ dt ∈ ev.confirms, dt = b.mqtt.token → b.mqtt.status = .pending)
    ∧ (ev.loses = true → b.mqtt.status ≠ .pending)

instance (b : Box) (ev : Event) : Decidable (TokenContract b ev) :=
  inferInstanceAs (Decidable (_ ∧ _))

instance (b : Box) (ev : Event) : Decidable (TimelySignal b ev) :=
  inferInstanceAs (Decidable (_ ∧ _))

/-! ## The invariant -/

/-- All that was done to the buffers so far is sound; a pending message has both
buffers and the connection; and with nothing pending there is no buffer, and no
confirmation that `check_status` would act on. -/
structure BufferInv (m : Mqtt) : Prop where
  sound : ∀ a ∈ m.log, a.sound = true
  held : m.status = .pending →
    m.data.isLive = true ∧ m.out.isLive = true ∧ m.connection = .on
  idle : m.status ≠ .pending →
    m.data.isLive = false ∧ m.out.isLive = false ∧ m.deliveredtoken ≠ m.token
  token : m.token ≠ 0

theorem BufferInv.initMqtt (connected : Bool) (now : Int) :
    BufferInv (initMqtt connected now) := by
  rw [initMqtt_eq]
  refine ⟨fun a ha => absurd ha List.not_mem_nil, fun hp => absurd hp (by simp), fun _ => ?_, ?_⟩
  · exact ⟨rfl, rfl, by simp⟩
  · simp

/-- `check_status` releases both buffers of a pending message, or does nothing. -/
theorem BufferInv.checkStatus {m : Mqtt} (h : BufferInv m) : BufferInv (checkStatus m) := by
  unfold Capture.checkStatus
  split
  next hdone =>
    -- with nothing pending the tokens differ, so a message is pending
    have hp : m.status = .pending := by
      by_cases hp : m.status = .pending
      · exact hp
      · exact absurd hdone (h.idle hp).2.2
    obtain ⟨hdata, hout, -⟩ := h.held hp
    refine ⟨fun a ha => ?_, fun hc => absurd hc (by simp), fun _ => ⟨rfl, rfl, ?_⟩, h.token⟩
    · simp only [Mqtt.freeOut, Mqtt.freeData, List.mem_append, List.mem_singleton] at ha
      rcases ha with ((ha | rfl) | rfl) | rfl
      · exact h.sound a ha
      · rfl
      · exact hdata
      · exact hout
    · exact fun h0 => h.token h0.symm
  next => exact h

/-- A message is built over no buffer, and its token is not yet confirmed. -/
theorem BufferInv.sent {m : Mqtt} {pl : Platform} {n : Nat} {msg : Message} {result : Option Int}
    (h : BufferInv m) (hr : m.Ready n) (hpos : ∀ tk, result = some tk → 0 < tk) :
    BufferInv (m.sent pl n msg result) := by
  obtain ⟨hdata, hout, -⟩ := h.idle hr.1
  refine ⟨fun a ha => ?_, fun _ => ?_, fun hn => absurd (sent_status m pl n msg result) hn, ?_⟩
  · rw [sent_log, List.mem_append] at ha
    rcases ha with ha | ha
    · exact h.sound a ha
    · simp only [List.mem_cons, List.not_mem_nil, or_false] at ha
      rcases ha with rfl | rfl | rfl | rfl
      · simp [Action.sound, hdata]
      · rfl
      · simp [Action.sound, hout]
      · rfl
  · obtain ⟨hd, ho⟩ := sent_live m pl n msg result
    exact ⟨hd, ho, (sent_connection m pl n msg result).trans hr.2.1⟩
  · rw [sent_token]
    cases result with
    | none => exact h.token
    | some tk =>
      have := hpos tk rfl
      exact fun h0 => absurd this (by simp [show tk = 0 from h0])

/-- With nothing pending, connecting touches neither the buffers nor the tokens. -/
theorem BufferInv.reconnect {m m' : Mqtt} {connected : Bool} (h : BufferInv m)
    (hidle : m.status ≠ .pending) (hlog : ∀ a ∈ m'.log, a.sound = true)
    (hsame : m' = { m with
      connection := m'.connection, lastTry := m'.lastTry, inflight := m'.inflight, log := m'.log }) :
    BufferInv (connectAndSubscribe connected m').2 := by
  have hidle' : m'.status ≠ .pending := by
    rw [hsame]
    exact hidle
  rw [connectAndSubscribe_idle hidle']
  refine ⟨hlog, fun hp => absurd hp hidle', fun _ => ?_, ?_⟩
  · rw [hsame]
    exact h.idle hidle
  · rw [hsame]
    exact h.token

/-- One event, its signal in time, keeps the invariant. -/
theorem BufferInv.step {pl : Platform} {b : Box} {ev : Event} (h : BufferInv b.mqtt)
    (hlib : TokenContract b ev) (htime : TimelySignal b ev) :
    BufferInv (Capture.step pl b ev).mqtt := by
  rcases step_mqtt pl b ev with ⟨e, send, t, hev, -, hm⟩ | ⟨dt, rfl, hm⟩ | ⟨now, connected, rfl, hm⟩
  · rw [hm]
    rcases tick_mqtt pl e send t b with ⟨-, hm⟩ | ⟨-, hoff, hm⟩ | ⟨-, n, hr, hm⟩
    · rw [hm]
      exact h.checkStatus
    · -- a pending message has the connection, so none is pending here
      have hidle : b.mqtt.status ≠ .pending := by
        intro hp
        rw [(h.held hp).2.2] at hoff
        exact absurd hoff (by simp)
      rw [hm]
      exact BufferInv.checkStatus (h.reconnect hidle h.sound rfl)
    · rw [hm]
      refine (h.sent hr fun tk htk => hlib.1 tk ?_).checkStatus
      rw [Event.offer_of_args hev, htk]
      rfl
  · rw [hm]
    refine ⟨h.sound, h.held, fun hidle => ?_, h.token⟩
    -- with nothing pending, the confirmed token is not the current one
    obtain ⟨hd, ho, -⟩ := h.idle hidle
    exact ⟨hd, ho, fun hdt => hidle (htime.1 dt rfl hdt)⟩
  · rw [hm]
    refine h.reconnect (htime.2 rfl) (fun a ha => ?_) rfl
    rcases List.mem_append.mp ha with ha | ha
    · exact h.sound a ha
    · rw [List.mem_singleton.mp ha]
      rfl

/-- **The buffers live soundly while the signals come in time.** -/
theorem buffers_sound (pl : Platform) (b : Box) (evs : List Event) (connected : Bool) (now : Int)
    (hinit : b.mqtt = initMqtt connected now) (hlib : Along (step pl) TokenContract b evs)
    (htime : Along (step pl) TimelySignal b evs) :
    ∀ a ∈ (run (step pl) b evs).mqtt.log, a.sound = true := by
  have hstart : BufferInv b.mqtt := by
    rw [hinit]
    exact BufferInv.initMqtt connected now
  have hstep : ∀ (b : Box) (ev : Event), BufferInv b.mqtt → TokenContract b ev ∧ TimelySignal b ev →
      BufferInv (step pl b ev).mqtt := fun b ev h hok => h.step hok.1 hok.2
  exact (Along.invariant hstep (hlib.and htime) hstart).sound

/-- Two messages sent and confirmed, and the connection lost after that. -/
def calmRun : List Event :=
  [packetAt 10, sendAt 20 (some 1), .delivered 1, sendAt 21 none, sendAt 30 (some 2),
    .delivered 2, packetAt 31, .connlost 40 true]

theorem buffers_sound_calmRun :
    (run (step lp64) plainBox calmRun).mqtt.log.all Action.sound = true :=
  List.all_eq_true.mpr
    (buffers_sound lp64 plainBox calmRun true 0 rfl (by decide +kernel) (by decide +kernel))

/-- The confirmation is noted, then the connection is lost and found again. -/
def lateLossRun : List Event :=
  [packetAt 10, sendAt 20 (some 1), .delivered 1, .connlost 21 true, .tick (plainEnv none) false 22]

/-- The connection is lost before the confirmation, and another message is built. -/
def leakRun : List Event :=
  [packetAt 10, sendAt 20 (some 1), .connlost 21 true, sendAt 30 (some 2)]

/-- Both slips of `connect_and_subscribe`, on runs that keep the library's
contract: `data` is released twice, and a live `out` is overwritten. -/
theorem buffers_unsound :
    (Along (step lp64) TokenContract plainBox lateLossRun
      ∧ (run (step lp64) plainBox lateLossRun).mqtt.log.all Action.sound = false)
    ∧ (Along (step lp64) TokenContract plainBox leakRun
      ∧ (run (step lp64) plainBox leakRun).mqtt.log.all Action.sound = false) := by
  decide +kernel

end Dotqoo.Capture
