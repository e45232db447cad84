import Dotqoo.Flow.OneFlow
import Dotqoo.Lib.Timer
import Dotqoo.Publish.Moves

/-!
# The timers of the box

Three things are done at intervals: a pass over the table after `RESOLUTION` seconds, a
report after `options.send_interval`, and an attempt to connect after `RECONNECT_INTERVAL`.
Each has a variable for the time it was done last, which is looked at in `tick` only: the
pass comes first, and within a pass the other two.

A request makes `tick` do the first two at once, and a lost connection is followed by an
attempt of the library's thread. Both set the variable, so what is done unasked still comes
a whole interval behind (`timers_apart`). Nor does it come late: at the end of a `tick`
no timer has run out for more than the time between two passes (`timers_punctual`). For the
first report that takes a start-up no longer than the interval, as the first pass is 4
seconds behind `init_history` even if a report is due by then.
-/

namespace Dotqoo.Capture

open Dotqoo.Table Dotqoo.Lib

/-! ## What fires -/

/-- The condition of `check_MQTT_connection`, in a pass. -/
def Box.retries (b : Box) (send : Bool) (t : Int) : Bool :=
  b.rotates send t && (b.mqtt.connection = .off && t - b.mqtt.lastTry > reconnectInterval)

/-- What a `tick` does under a condition. -/
def Event.firesIf (ev : Event) (cond : Bool → Int → Bool) : Option Firing :=
  match ev.tickArgs with
  | some (_, send, t) => if cond send t then some ⟨send, t⟩ else none
  | none => none

/-- A pass over the table. -/
def Box.passes (b : Box) (ev : Event) : Option Firing := ev.firesIf b.rotates

/-- A pass that asks for a report. -/
def Box.reports (b : Box) (ev : Event) : Option Firing :=
  ev.firesIf fun send t => b.rotates send t && b.due send t

/-- An attempt to connect: behind a lost connection, or of a pass, whoever asked for that. -/
def Box.connects (b : Box) : Event → Option Firing
  | .connlost now _ => some ⟨true, now⟩
  | ev => (ev.firesIf b.retries).map fun f => ⟨false, f.t⟩

/-! ## What a step does to the variables -/

theorem sendLast_tick (pl : Platform) (e : TickEnv) (send : Bool) (t : Int) (b : Box) :
    (tick pl e send t b).sendLast
      = if b.rotates send t && b.due send t then t else b.sendLast := by
  unfold tick
  by_cases hrot : b.rotates send t = true
  · rw [if_pos hrot, hrot, Bool.true_and]
  · rw [if_neg hrot, if_neg fun h => hrot (Bool.and_eq_true _ _ ▸ h).1]

@[simp] theorem checkStatus_lastTry (m : Mqtt) : (checkStatus m).lastTry = m.lastTry := by
  unfold checkStatus
  split <;> rfl

@[simp] theorem checkStatus_connection (m : Mqtt) : (checkStatus m).connection = m.connection := by
  unfold checkStatus
  split <;> rfl

@[simp] theorem sent_lastTry (m : Mqtt) (pl : Platform) (n : Nat) (msg : Message)
    (result : Option Int) : (m.sent pl n msg result).lastTry = m.lastTry := by
  cases result <;> rfl

@[simp] theorem connectAndSubscribe_lastTry (connected : Bool) (m : Mqtt) :
    (connectAndSubscribe connected m).2.lastTry = m.lastTry := by
  by_cases hp : m.status = .pending
  · rw [connectAndSubscribe_pending hp]
    rfl
  · rw [connectAndSubscribe_idle hp]

/-- A `tick` tries to connect, or leaves the connection as it is. -/
theorem connection_tick (pl : Platform) (e : TickEnv) (send : Bool) (t : Int) (b : Box) :
    if b.retries send t then (tick pl e send t b).mqtt.lastTry = t
    else (tick pl e send t b).mqtt.lastTry = b.mqtt.lastTry ∧
      (tick pl e send t b).mqtt.connection = b.mqtt.connection := by
  by_cases hrot : b.rotates send t = true
  · have hmiddle : (tick pl e send t b).mqtt = checkStatus (tickMqtt pl e (b.due send t) t
        (historyRotate b.config.options t e.stale b.history).size
        (tick pl e send t b).history b.mqtt) := by
      rw [tick, if_pos hrot]
    rw [hmiddle, Box.retries, hrot, Bool.true_and]
    rcases tickMqtt_cases pl e (b.due send t) t
      (historyRotate b.config.options t e.stale b.history).size
      (tick pl e send t b).history b.mqtt with ⟨⟨-, hr⟩, hm⟩ | ⟨-, hm⟩
    · -- a message is built with the connection on only
      rw [hm, hr.2.1, if_neg (by simp)]
      simp [hr.2.1]
    · rw [hm, checkMqttConnection]
      by_cases htry : (b.mqtt.connection = .off && t - b.mqtt.lastTry > reconnectInterval) = true
      · rw [if_pos htry, if_pos htry]
        simp
      · rw [if_neg htry, if_neg htry]
        simp
  · rw [Box.retries, if_neg fun h => hrot (Bool.and_eq_true _ _ ▸ h).1, tick, if_neg hrot]
    simp

/-- Of an event with a `tick`, the `tick` is all that touches the variables. -/
theorem step_of_tickArgs (pl : Platform) (b : Box) {ev : Event} {e : TickEnv} {send : Bool}
    {t : Int} (h : ev.tickArgs = some (e, send, t)) :
    (step pl b ev).lastTimestamp = (tick pl e send t b).lastTimestamp ∧
      (step pl b ev).sendLast = (tick pl e send t b).sendLast ∧
      (step pl b ev).mqtt = (tick pl e send t b).mqtt := by
  cases ev with
  | packet e' iptr hwDir =>
    cases h
    show (handleIpPacket pl e' iptr hwDir b).lastTimestamp = _ ∧
      (handleIpPacket pl e' iptr hwDir b).sendLast = _ ∧
      (handleIpPacket pl e' iptr hwDir b).mqtt = _
    cases hf : acceptedFlow b.config e' iptr hwDir with
    | none =>
      rw [handleIpPacket_none hf]
      exact ⟨rfl, rfl, rfl⟩
    | some f =>
      rw [handleIpPacket_some hf]
      exact ⟨rfl, rfl, rfl⟩
  | tick e' send' t' =>
    cases h
    exact ⟨rfl, rfl, rfl⟩
  | delivered dt => cases h
  | connlost now connected => cases h

theorem tickArgs_readings {ev : Event} {e : TickEnv} {send : Bool} {t : Int}
    (h : ev.tickArgs = some (e, send, t)) : t ∈ ev.readings := by
  cases ev with
  | packet e' iptr hwDir =>
    cases h
    exact List.mem_cons_self
  | tick e' send' t' =>
    cases h
    exact List.mem_cons_self
  | delivered dt => cases h
  | connlost now connected => cases h

/-- Without a `tick` the first two stay. -/
theorem step_of_no_tickArgs (pl : Platform) (b : Box) {ev : Event} (h : ev.tickArgs = none) :
    (step pl b ev).lastTimestamp = b.lastTimestamp ∧ (step pl b ev).sendLast = b.sendLast := by
  cases ev with
  | packet e iptr hwDir => cases h
  | tick e send t => cases h
  | delivered dt => exact ⟨rfl, rfl⟩
  | connlost now connected => exact ⟨rfl, rfl⟩

/-! ## Three timers -/

theorem firesIf_eq_some {ev : Event} {cond : Bool → Int → Bool} {f : Firing}
    (h : ev.firesIf cond = some f) :
    ∃ e, ev.tickArgs = some (e, f.asked, f.t) ∧ cond f.asked f.t = true := by
  unfold Event.firesIf at h
  cases hargs : ev.tickArgs with
  | none => simp [hargs] at h
  | some args =>
    simp only [hargs, Option.ite_none_right_eq_some, Option.some.injEq] at h
    obtain ⟨hcond, rfl⟩ := h
    exact ⟨args.1, rfl, hcond⟩

theorem firesIf_eq_none {ev : Event} {cond : Bool → Int → Bool} (h : ev.firesIf cond = none)
    {e : TickEnv} {send : Bool} {t : Int} (hargs : ev.tickArgs = some (e, send, t)) :
    ¬ cond send t = true := by
  intro hcond
  simp [Event.firesIf, hargs, hcond] at h

/-- The passes over the table. -/
theorem passes_timer (pl : Platform) : Timer (step pl) Event.readings (fun _ => True)
    Box.lastTimestamp Box.passes resolution where
  keeps _ _ h := h
  reading b ev f hf := by
    obtain ⟨e, hargs, -⟩ := firesIf_eq_some hf
    exact tickArgs_readings hargs
  fired b ev f _ hf := by
    obtain ⟨e, hargs, hrot⟩ := firesIf_eq_some hf
    rw [(step_of_tickArgs pl b hargs).1, lastTimestamp_tick, if_pos hrot]
    refine ⟨rfl, fun hsend => ?_⟩
    rw [hsend] at hrot
    have hgap : f.t - b.lastTimestamp ≥ resolution := by simpa [Box.rotates] using hrot
    omega
  idle b ev _ hf := by
    cases hargs : ev.tickArgs with
    | none => exact (step_of_no_tickArgs pl b hargs).1
    | some args =>
      rw [(step_of_tickArgs pl b hargs).1, lastTimestamp_tick, if_neg (firesIf_eq_none hf hargs)]

/-- The reports. -/
theorem reports_timer (pl : Platform) (c : Config) :
    Timer (step pl) Event.readings (fun b => b.config = c) Box.sendLast Box.reports
      (c.options.sendInterval + 1) where
  keeps b ev h := (step_config pl b ev).trans h
  reading b ev f hf := by
    obtain ⟨e, hargs, -⟩ := firesIf_eq_some hf
    exact tickArgs_readings hargs
  fired b ev f hc hf := by
    obtain ⟨e, hargs, hdue⟩ := firesIf_eq_some hf
    rw [(step_of_tickArgs pl b hargs).2.1, sendLast_tick, if_pos hdue]
    refine ⟨rfl, fun hsend => ?_⟩
    simp only [hsend, Box.due, Bool.or_false, Bool.and_eq_true, decide_eq_true_eq, hc] at hdue
    have hgap := hdue.2.2
    omega
  idle b ev _ hf := by
    cases hargs : ev.tickArgs with
    | none => exact (step_of_no_tickArgs pl b hargs).2
    | some args =>
      rw [(step_of_tickArgs pl b hargs).2.1, sendLast_tick, if_neg (firesIf_eq_none hf hargs)]

/-- An attempt is one of the library's, or one of a `tick`. -/
theorem connects_eq_some {b : Box} {ev : Event} {f : Firing} (h : b.connects ev = some f) :
    (∃ now connected, ev = .connlost now connected ∧ f = ⟨true, now⟩) ∨
    (∃ e send t, ev.tickArgs = some (e, send, t) ∧ b.retries send t = true ∧ f = ⟨false, t⟩) := by
  have htick : (ev.firesIf b.retries).map (fun f => (⟨false, f.t⟩ : Firing)) = some f →
      ∃ e send t, ev.tickArgs = some (e, send, t) ∧ b.retries send t = true ∧ f = ⟨false, t⟩ := by
    intro hmap
    obtain ⟨f', hf', rfl⟩ := Option.map_eq_some_iff.mp hmap
    obtain ⟨e, hargs, hretry⟩ := firesIf_eq_some hf'
    exact ⟨e, f'.asked, f'.t, hargs, hretry, rfl⟩
  cases ev with
  | packet e iptr hwDir => exact Or.inr (htick h)
  | tick e send t => exact Or.inr (htick h)
  | delivered dt => exact Or.inr (htick h)
  | connlost now connected => exact Or.inl ⟨now, connected, rfl, (Option.some.inj h).symm⟩

/-- An event without an attempt leaves the connection as it is. -/
theorem connection_of_not_connects (pl : Platform) {b : Box} {ev : Event}
    (h : b.connects ev = none) : (step pl b ev).mqtt.lastTry = b.mqtt.lastTry ∧
      (step pl b ev).mqtt.connection = b.mqtt.connection := by
  have htick : ∀ {e : TickEnv} {send : Bool} {t : Int}, ev.tickArgs = some (e, send, t) →
      (ev.firesIf b.retries).map (fun f => (⟨false, f.t⟩ : Firing)) = none →
        (step pl b ev).mqtt.lastTry = b.mqtt.lastTry ∧
          (step pl b ev).mqtt.connection = b.mqtt.connection := by
    intro e send t hargs hnone
    have hconn := connection_tick pl e send t b
    rw [if_neg (firesIf_eq_none (Option.map_eq_none_iff.mp hnone) hargs)] at hconn
    rw [(step_of_tickArgs pl b hargs).2.2]
    exact hconn
  cases ev with
  | packet e iptr hwDir => exact htick rfl h
  | tick e send t => exact htick rfl h
  | delivered dt => exact ⟨rfl, rfl⟩
  | connlost now connected => cases h

/-- The attempts to connect. -/
theorem connects_timer (pl : Platform) : Timer (step pl) Event.readings (fun _ => True)
    (fun b => b.mqtt.lastTry) Box.connects (reconnectInterval + 1) where
  keeps _ _ h := h
  reading b ev f hf := by
    rcases connects_eq_some hf with ⟨now, connected, rfl, rfl⟩ | ⟨e, send, t, hargs, -, rfl⟩
    · exact List.mem_singleton_self now
    · exact tickArgs_readings hargs
  fired b ev f _ hf := by
    rcases connects_eq_some hf with ⟨now, connected, rfl, rfl⟩ | ⟨e, send, t, hargs, hretry, rfl⟩
    · refine ⟨?_, fun hasked => by cases hasked⟩
      exact connectAndSubscribe_lastTry connected _
    · have hconn := connection_tick pl e send t b
      rw [if_pos hretry] at hconn
      refine ⟨by rw [(step_of_tickArgs pl b hargs).2.2, hconn], fun _ => ?_⟩
      simp only [Box.retries, Bool.and_eq_true, decide_eq_true_eq] at hretry
      have hgap := hretry.2.2
      show b.mqtt.lastTry + (reconnectInterval + 1) ≤ t
      omega
  idle b ev _ hf := (connection_of_not_connects pl hf).1

theorem lastTry_boot (config : Config) (sendLast lastTimestamp connectedAt : Int)
    (connected : Bool) :
    (boot config sendLast lastTimestamp connectedAt connected).mqtt.lastTry = connectedAt := by
  show (initMqtt connected connectedAt).lastTry = connectedAt
  rw [initMqtt_eq]

/-- **Nothing is done too often.** In every run from the start, whatever the clock reads and
whoever asks for what: a pass that nobody asked for comes at least 4 seconds behind the pass
before, a report that nobody asked for more than the interval behind the report before, and
an attempt to connect of a pass more than 120 seconds behind the attempt before. So with a
clock that does not go back there are no more of them than the time has room for. -/
theorem timers_apart (pl : Platform) (config : Config)
    (sendLast lastTimestamp connectedAt : Int) (connected : Bool) (evs : List Event) :
    let b := boot config sendLast lastTimestamp connectedAt connected
    (Apart resolution lastTimestamp (firings (step pl) Box.passes b evs) ∧
      Apart (config.options.sendInterval + 1) sendLast (firings (step pl) Box.reports b evs) ∧
      Apart (reconnectInterval + 1) connectedAt (firings (step pl) Box.connects b evs)) ∧
    ∀ hi, (sendLast :: lastTimestamp :: connectedAt
        :: evs.flatMap Event.readings).Pairwise (· ≤ ·) →
      (∀ r ∈ connectedAt :: evs.flatMap Event.readings, r ≤ hi) →
        (unasked (firings (step pl) Box.passes b evs) : Int) * resolution
            ≤ hi - lastTimestamp ∧
          (unasked (firings (step pl) Box.reports b evs) : Int)
            * (config.options.sendInterval + 1) ≤ hi - sendLast ∧
          (unasked (firings (step pl) Box.connects b evs) : Int) * (reconnectInterval + 1)
            ≤ hi - connectedAt := by
  intro b
  have hlast := lastTry_boot config sendLast lastTimestamp connectedAt connected
  have hconnects := (connects_timer pl).apart evs (s := b) trivial
  rw [hlast] at hconnects
  refine ⟨⟨(passes_timer pl).apart evs (s := b) trivial,
    (reports_timer pl config).apart evs (s := b) rfl, hconnects⟩, fun hi hordered hhi => ?_⟩
  obtain ⟨hsend, hordered⟩ := List.pairwise_cons.mp hordered
  obtain ⟨hstamp, hordered⟩ := List.pairwise_cons.mp hordered
  obtain ⟨hconn, hevs⟩ := List.pairwise_cons.mp hordered
  -- each variable is at most what is read from then on
  have hfrom : ∀ r, r ≤ connectedAt → (∀ x ∈ evs.flatMap Event.readings, r ≤ x) →
      (r :: evs.flatMap Event.readings).Pairwise (· ≤ ·) ∧
        ∀ x ∈ r :: evs.flatMap Event.readings, x ≤ hi := by
    intro r hr hle
    have htop := hhi connectedAt List.mem_cons_self
    refine ⟨List.pairwise_cons.mpr ⟨hle, hevs⟩, List.forall_mem_cons.mpr
      ⟨le_trans hr htop, fun x hx => hhi x (List.mem_cons_of_mem _ hx)⟩⟩
  have hstamps := hfrom lastTimestamp (hstamp _ List.mem_cons_self)
    fun x hx => hstamp x (List.mem_cons_of_mem _ hx)
  have hsends := hfrom sendLast (hsend _ (List.mem_cons_of_mem _ List.mem_cons_self))
    fun x hx => hsend x (List.mem_cons_of_mem _ (List.mem_cons_of_mem _ hx))
  have hconns := hfrom connectedAt le_rfl hconn
  rw [← hlast] at hconns
  have hattempts := (connects_timer pl).count_mul_le hi evs (s := b) trivial hconns.1 hconns.2
  rw [hlast] at hattempts
  exact ⟨(passes_timer pl).count_mul_le hi evs (s := b) trivial hstamps.1 hstamps.2,
    (reports_timer pl config).count_mul_le hi evs (s := b) rfl hsends.1 hsends.2, hattempts⟩

/-- A report every minute. -/
def minuteConfig : Config :=
  { plainConfig with options := { plainConfig.options with sendInterval := 60 } }

/-- A packet, a report, a lost connection, and an attempt to connect again. -/
def minuteRun : List Event :=
  [packetAt 10, .tick (plainEnv (some 1)) false 70, .connlost 80 false,
    .tick (plainEnv none) false 204]

/-- A pass at 10, 70 and 204. -/
theorem timers_apart_minuteRun :
    (unasked (firings (step ⟨4, 4, id⟩) Box.passes (boot minuteConfig 0 0 0 true) minuteRun) : Int)
        * resolution ≤ 204 - 0 ∧
      (unasked (firings (step ⟨4, 4, id⟩) Box.reports (boot minuteConfig 0 0 0 true) minuteRun) :
        Int) * 61 ≤ 204 - 0 ∧
      (unasked (firings (step ⟨4, 4, id⟩) Box.connects (boot minuteConfig 0 0 0 true) minuteRun) :
        Int) * (reconnectInterval + 1) ≤ 204 - 0 :=
  (timers_apart ⟨4, 4, id⟩ minuteConfig 0 0 0 true minuteRun).2 204 (by decide) (by decide)

/-! ## Not too late -/

/-- The timers as the last pass has left them, before the readings still to come. -/
structure Punctual (c : Config) (b : Box) (readings : List Int) : Prop where
  config : b.config = c
  report : 0 < c.options.sendInterval → b.lastTimestamp ≤ b.sendLast + c.options.sendInterval
  connect : b.mqtt.connection = .off → b.lastTimestamp ≤ b.mqtt.lastTry + reconnectInterval
  ahead : ∀ r ∈ readings, b.lastTimestamp ≤ r

/-- An event with a `tick` at `t` leaves no timer that ran out before the pass. -/
theorem Punctual.tick (pl : Platform) {c : Config} {b : Box} {ev : Event} {readings : List Int}
    (h : Punctual c b (ev.readings ++ readings))
    (hordered : (ev.readings ++ readings).Pairwise (· ≤ ·)) {e : TickEnv} {send : Bool} {t : Int}
    (hargs : ev.tickArgs = some (e, send, t)) :
    Punctual c (step pl b ev) readings ∧ t < (step pl b ev).lastTimestamp + resolution := by
  obtain ⟨hstamp, hsend, hmqtt⟩ := step_of_tickArgs pl b hargs
  have hconn := connection_tick pl e send t b
  have htle : ∀ r ∈ readings, t ≤ r :=
    fun r hr => (List.pairwise_append.mp hordered).2.2 t (tickArgs_readings hargs) r hr
  rw [lastTimestamp_tick] at hstamp
  rw [sendLast_tick] at hsend
  rw [← hmqtt] at hconn
  by_cases hrot : b.rotates send t = true
  · rw [if_pos hrot] at hstamp
    rw [hrot, Bool.true_and] at hsend
    refine ⟨⟨(step_config pl b ev).trans h.config, fun hpos => ?_, fun hoff => ?_,
      by rw [hstamp]; exact htle⟩, by rw [hstamp, resolution]; omega⟩
    · rw [hstamp, hsend]
      split
      next => omega
      next hno =>
        simp only [Box.due, h.config, Bool.or_eq_true, Bool.and_eq_true, bne_iff_ne, ne_eq,
          decide_eq_true_eq, not_or, not_and] at hno
        have hgap := hno.1 (by omega)
        omega
    · rw [hstamp]
      split at hconn
      next =>
        rw [hconn, reconnectInterval]
        omega
      next hno =>
        rw [hconn.1]
        rw [hconn.2] at hoff
        simp only [Box.retries, hrot, hoff, Bool.true_and, decide_true,
          decide_eq_true_eq] at hno
        omega
  · rw [if_neg hrot] at hstamp
    rw [if_neg fun hboth => hrot (Bool.and_eq_true _ _ ▸ hboth).1] at hsend
    have hno : ¬ b.retries send t = true := fun hboth => hrot (Bool.and_eq_true _ _ ▸ hboth).1
    rw [if_neg hno] at hconn
    refine ⟨⟨(step_config pl b ev).trans h.config, ?_, ?_, ?_⟩, ?_⟩
    · rw [hstamp, hsend]
      exact h.report
    · rw [hstamp, hconn.1, hconn.2]
      exact h.connect
    · rw [hstamp]
      exact fun r hr => h.ahead r (List.mem_append_right _ hr)
    · rw [hstamp]
      simp only [Box.rotates, Bool.or_eq_true, decide_eq_true_eq, not_or] at hrot
      omega

theorem Punctual.step {pl : Platform} {c : Config} {b : Box} {ev : Event} {readings : List Int}
    (h : Punctual c b (ev.readings ++ readings))
    (hordered : (ev.readings ++ readings).Pairwise (· ≤ ·)) :
    Punctual c (step pl b ev) readings := by
  cases ev with
  | packet e iptr hwDir =>
    have hargs : (Event.packet e iptr hwDir).tickArgs = some (e.tick, false, e.t) := rfl
    exact (h.tick pl hordered hargs).1
  | tick e send t =>
    have hargs : (Event.tick e send t).tickArgs = some (e, send, t) := rfl
    exact (h.tick pl hordered hargs).1
  | delivered dt => exact ⟨h.config, h.report, h.connect, h.ahead⟩
  | connlost now connected =>
    have hlast : (connlost now connected b.mqtt).lastTry = now :=
      connectAndSubscribe_lastTry connected _
    have hnow : b.lastTimestamp ≤ now := h.ahead now List.mem_cons_self
    refine ⟨h.config, h.report, fun _ => ?_,
      fun r hr => h.ahead r (List.mem_append_right _ hr)⟩
    show b.lastTimestamp ≤ (connlost now connected b.mqtt).lastTry + reconnectInterval
    rw [hlast, reconnectInterval]
    omega

theorem Punctual.run (pl : Platform) {c : Config} {readings : List Int} :
    ∀ {evs : List Event} {b : Box}, Punctual c b (evs.flatMap Event.readings ++ readings) →
      (evs.flatMap Event.readings ++ readings).Pairwise (· ≤ ·) →
        Punctual c (run (Capture.step pl) b evs) readings
  | [], _, h, _ => h
  | ev :: evs, b, h, hordered => by
    rw [List.flatMap_cons, List.append_assoc] at h hordered
    show Punctual c (Lib.run (Capture.step pl) (Capture.step pl b ev) evs) readings
    exact Punctual.run pl (h.step hordered) (List.pairwise_append.mp hordered).2.1

/-- **Nothing is done too late.** Start-up has taken no longer than the interval for reports:
`init_history` read the clock within it behind the reading for `options.send_last`. Then in
every run with a clock that does not go back, at the end of every `tick`: the last pass was
less than 4 seconds ago, the last report (with a positive interval) less than the interval and 4
seconds, and without a connection the last attempt less than 124 seconds. -/
theorem timers_punctual (pl : Platform) (config : Config)
    (sendLast lastTimestamp connectedAt : Int) (connected : Bool) (evs : List Event)
    (hstart : 0 < config.options.sendInterval →
      lastTimestamp ≤ sendLast + config.options.sendInterval)
    (hordered : (lastTimestamp :: connectedAt :: evs.flatMap Event.readings).Pairwise (· ≤ ·))
    (before after : List Event) (ev : Event) (hsplit : evs = before ++ ev :: after)
    (e : TickEnv) (send : Bool) (t : Int) (hargs : ev.tickArgs = some (e, send, t)) :
    let b := run (step pl) (boot config sendLast lastTimestamp connectedAt connected)
      (before ++ [ev])
    t < b.lastTimestamp + resolution ∧
      (0 < config.options.sendInterval →
        t < b.sendLast + config.options.sendInterval + resolution) ∧
      (b.mqtt.connection = .off → t < b.mqtt.lastTry + reconnectInterval + resolution) := by
  intro b
  subst hsplit
  obtain ⟨hstamp, hordered⟩ := List.pairwise_cons.mp hordered
  obtain ⟨hconn, hordered⟩ := List.pairwise_cons.mp hordered
  have hboot : Punctual config (boot config sendLast lastTimestamp connectedAt connected)
      ((before ++ ev :: after).flatMap Event.readings) := by
    refine ⟨rfl, hstart, fun _ => ?_,
      fun r hr => hstamp r (List.mem_cons_of_mem _ hr)⟩
    have hle := hstamp connectedAt List.mem_cons_self
    show lastTimestamp
      ≤ (boot config sendLast lastTimestamp connectedAt connected).mqtt.lastTry + reconnectInterval
    rw [lastTry_boot, reconnectInterval]
    omega
  rw [List.flatMap_append, List.flatMap_cons] at hboot hordered
  have hbefore := Punctual.run pl hboot hordered
  obtain ⟨hafter, hlate⟩ := hbefore.tick pl (List.pairwise_append.mp hordered).2.1 hargs
  have hb : b = step pl (run (step pl) (boot config sendLast lastTimestamp connectedAt connected)
      before) ev := by
    show run (step pl) _ (before ++ [ev]) = _
    rw [run_append]
    rfl
  rw [← hb] at hafter hlate
  refine ⟨hlate, fun hpos => ?_, fun hoff => ?_⟩
  · have := hafter.report hpos
    omega
  · have := hafter.connect hoff
    omega

theorem timers_punctual_minuteRun :
    let b := run (step ⟨4, 4, id⟩) (boot minuteConfig 0 0 0 true)
      (minuteRun.take 3 ++ [.tick (plainEnv none) false 204])
    204 < b.lastTimestamp + resolution ∧
      (0 < (60 : Int) → 204 < b.sendLast + 60 + resolution) ∧
      (b.mqtt.connection = .off → 204 < b.mqtt.lastTry + reconnectInterval + resolution) :=
  timers_punctual ⟨4, 4, id⟩ minuteConfig 0 0 0 true minuteRun (fun _ => by decide) (by decide)
    (minuteRun.take 3) [] (.tick (plainEnv none) false 204) rfl (plainEnv none) false 204 rfl

end Dotqoo.Capture
