import Dotqoo.Publish.Buffers

/-!
# `check_status` in several threads

Every thread that calls `tick` goes on to `check_status`, which stands behind the unlock:
the capture thread for each packet, the library's thread for a request, the main thread
in the user interface and in `destory_MQTT`. The function tests the two tokens, clears
`deliveredtoken`, releases `data` and `out`, and sets the status, and other threads can
come in between any two of these.

The confirmed token is something like a lock. Whoever clears it takes it, and up to the
last step the message counts as pending, so no other one is built. But the test and the
clearing are two steps. `checks_sound_iff` says that this is all there is to it: the
buffers are released soundly, however the threads go on, exactly if no test falls between
one that passed and its clearing.

Mirroring notes:
- The locked part of `tick` is one step. The table that it works on is any table.
- Reads and writes of the globals happen one after the other.
-/

namespace Dotqoo.Capture

open Dotqoo.Lib Dotqoo.Table

/-- How far a thread is in `check_status`. -/
inductive CheckPhase where
  | idle
  /-- Behind the test. -/
  | passed
  /-- Behind `deliveredtoken = 0`. -/
  | cleared
  | freedData
  | freedOut
  deriving DecidableEq, Repr

/-- The globals of mqtt.c, and the threads. -/
structure Checks (τ : Type) where
  mqtt : Mqtt
  phase : τ → CheckPhase

/-- A step of a thread, or of the library. -/
inductive CheckEvent (τ : Type) where
  /-- `tick`, up to its unlock. -/
  | locked (e : TickEnv) (due : Bool) (t : Int) (size : Nat) (h : History)
  /-- The test of `check_status`. -/
  | test (i : τ)
  /-- The next of its other steps. -/
  | next (i : τ)
  | delivered (dt : Int)
  | connlost (now : Int) (connected : Bool)

variable {τ : Type} [DecidableEq τ]

/-- The steps behind the test. -/
def nextCheck (m : Mqtt) : CheckPhase → Mqtt × CheckPhase
  | .idle => (m, .idle)
  | .passed =>
    ({ m with deliveredtoken := 0, log := m.log ++ [.confirmed m.token] }, .cleared)
  | .cleared => (m.freeData, .freedData)
  | .freedData => (m.freeOut, .freedOut)
  | .freedOut => ({ m with status := .complete }, .idle)

/-- One step. -/
def checkStep (pl : Platform) (s : Checks τ) : CheckEvent τ → Checks τ
  | .locked e due t size h => { s with mqtt := tickMqtt pl e due t size h s.mqtt }
  | .test i =>
    if s.phase i = .idle ∧ s.mqtt.deliveredtoken = s.mqtt.token then
      { s with phase := Function.update s.phase i .passed }
    else s
  | .next i =>
    ⟨(nextCheck s.mqtt (s.phase i)).1, Function.update s.phase i (nextCheck s.mqtt (s.phase i)).2⟩
  | .delivered dt => { s with mqtt := delivered dt s.mqtt }
  | .connlost now connected => { s with mqtt := connlost now connected s.mqtt }

/-- The state as `init_MQTT` leaves it. -/
def checksStart (connected : Bool) (now : Int) : Checks τ := ⟨initMqtt connected now, fun _ => .idle⟩

/-- The steps of one thread, with nothing in between, are `check_status`. -/
theorem checkStatus_alone (pl : Platform) (s : Checks τ) {i : τ} (hi : s.phase i = .idle) :
    (run (checkStep pl) s [.test i, .next i, .next i, .next i, .next i]).mqtt
      = checkStatus s.mqtt := by
  by_cases hpass : s.mqtt.deliveredtoken = s.mqtt.token
  · rw [checkStatus, if_pos hpass]
    simp [checkStep, nextCheck, hi, hpass]
  · rw [checkStatus, if_neg hpass]
    simp [checkStep, nextCheck, hi, hpass]

/-- What the library promises: a new token is positive and not that of a message in flight
(an old one may be given out again), and a confirmation is for a message in flight. -/
def CheckContract (s : Checks τ) : CheckEvent τ → Prop
  | .locked e _ _ _ _ => ∀ tk ∈ e.publish, 0 < tk ∧ tk ∉ s.mqtt.inflight
  | .delivered dt => dt ∈ s.mqtt.inflight
  | _ => True

instance (s : Checks τ) : DecidablePred (CheckContract s)
  | .locked e _ _ _ _ => inferInstanceAs (Decidable (∀ tk ∈ e.publish, _))
  | .delivered dt => inferInstanceAs (Decidable (dt ∈ _))
  | .test _ => isTrue trivial
  | .next _ => isTrue trivial
  | .connlost _ _ => isTrue trivial

/-- A test does not pass while another thread stands between its own and the clearing, and
the connection is lost with nothing pending. -/
def Alone (s : Checks τ) : CheckEvent τ → Prop
  | .test i => s.phase i = .idle → s.mqtt.deliveredtoken = s.mqtt.token → ∀ j, s.phase j ≠ .passed
  | .connlost _ _ => s.mqtt.status ≠ .pending
  | _ => True

/-! ## The invariant -/

/-- The message of the confirmed token is still in the way of another one. -/
def Mqtt.Held (m : Mqtt) : Prop :=
  m.status = .pending ∧ m.connection = .on ∧ m.token ∉ m.inflight

/-- The globals while the one thread that is past its test is in a phase. -/
def Mqtt.During (m : Mqtt) : CheckPhase → Prop
  | .idle => False
  | .passed => m.Held ∧ m.data.isLive = true ∧ m.out.isLive = true
  | .cleared =>
    m.Held ∧ m.deliveredtoken ≠ m.token ∧ m.data.isLive = true ∧ m.out.isLive = true
  | .freedData =>
    m.Held ∧ m.deliveredtoken ≠ m.token ∧ m.data.isLive = false ∧ m.out.isLive = true
  | .freedOut =>
    m.Held ∧ m.deliveredtoken ≠ m.token ∧ m.data.isLive = false ∧ m.out.isLive = false

/-- The globals while no thread is past its test. -/
structure Mqtt.Quiet (m : Mqtt) : Prop where
  pending : m.status = .pending → m.data.isLive = true ∧ m.out.isLive = true ∧
    m.connection = .on ∧ (m.deliveredtoken = m.token → m.token ∉ m.inflight)
  idle : m.status ≠ .pending → m.data.isLive = false ∧ m.out.isLive = false ∧
    m.deliveredtoken ≠ m.token ∧ m.token ∉ m.inflight

/-- At most one thread is past its test, and the buffers are as its phase says. -/
def Checks.Ordered (s : Checks τ) : Prop :=
  ((∀ i, s.phase i = .idle) ∧ s.mqtt.Quiet) ∨
    ∃ i, (∀ j ≠ i, s.phase j = .idle) ∧ s.mqtt.During (s.phase i)

structure CheckInv (s : Checks τ) : Prop where
  sound : ∀ a ∈ s.mqtt.log, a.sound = true
  token : s.mqtt.token ≠ 0
  nodup : s.mqtt.inflight.Nodup
  ordered : s.Ordered

theorem Mqtt.During.held {m : Mqtt} {p : CheckPhase} (h : m.During p) : m.Held := by
  cases p with
  | idle => exact absurd h id
  | passed => exact h.1
  | cleared => exact h.1
  | freedData => exact h.1
  | freedOut => exact h.1

theorem Mqtt.During.ne_idle {m : Mqtt} {p : CheckPhase} (h : m.During p) : p ≠ .idle := by
  rintro rfl
  exact h

/-- Past the clearing, the tokens differ. -/
theorem Mqtt.During.passed_of_eq {m : Mqtt} {p : CheckPhase} (h : m.During p)
    (heq : m.deliveredtoken = m.token) : p = .passed := by
  cases p with
  | idle => exact absurd h id
  | passed => rfl
  | cleared => exact absurd heq h.2.1
  | freedData => exact absurd heq h.2.1
  | freedOut => exact absurd heq h.2.1

/-- The other token is confirmed: nothing changes for the message. -/
theorem Mqtt.During.delivered {m : Mqtt} {p : CheckPhase} (h : m.During p) {dt : Int}
    (hdt : dt ∈ m.inflight) : (delivered dt m).During p := by
  have hne : dt ≠ m.token := fun heq => h.held.2.2 (heq ▸ hdt)
  have hheld : (Capture.delivered dt m).Held :=
    ⟨h.held.1, h.held.2.1, fun hin => h.held.2.2 (List.mem_of_mem_erase hin)⟩
  cases p with
  | idle => exact absurd h id
  | passed => exact ⟨hheld, h.2⟩
  | cleared => exact ⟨hheld, hne, h.2.2⟩
  | freedData => exact ⟨hheld, hne, h.2.2⟩
  | freedOut => exact ⟨hheld, hne, h.2.2⟩

omit [DecidableEq τ] in
theorem CheckInv.start (connected : Bool) (now : Int) :
    CheckInv (checksStart connected now : Checks τ) := by
  rw [checksStart, initMqtt_eq]
  refine ⟨fun a ha => absurd ha List.not_mem_nil, by simp, List.nodup_nil,
    Or.inl ⟨fun _ => rfl, ?_⟩⟩
  exact ⟨fun h => absurd h (by simp), fun _ => ⟨rfl, rfl, by simp, List.not_mem_nil⟩⟩

/-! ## One step -/

section Steps

variable {pl : Platform} {s : Checks τ}

omit [DecidableEq τ] in
/-- A message is handed over with no other one in the way. -/
theorem CheckInv.sent (h : CheckInv s) {n : Nat} {msg : Message} {result : Option Int}
    (hready : s.mqtt.Ready n)
    (hfresh : ∀ tk ∈ result, 0 < tk ∧ tk ∉ s.mqtt.inflight) :
    CheckInv { s with mqtt := s.mqtt.sent pl n msg result } := by
  -- nobody is past the test, since nothing is pending
  have hquiet : (∀ i, s.phase i = .idle) ∧ s.mqtt.Quiet := by
    refine h.ordered.resolve_right ?_
    rintro ⟨i, -, hduring⟩
    exact hready.1 hduring.held.1
  obtain ⟨hidle, hq⟩ := hquiet
  obtain ⟨hdata, hout, -, -⟩ := hq.idle hready.1
  have htoken : (s.mqtt.sent pl n msg result).token ≠ 0 := by
    rw [sent_token]
    cases hresult : result with
    | none => exact h.token
    | some tk =>
      have := (hfresh tk (by simp [hresult])).1
      simp only [Option.getD_some]
      omega
  refine ⟨fun a ha => ?_, htoken, ?_, Or.inl ⟨hidle, ?_⟩⟩
  · rw [sent_log] at ha
    rcases List.mem_append.mp ha with ha | ha
    · exact h.sound a ha
    · simp only [List.mem_cons, List.not_mem_nil, or_false] at ha
      rcases ha with rfl | rfl | rfl | rfl
      · simp [Action.sound, hdata]
      · rfl
      · simp [Action.sound, hout]
      · rfl
  · show (s.mqtt.sent pl n msg result).inflight.Nodup
    rw [sent_inflight]
    cases result with
    | none => simpa using h.nodup
    | some tk =>
      refine List.nodup_append.mpr ⟨h.nodup, List.nodup_singleton tk, ?_⟩
      rintro x hx y hy rfl
      rw [List.mem_singleton.mp hy] at hx
      exact (hfresh tk rfl).2 hx
  · obtain ⟨hd, ho⟩ := sent_live s.mqtt pl n msg result
    refine ⟨fun _ => ⟨hd, ho, (sent_connection ..).trans hready.2.1, fun heq => ?_⟩,
      fun hno => absurd (sent_status ..) hno⟩
    rw [sent_deliveredtoken] at heq
    exact absurd heq.symm htoken

omit [DecidableEq τ] in
/-- Connecting with nothing pending. -/
theorem CheckInv.connect (h : CheckInv s) (hidle : s.mqtt.status ≠ .pending) {m : Mqtt}
    {connected : Bool} (hm : m = { s.mqtt with
      connection := m.connection, lastTry := m.lastTry, inflight := m.inflight, log := m.log })
    (hin : m.inflight ⊆ s.mqtt.inflight) (hnodup : m.inflight.Nodup)
    (hlog : ∃ new, m.log = s.mqtt.log ++ new ∧ ∀ a ∈ new, a.sound = true) :
    CheckInv { s with mqtt := (connectAndSubscribe connected m).2 } := by
  have hquiet : (∀ i, s.phase i = .idle) ∧ s.mqtt.Quiet := by
    refine h.ordered.resolve_right ?_
    rintro ⟨i, -, hduring⟩
    exact hidle hduring.held.1
  obtain ⟨hphase, hq⟩ := hquiet
  obtain ⟨hdata, hout, htokens, hflight⟩ := hq.idle hidle
  have hidle' : m.status ≠ .pending := by
    rw [hm]
    exact hidle
  obtain ⟨new, hnew, hsound⟩ := hlog
  rw [connectAndSubscribe_idle hidle']
  refine ⟨fun a ha => ?_, ?_, hnodup, Or.inl ⟨hphase, ?_⟩⟩
  · have ha' : a ∈ m.log := ha
    rw [hnew] at ha'
    rcases List.mem_append.mp ha' with ha' | ha'
    · exact h.sound a ha'
    · exact hsound a ha'
  · show m.token ≠ 0
    rw [hm]
    exact h.token
  · refine ⟨fun hp => absurd hp hidle', fun _ => ?_⟩
    refine ⟨?_, ?_, ?_, fun hmem => hflight ?_⟩
    · show m.data.isLive = false
      rw [hm]
      exact hdata
    · show m.out.isLive = false
      rw [hm]
      exact hout
    · show m.deliveredtoken ≠ m.token
      rw [hm]
      exact htokens
    · have htoken : m.token = s.mqtt.token := by rw [hm]
      rw [← htoken]
      exact hin hmem

omit [DecidableEq τ] in
/-- The locked part of a `tick`. -/
theorem CheckInv.locked (h : CheckInv s) (e : TickEnv) (due : Bool) (t : Int) (size : Nat)
    (hist : History) (hfresh : ∀ tk ∈ e.publish, 0 < tk ∧ tk ∉ s.mqtt.inflight) :
    CheckInv { s with mqtt := tickMqtt pl e due t size hist s.mqtt } := by
  rcases tickMqtt_cases pl e due t size hist s.mqtt with ⟨⟨-, hready⟩, hm⟩ | ⟨-, hm⟩
  · rw [hm]
    exact h.sent hready hfresh
  · rw [hm]
    rcases checkMqttConnection_cases e.connect t s.mqtt with hsame | ⟨hoff, hconnect⟩
    · rw [hsame]
      exact h
    · -- a pending message has the connection
      have hidle : s.mqtt.status ≠ .pending := by
        intro hp
        have hon : s.mqtt.connection = .on := by
          rcases h.ordered with ⟨-, hq⟩ | ⟨i, -, hduring⟩
          · exact (hq.pending hp).2.2.1
          · exact hduring.held.2.1
        rw [hoff] at hon
        cases hon
      rw [hconnect]
      exact h.connect hidle rfl (List.Subset.refl _) h.nodup ⟨[], by simp, by simp⟩

omit [DecidableEq τ] in
/-- A confirmation. -/
theorem CheckInv.delivered (h : CheckInv s) {dt : Int} (hdt : dt ∈ s.mqtt.inflight) :
    CheckInv { s with mqtt := delivered dt s.mqtt } := by
  refine ⟨h.sound, h.token, h.nodup.erase dt, ?_⟩
  rcases h.ordered with ⟨hidle, hq⟩ | ⟨i, hother, hduring⟩
  · refine Or.inl ⟨hidle, fun hp => ?_, fun hno => ?_⟩
    · obtain ⟨hdata, hout, hon, -⟩ := hq.pending hp
      refine ⟨hdata, hout, hon, fun heq => ?_⟩
      show s.mqtt.token ∉ s.mqtt.inflight.erase dt
      rw [show dt = s.mqtt.token from heq]
      exact fun hmem => (h.nodup.mem_erase_iff.mp hmem).1 rfl
    · obtain ⟨hdata, hout, -, hflight⟩ := hq.idle hno
      exact ⟨hdata, hout, fun heq => hflight (heq ▸ hdt), fun hmem =>
        hflight (List.mem_of_mem_erase hmem)⟩
  · exact Or.inr ⟨i, hother, hduring.delivered hdt⟩

/-- One more sound action. -/
theorem sound_concat {log : List Action} {a : Action} (hlog : ∀ b ∈ log, b.sound = true)
    (ha : a.sound = true) : ∀ b ∈ log ++ [a], b.sound = true := by
  intro b hb
  rcases List.mem_append.mp hb with hb | hb
  · exact hlog b hb
  · rw [List.mem_singleton.mp hb]
    exact ha

/-- The next step of the thread that is past its test. -/
theorem CheckInv.next (h : CheckInv s) (i : τ) : CheckInv (checkStep pl s (.next i)) := by
  have hnothing : s.phase i = .idle → checkStep pl s (.next i) = s := by
    intro hi
    rw [checkStep, hi, nextCheck, ← hi, Function.update_eq_self]
  rcases h.ordered with ⟨hidle, -⟩ | ⟨j, hother, hduring⟩
  · rw [hnothing (hidle i)]
    exact h
  · by_cases hij : i = j
    · subst hij
      have hbusy : ∀ p, (∀ k ≠ i, Function.update s.phase i p k = .idle) :=
        fun p k hk => (Function.update_of_ne hk ..).trans (hother k hk)
      have hown : ∀ p, Function.update s.phase i p i = p := fun p => Function.update_self ..
      rw [checkStep]
      cases hp : s.phase i with
      | idle => exact absurd hp hduring.ne_idle
      | passed =>
        rw [hp] at hduring
        obtain ⟨hheld, hdata, hout⟩ := hduring
        refine ⟨sound_concat h.sound rfl, h.token, h.nodup, Or.inr ⟨i, hbusy _, ?_⟩⟩
        show Mqtt.During _ (Function.update s.phase i _ i)
        rw [hown]
        exact ⟨hheld, fun heq => h.token heq.symm, hdata, hout⟩
      | cleared =>
        rw [hp] at hduring
        obtain ⟨hheld, htokens, hdata, hout⟩ := hduring
        refine ⟨sound_concat h.sound hdata, h.token, h.nodup, Or.inr ⟨i, hbusy _, ?_⟩⟩
        show Mqtt.During _ (Function.update s.phase i _ i)
        rw [hown]
        exact ⟨hheld, htokens, rfl, hout⟩
      | freedData =>
        rw [hp] at hduring
        obtain ⟨hheld, htokens, hdata, hout⟩ := hduring
        refine ⟨sound_concat h.sound hout, h.token, h.nodup, Or.inr ⟨i, hbusy _, ?_⟩⟩
        show Mqtt.During _ (Function.update s.phase i _ i)
        rw [hown]
        exact ⟨hheld, htokens, hdata, rfl⟩
      | freedOut =>
        rw [hp] at hduring
        obtain ⟨hheld, htokens, hdata, hout⟩ := hduring
        refine ⟨h.sound, h.token, h.nodup, Or.inl ⟨fun k => ?_, ?_⟩⟩
        · by_cases hk : k = i
          · rw [hk]
            exact hown _
          · exact hbusy _ k hk
        · exact ⟨fun hp => absurd hp (by simp [nextCheck]),
            fun _ => ⟨hdata, hout, htokens, hheld.2.2⟩⟩
    · rw [hnothing (hother i hij)]
      exact h

/-- **One step.** -/
theorem CheckInv.step (h : CheckInv s) {ev : CheckEvent τ} (hok : CheckContract s ev)
    (halone : Alone s ev) : CheckInv (checkStep pl s ev) := by
  cases ev with
  | locked e due t size hist => exact h.locked e due t size hist hok
  | delivered dt => exact h.delivered hok
  | next i => exact h.next i
  | connlost now connected =>
    exact h.connect halone rfl (List.nil_subset _) List.nodup_nil
      ⟨[.connectionLost], rfl, fun a ha => by rw [List.mem_singleton.mp ha]; rfl⟩
  | test i =>
    rw [checkStep]
    split
    next hpass =>
      obtain ⟨hi, heq⟩ := hpass
      refine ⟨h.sound, h.token, h.nodup, Or.inr ⟨i, ?_⟩⟩
      rcases h.ordered with ⟨hidle, hq⟩ | ⟨j, hother, hduring⟩
      · refine ⟨fun j hj => (Function.update_of_ne hj ..).trans (hidle j), ?_⟩
        have hp : s.mqtt.status = .pending := by
          by_contra hno
          exact (hq.idle hno).2.2.1 heq
        obtain ⟨hdata, hout, hon, hflight⟩ := hq.pending hp
        show s.mqtt.During (Function.update s.phase i .passed i)
        rw [Function.update_self]
        exact ⟨⟨hp, hon, hflight heq⟩, hdata, hout⟩
      · exact absurd (hduring.passed_of_eq heq) (halone hi heq j)
    next => exact h

end Steps

/-! ## Whole runs -/

section Runs

variable {pl : Platform}

omit [DecidableEq τ] in
/-- `out` is the last to go. -/
theorem CheckInv.out_of_data {s : Checks τ} (h : CheckInv s) (hpend : s.mqtt.status = .pending)
    (hdata : s.mqtt.data.isLive = true) : s.mqtt.out.isLive = true := by
  rcases h.ordered with ⟨-, hq⟩ | ⟨i, -, hduring⟩
  · exact (hq.pending hpend).2.1
  · cases hp : s.phase i with
    | idle => exact absurd hp hduring.ne_idle
    | passed => rw [hp] at hduring; exact hduring.2.2
    | cleared => rw [hp] at hduring; exact hduring.2.2.2
    | freedData => rw [hp] at hduring; exact hduring.2.2.2
    | freedOut =>
      rw [hp] at hduring
      rw [hduring.2.2.1] at hdata
      cases hdata

/-- What is asked of a run. -/
def Orderly (s : Checks τ) (ev : CheckEvent τ) : Prop := CheckContract s ev ∧ Alone s ev

/-- All that was done to the buffers so far is sound. -/
def Checks.Sound (s : Checks τ) : Prop := ∀ a ∈ s.mqtt.log, a.sound = true

theorem CheckInv.run {s : Checks τ} (h : CheckInv s) {fs : List (CheckEvent τ)}
    (hok : Along (checkStep pl) Orderly s fs) : CheckInv (Lib.run (checkStep pl) s fs) :=
  Along.invariant (I := CheckInv) (fun _ _ h hok => h.step hok.1 hok.2) hok h

/-- **Two threads past the test** release the buffers twice. -/
theorem not_sound_of_two {s : Checks τ} {i j : τ} (hij : i ≠ j) (hi : s.phase i = .passed)
    (hj : s.phase j = .passed) :
    ¬ (Lib.run (checkStep pl) s [.next j, .next j, .next i, .next i]).Sound := by
  intro hsound
  have h1 : checkStep pl (checkStep pl s (.next j)) (.next j) = ⟨Mqtt.freeData { s.mqtt with
      deliveredtoken := 0, log := s.mqtt.log ++ [.confirmed s.mqtt.token] },
      Function.update s.phase j .freedData⟩ := by
    simp [checkStep, nextCheck, hj]
  have h2 : (Lib.run (checkStep pl) s [.next j, .next j, .next i, .next i]).mqtt.log
      = s.mqtt.log ++ [.confirmed s.mqtt.token, .free .data s.mqtt.data.isLive,
          .confirmed s.mqtt.token, .free .data false] := by
    rw [run_cons, run_cons, h1]
    simp [checkStep, nextCheck, hi, hij, Mqtt.freeData, Buffer.isLive]
  have hfree := hsound (.free .data false) (by rw [h2]; simp)
  cases hfree

/-- A message that is built while `out` owns a buffer. -/
theorem not_sound_of_built {s : Checks τ} {e : TickEnv} {t : Int} {h : History}
    (hready : s.mqtt.Ready 1) (hout : s.mqtt.out.isLive = true) :
    ¬ (checkStep pl s (.locked e true t 1 h)).Sound := by
  intro hsound
  rcases tickMqtt_cases pl e true t 1 h s.mqtt with ⟨-, hm⟩ | ⟨hno, -⟩
  · have halloc := hsound (.alloc .out true) (by
      show _ ∈ (tickMqtt pl e true t 1 h s.mqtt).log
      rw [hm, sent_log, hout]
      simp)
    cases halloc
  · exact hno ⟨rfl, hready⟩

/-- **A connection lost with a message pending** leaves `out` to the next message. -/
theorem not_sound_of_lost {s : Checks τ} (hpend : s.mqtt.status = .pending)
    (hout : s.mqtt.out.isLive = true) (now : Int) (connected : Bool) (h : History) :
    ∃ fs, Along (checkStep pl) Orderly (checkStep pl s (.connlost now connected)) fs ∧
      ¬ (Lib.run (checkStep pl) (checkStep pl s (.connlost now connected)) fs).Sound := by
  have hlost : checkStep pl s (.connlost now connected) = { s with mqtt := { Mqtt.freeData { s.mqtt with
      connection := .off, lastTry := now, inflight := [], log := s.mqtt.log ++ [.connectionLost] } with
      status := .init, connection := if connected then .on else .off } } := by
    rw [checkStep, connlost, connectAndSubscribe_pending (by exact hpend)]
  have hquiet : ∀ (e : TickEnv) (due : Bool) (t : Int) (size : Nat) (s : Checks τ),
      e.publish = none → Orderly s (.locked e due t size h) :=
    fun e due t size s he => ⟨fun tk htk => by simp [he] at htk, trivial⟩
  cases connected with
  | true =>
    refine ⟨[.locked ⟨fun _ => false, fun _ => ⟨0, 0⟩, true, none⟩ true now 1 h],
      ⟨hquiet _ _ _ _ _ rfl, trivial⟩, ?_⟩
    refine not_sound_of_built ?_ ?_
    · rw [hlost]
      exact ⟨by simp, rfl, by simp⟩
    · rw [hlost]
      exact hout
  | false =>
    -- it takes a reconnect first
    have hagain : checkStep pl (checkStep pl s (.connlost now false))
        (.locked ⟨fun _ => false, fun _ => ⟨0, 0⟩, true, none⟩ false (now + 121) 1 h)
          = { s with mqtt := { Mqtt.freeData { s.mqtt with
              connection := .off, lastTry := now, inflight := [],
              log := s.mqtt.log ++ [.connectionLost] } with
              status := .init, connection := .on, lastTry := now + 121 } } := by
      rw [hlost]
      simp [checkStep, tickMqtt, checkMqttConnection, reconnectInterval, connectAndSubscribe,
        Mqtt.freeData]
    refine ⟨[.locked ⟨fun _ => false, fun _ => ⟨0, 0⟩, true, none⟩ false (now + 121) 1 h,
      .locked ⟨fun _ => false, fun _ => ⟨0, 0⟩, true, none⟩ true (now + 121) 1 h],
      ⟨hquiet _ _ _ _ _ rfl, hquiet _ _ _ _ _ rfl, trivial⟩, ?_⟩
    rw [run_cons, hagain]
    exact not_sound_of_built ⟨by simp, rfl, by simp⟩ hout

variable (pl) in
/-- What goes wrong with the first event that is not orderly. -/
theorem not_sound_of_not_alone {s : Checks τ} (h : CheckInv s) {ev : CheckEvent τ}
    (halone : ¬ Alone s ev) : ∃ fs, Along (checkStep pl) Orderly (checkStep pl s ev) fs ∧
      ¬ (Lib.run (checkStep pl) (checkStep pl s ev) fs).Sound := by
  cases ev with
  | test i =>
    simp only [Alone, not_forall, not_not] at halone
    obtain ⟨hi, heq, j, hj⟩ := halone
    have hij : i ≠ j := fun hij => by
      rw [hij, hj] at hi
      cases hi
    refine ⟨[.next j, .next j, .next i, .next i], ?_, ?_⟩
    · exact ⟨⟨trivial, trivial⟩, ⟨trivial, trivial⟩, ⟨trivial, trivial⟩, ⟨trivial, trivial⟩, trivial⟩
    · rw [checkStep, if_pos ⟨hi, heq⟩]
      refine not_sound_of_two hij (Function.update_self ..) ?_
      exact (Function.update_of_ne hij.symm ..).trans hj
  | connlost now connected =>
    have hpend : s.mqtt.status = .pending := not_not.mp halone
    by_cases hdata : s.mqtt.data.isLive = true
    · exact not_sound_of_lost hpend (h.out_of_data hpend hdata) now connected
        (KeyedTable.empty addrHash HistoryType)
    · -- `data` has been released for this message
      refine ⟨[], trivial, fun hsound => hdata ?_⟩
      have hfree := hsound (.free .data s.mqtt.data.isLive) (by
        rw [run_nil, checkStep, connlost, connectAndSubscribe_pending (by exact hpend)]
        simp [Mqtt.freeData])
      exact hfree
  | locked e due t size hist => exact absurd trivial halone
  | next i => exact absurd trivial halone
  | delivered dt => exact absurd trivial halone

/-- From any state in which the threads are in order. -/
theorem checks_sound_from_iff : ∀ {es : List (CheckEvent τ)} {s : Checks τ}, CheckInv s →
    Along (checkStep pl) CheckContract s es →
    ((∀ before after, es = before ++ after → ∀ fs,
        Along (checkStep pl) Orderly (Lib.run (checkStep pl) s before) fs →
        (Lib.run (checkStep pl) s (before ++ fs)).Sound) ↔
      Along (checkStep pl) Alone s es)
  | [], s, h, _ => by
    refine ⟨fun _ => trivial, fun _ before after heq fs hok => ?_⟩
    obtain ⟨rfl, -⟩ := List.append_eq_nil_iff.mp heq.symm
    exact (h.run hok).sound
  | ev :: es, s, h, hcontract => by
    obtain ⟨hev, hes⟩ := hcontract
    constructor
    · intro hall
      have halone : Alone s ev := by
        by_contra hno
        obtain ⟨fs, hok, hbad⟩ := not_sound_of_not_alone pl h hno
        exact hbad (hall [ev] es rfl fs hok)
      refine ⟨halone, (checks_sound_from_iff (h.step hev halone) hes).mp ?_⟩
      intro before after heq fs hok
      exact hall (ev :: before) after (by rw [heq]; rfl) fs hok
    · rintro ⟨halone, hrest⟩ before after heq fs hok
      cases before with
      | nil => exact (h.run hok).sound
      | cons ev' before =>
        obtain ⟨rfl, htail⟩ := List.cons.inj heq
        exact (checks_sound_from_iff (h.step hev halone) hes).mpr hrest before after htail fs hok

/-- **The buffers are handled soundly exactly in orderly runs.** Under the library's promises,
with any number of threads: whatever orderly steps follow any part of the run, no buffer is
released twice and none is lost, exactly if in the run no test passes between one that
passed and its clearing, and the connection is not lost with a message pending. -/
theorem checks_sound_iff (connected : Bool) (now : Int) (es : List (CheckEvent τ))
    (hcontract : Along (checkStep pl) CheckContract (checksStart connected now) es) :
    (∀ before after, es = before ++ after → ∀ fs,
        Along (checkStep pl) Orderly
          (Lib.run (checkStep pl) (checksStart connected now) before) fs →
        (Lib.run (checkStep pl) (checksStart connected now) (before ++ fs)).Sound) ↔
      Along (checkStep pl) Alone (checksStart connected now) es :=
  checks_sound_from_iff (CheckInv.start connected now) hcontract

end Runs

/-- A message is confirmed, and two threads come to test its token. -/
def testedTwice : List (CheckEvent Bool) :=
  [.locked (plainEnv (some 1)) true 20 1 (KeyedTable.empty addrHash HistoryType), .delivered 1,
    .test false, .test true, .next false, .next false, .next true, .next true]

theorem checks_sound_iff_testedTwice :
    (∀ before after, testedTwice = before ++ after → ∀ fs,
        Along (checkStep lp64) Orderly (Lib.run (checkStep lp64) (checksStart true 0) before) fs →
        (Lib.run (checkStep lp64) (checksStart true 0) (before ++ fs)).Sound) ↔
      Along (checkStep lp64) Alone (checksStart true 0) testedTwice :=
  checks_sound_iff true 0 testedTwice (by decide +kernel)

end Dotqoo.Capture
