import Dotqoo.Publish.Moves
import Dotqoo.Lib.Spaced

/-!
# At most one message in flight

The guard of `construct_MQTT_msg` refuses while a message is pending, so a
second message can go out only after the first has been settled: `check_status`
has seen its token in `deliveredtoken`, or the connection it was published on is
gone. The log shows both, and `Spaced` says that one of them stands between any
two successful publish calls.

`FlightInv` is about the publish call that is still open, the one nothing in the
log settles yet: while there is one, the status is PENDING, the connection is up
and `token` is its token. The library's promises about tokens are not needed
for that, nor is the outcome of any call.
-/

namespace Dotqoo.Capture

open Dotqoo.Lib

/-- The token of a successful publish call. -/
def Action.published : Action → Option Int
  | .publish result _ _ => result
  | _ => none

/-- Is it a publish call, successful or not? -/
def Action.isPublish : Action → Bool
  | .publish _ _ _ => true
  | _ => false

/-- `z` settles the publish call `x`: its token is confirmed, or the connection
is lost. -/
def Settles (x z : Action) : Prop :=
  (∃ tk, x.published = some tk ∧ z = .confirmed tk) ∨ z = .connectionLost

/-- Two successful publish calls. -/
def BothPublished (x y : Action) : Prop := x.published.isSome = true ∧ y.published.isSome = true

/-- Two publish calls, whatever came of them. -/
def BothCalls (x y : Action) : Prop := x.isPublish = true ∧ y.isPublish = true

/-- A message was built. -/
def IsBuilt (_x z : Action) : Prop := ∃ msg, z = .built msg

/-- Successful publish calls are kept apart, every publish call has a message of
its own, and a call that is still open is the pending one. -/
structure FlightInv (m : Mqtt) : Prop where
  settled : Spaced BothPublished Settles m.log
  calls : Spaced BothCalls IsBuilt m.log
  pending : ∀ x tk, Open Settles m.log x → x.published = some tk →
    m.status = .pending ∧ m.connection = .on ∧ m.token = tk

theorem FlightInv.initMqtt (connected : Bool) (now : Int) : FlightInv (initMqtt connected now) := by
  rw [initMqtt_eq]
  refine ⟨Spaced.nil, Spaced.nil, ?_⟩
  rintro x tk ⟨l₁, l₂, h, -⟩ -
  exact absurd h (by simp)

/-- With nothing pending, no successful publish call is open. -/
theorem FlightInv.closed {m : Mqtt} (h : FlightInv m) (hidle : m.status ≠ .pending)
    {x : Action} (hx : Open Settles m.log x) : x.published = none := by
  cases hp : x.published with
  | none => rfl
  | some tk => exact absurd (h.pending x tk hx hp).1 hidle

/-- Entries that are no publish calls keep the calls apart. -/
theorem FlightInv.append {m m' : Mqtt} (h : FlightInv m) (new : List Action)
    (hlog : m'.log = m.log ++ new) (hnew : ∀ y ∈ new, y.isPublish = false)
    (hpending : ∀ x tk, Open Settles m.log x → (∀ z ∈ new, ¬ Settles x z) →
      x.published = some tk → m'.status = .pending ∧ m'.connection = .on ∧ m'.token = tk) :
    FlightInv m' := by
  have hnot : ∀ y ∈ new, y.published = none := by
    intro y hy
    have hcall := hnew y hy
    cases y <;> first | rfl | exact absurd hcall (by simp [Action.isPublish])
  refine ⟨?_, ?_, ?_⟩
  · rw [hlog]
    refine h.settled.append_free fun y hy x hp => ?_
    rw [BothPublished, hnot y hy] at hp
    exact absurd hp.2 (by simp)
  · rw [hlog]
    refine h.calls.append_free fun y hy x hp => ?_
    rw [BothCalls, hnew y hy] at hp
    exact absurd hp.2 (by simp)
  · intro x tk hx hp
    rw [hlog] at hx
    rcases hx.of_append with ⟨hx, hno⟩ | ⟨l₁, l₂, hsplit, -⟩
    · exact hpending x tk hx hno hp
    · have hmem : x ∈ new := by
        rw [hsplit]
        simp
      rw [hnot x hmem] at hp
      exact absurd hp (by simp)

/-- `check_status` settles the pending call, or does nothing. -/
theorem FlightInv.checkStatus {m : Mqtt} (h : FlightInv m) : FlightInv (checkStatus m) := by
  unfold Capture.checkStatus
  split
  next hd =>
    refine h.append [.confirmed m.token, .free .data m.data.isLive,
      .free .out m.out.isLive] ?_ (by simp [Action.isPublish]) ?_
    · simp [Mqtt.freeOut, Mqtt.freeData]
    · -- the open call is the one of `token`, which is confirmed here
      intro x tk hx hno hp
      obtain ⟨-, -, rfl⟩ := h.pending x tk hx hp
      exact absurd (Or.inl ⟨_, hp, rfl⟩) (hno (.confirmed m.token) (List.mem_cons_self ..))
  next => exact h

/-- A message is built and published with nothing open. -/
theorem FlightInv.sent {m : Mqtt} {pl : Platform} {n : Nat} {msg : Message} {result : Option Int}
    (h : FlightInv m) (hr : m.Ready n) : FlightInv (m.sent pl n msg result) := by
  have hlog : (m.sent pl n msg result).log
      = (m.log ++ [.alloc .data m.data.isLive, .built msg, .alloc .out m.out.isLive])
        ++ [.publish result (.live msg) (m.withMessage pl n msg).payload] := by
    rw [sent_log]
    simp
  have hopen : ∀ x, Open Settles
      (m.log ++ [.alloc .data m.data.isLive, .built msg, .alloc .out m.out.isLive]) x →
      x.published = none := by
    intro x hx
    rcases hx.of_append with ⟨hx, -⟩ | ⟨l₁, l₂, hsplit, -⟩
    · exact h.closed hr.1 hx
    · have hmem : x ∈ [Action.alloc .data m.data.isLive, .built msg, .alloc .out m.out.isLive] := by
        rw [hsplit]
        simp
      simp only [List.mem_cons, List.not_mem_nil, or_false] at hmem
      rcases hmem with rfl | rfl | rfl <;> rfl
  refine ⟨?_, ?_, ?_⟩
  · rw [hlog]
    refine Spaced.concat (h.settled.append_free fun y hy x hp => ?_) fun x hx hp => ?_
    · simp only [List.mem_cons, List.not_mem_nil, or_false] at hy
      rcases hy with rfl | rfl | rfl <;> exact absurd hp.2 (by simp [Action.published])
    · rw [BothPublished, hopen x hx] at hp
      exact absurd hp.1 (by simp)
  · rw [hlog]
    refine Spaced.concat (h.calls.append_free fun y hy x hp => ?_) fun x hx hp => ?_
    · simp only [List.mem_cons, List.not_mem_nil, or_false] at hy
      rcases hy with rfl | rfl | rfl <;> exact absurd hp.2 (by simp [Action.isPublish])
    · -- the message of this call stands behind every earlier call
      rcases hx.of_append with ⟨-, hno⟩ | ⟨l₁, l₂, hsplit, -⟩
      · exact hno (.built msg) (by simp) ⟨msg, rfl⟩
      · have hmem : x ∈ [Action.alloc .data m.data.isLive, .built msg,
            .alloc .out m.out.isLive] := by
          rw [hsplit]
          simp
        simp only [List.mem_cons, List.not_mem_nil, or_false] at hmem
        rcases hmem with rfl | rfl | rfl <;> exact absurd hp.1 (by simp [Action.isPublish])
  · intro x tk hx hp
    rw [hlog] at hx
    rcases hx.of_append with ⟨hx, -⟩ | ⟨l₁, l₂, hsplit, -⟩
    · rw [hopen x hx] at hp
      exact absurd hp (by simp)
    · have hmem : x ∈ [Action.publish result (.live msg) (m.withMessage pl n msg).payload] := by
        rw [hsplit]
        simp
      rw [List.mem_singleton] at hmem
      subst hmem
      have hres : result = some tk := hp
      refine ⟨sent_status m pl n msg result, (sent_connection m pl n msg result).trans hr.2.1, ?_⟩
      rw [sent_token, hres]
      rfl

/-- An attempt to connect, made with no call open. -/
theorem FlightInv.reconnect {m : Mqtt} {connected : Bool} (h : FlightInv m)
    (hclosed : ∀ x, Open Settles m.log x → x.published = none) :
    FlightInv (connectAndSubscribe connected m).2 := by
  have hnone : ∀ x tk, Open Settles m.log x → x.published ≠ some tk := by
    intro x tk hx hp
    rw [hclosed x hx] at hp
    exact absurd hp (by simp)
  by_cases hp : m.status = .pending
  · refine h.append [.free .data m.data.isLive] ?_ (by simp [Action.isPublish]) ?_
    · rw [connectAndSubscribe_pending hp]
      rfl
    · exact fun x tk hx _ hpub => absurd hpub (hnone x tk hx)
  · refine h.append [] ?_ (by simp) ?_
    · rw [connectAndSubscribe_idle hp]
      simp
    · exact fun x tk hx _ hpub => absurd hpub (hnone x tk hx)

/-- One event keeps the calls apart, whatever the library answers. -/
theorem FlightInv.step {pl : Platform} {b : Box} {ev : Event} (h : FlightInv b.mqtt) :
    FlightInv (Capture.step pl b ev).mqtt := by
  rcases step_mqtt pl b ev with ⟨e, send, t, -, -, hm⟩ | ⟨dt, -, hm⟩ | ⟨now, connected, -, hm⟩
  · rw [hm]
    rcases tick_mqtt pl e send t b with ⟨-, hm⟩ | ⟨-, hoff, hm⟩ | ⟨-, n, hr, hm⟩
    · rw [hm]
      exact h.checkStatus
    · rw [hm]
      refine FlightInv.checkStatus (FlightInv.reconnect ⟨h.settled, h.calls, h.pending⟩ ?_)
      -- an open call has the connection, which is off here
      intro x hx
      cases hpub : x.published with
      | none => rfl
      | some tk =>
        have hon := (h.pending x tk hx hpub).2.1
        exact absurd (hon.symm.trans hoff) (by simp)
    · rw [hm]
      exact (h.sent hr).checkStatus
  · rw [hm]
    exact ⟨h.settled, h.calls, h.pending⟩
  · rw [hm]
    refine FlightInv.reconnect ?_ ?_
    · refine h.append [.connectionLost] rfl (by simp [Action.isPublish]) ?_
      exact fun x tk _ hno _ => absurd (Or.inr rfl) (hno .connectionLost (List.mem_cons_self ..))
    · intro x hx
      rcases hx.of_append with ⟨-, hno⟩ | ⟨l₁, l₂, hsplit, -⟩
      · exact absurd (Or.inr rfl) (hno .connectionLost (List.mem_cons_self ..))
      · have hmem : x ∈ [Action.connectionLost] := by
          rw [hsplit]
          simp
        rw [List.mem_singleton.mp hmem]
        rfl

/-- **At most one message in flight.** In the log of every run from `init_MQTT`,
over any table and options: between two successful publish calls stands the
confirmation of the first one's token or a loss of the connection, and between
any two publish calls stands a message built, so that no message is published
twice. -/
theorem one_in_flight (pl : Platform) (b : Box) (connected : Bool) (now : Int)
    (evs : List Event) :
    Spaced BothPublished Settles
        (run (step pl) { b with mqtt := initMqtt connected now } evs).mqtt.log
      ∧ Spaced BothCalls IsBuilt
        (run (step pl) { b with mqtt := initMqtt connected now } evs).mqtt.log := by
  have hstep : ∀ (b : Box) (ev : Event), FlightInv b.mqtt → FlightInv (step pl b ev).mqtt :=
    fun b ev h => h.step
  have hrun := run_invariant hstep evs (s := { b with mqtt := initMqtt connected now })
    (FlightInv.initMqtt connected now)
  exact ⟨hrun.settled, hrun.calls⟩

end Dotqoo.Capture
