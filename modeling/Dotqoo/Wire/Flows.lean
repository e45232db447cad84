import Dotqoo.Flow.Pages
import Dotqoo.Wire.Network

/-!
# Flow by flow

All flows share one table, one pass over it and one message. Still each flow is by itself:
its record is what a small machine makes of the flow's own packets and of the readings of
the clock (`flowState_run`). What other flows do is seen neither in the record nor in what
a message says of it; they can only cause a pass, with a packet, and have a part in whether
there is a message at all (`flow_by_flow`, `flows_apart`).
-/

namespace Dotqoo.Wire

open Dotqoo.Lib Dotqoo.Table Dotqoo.Capture

/-! ## The machine of one flow -/

/-- What there is of a flow: the time of the last pass, and its record. -/
structure FlowState where
  lastTimestamp : Int
  record : Option HistoryType

/-- What happens to a flow: a `tick`, or one and a packet behind it. -/
inductive FlowInput where
  | tick (send : Bool) (t : Int)
  | packet (p : Entry)

/-- A `tick`, for one flow. -/
def FlowState.tick (o : Options) (send : Bool) (t : Int) (s : FlowState) : FlowState :=
  if send || t - s.lastTimestamp ≥ resolution then ⟨t, s.record.bind (settle o t)⟩ else s

/-- One step of a flow. -/
def flowStep (o : Options) (key : AddrPair) (s : FlowState) : FlowInput → FlowState
  | .tick send t => s.tick o send t
  | .packet p =>
    let s := s.tick o false p.env.t
    { s with
      record := some (accountRecord p.packet key p.env.t
        (s.record.getD (historyCreate p.env.created))) }

/-- The `tick` of an event. -/
def tickInput (ev : Event) : Option FlowInput :=
  ev.tickArgs.map fun args => .tick args.2.1 args.2.2

/-- What an event is for a flow: the packets of others are readings of the clock. -/
def flowInput (c : Config) (key : AddrPair) (ev : Event) : Option FlowInput :=
  match ev.entry c key with
  | some p => some (.packet p)
  | none => tickInput ev

/-- What there is of a flow in the box. -/
def flowState (key : AddrPair) (b : Box) : FlowState :=
  ⟨b.lastTimestamp, hashFind b.history.toHashType key⟩

/-- The flow after some inputs, from nothing. -/
def flowRun (o : Options) (key : AddrPair) (lastTimestamp : Int) (inputs : List FlowInput) :
    FlowState :=
  run (flowStep o key) ⟨lastTimestamp, none⟩ inputs

/-! ## The box is its flows -/

section Flows

variable (pl : Platform) (key : AddrPair)

theorem flowState_tick (e : TickEnv) (send : Bool) (t : Int) (b : Box) :
    flowState key (tick pl e send t b) = (flowState key b).tick b.config.options send t := by
  have hrotates : b.rotates send t
      = (send || decide (t - (flowState key b).lastTimestamp ≥ resolution)) := rfl
  rw [flowState, hashFind_tick, FlowState.tick, ← hrotates, tick]
  by_cases hpass : b.rotates send t = true
  · rw [if_pos hpass, if_pos hpass, if_pos hpass]
    rfl
  · rw [if_neg hpass, if_neg hpass, if_neg hpass]
    rfl

theorem flowState_tickPart (b : Box) (ev : Event) : flowState key (tickPart pl b ev)
    = run (flowStep b.config.options key) (flowState key b) (tickInput ev).toList := by
  cases ev with
  | packet e iptr hwDir => exact flowState_tick pl key e.tick false e.t b
  | tick e send t => exact flowState_tick pl key e send t b
  | delivered dt => rfl
  | connlost now connected => rfl

/-- **One event.** -/
theorem flowState_step (b : Box) (ev : Event) : flowState key (step pl b ev)
    = run (flowStep b.config.options key) (flowState key b)
        (flowInput b.config key ev).toList := by
  have htick := flowState_tickPart pl key b ev
  cases ev with
  | packet e iptr hwDir =>
    show flowState key (handleIpPacket pl e iptr hwDir b) = _
    cases hflow : acceptedFlow b.config e iptr hwDir with
    | none =>
      have hentry : (Event.packet e iptr hwDir).entry b.config key = none := by
        simp only [Event.entry, hflow]
      rw [handleIpPacket_none hflow, flowInput, hentry]
      exact htick
    | some f =>
      rw [handleIpPacket_some hflow]
      by_cases hkey : key = f.key
      · -- a packet of this flow: its record is the one behind the tick
        have hentry : (Event.packet e iptr hwDir).entry b.config key = some ⟨e, iptr⟩ := by
          simp only [Event.entry, hflow, hkey, if_pos]
        have hstate : flowState key (tick pl e.tick false e.t b)
            = (flowState key b).tick b.config.options false e.t := htick
        rw [flowInput, hentry]
        show _ = flowStep b.config.options key (flowState key b) (.packet ⟨e, iptr⟩)
        rw [flowStep, ← hstate, flowState, hashFind_account_eq, if_pos hkey, recordFor, ← hkey]
        rfl
      · have hentry : (Event.packet e iptr hwDir).entry b.config key = none := by
          simp only [Event.entry, hflow, if_neg (Ne.symm hkey)]
        rw [flowInput, hentry, flowState, hashFind_account_eq, if_neg hkey]
        exact htick
  | tick e send t => exact htick
  | delivered dt => exact htick
  | connlost now connected => exact htick

/-- **A run.** -/
theorem flowState_run (evs : List Event) (b : Box) : flowState key (run (step pl) b evs)
    = run (flowStep b.config.options key) (flowState key b)
        (evs.filterMap (flowInput b.config key)) := by
  induction evs generalizing b with
  | nil => rfl
  | cons ev evs ih =>
    have hinputs : (ev :: evs).filterMap (flowInput b.config key)
        = (flowInput b.config key ev).toList ++ evs.filterMap (flowInput b.config key) := by
      cases h : flowInput b.config key ev with
      | none => rw [List.filterMap_cons_none h]; rfl
      | some i => rw [List.filterMap_cons_some h]; rfl
    rw [run_cons, ih, step_config, flowState_step, hinputs, run_append]

end Flows

/-! ## Main results -/

section Main

variable (pl : Platform) (config : Config) (sendLast lastTimestamp connectedAt : Int)
  (connected : Bool)

/-- A flow at the start. -/
theorem flowState_boot (key : AddrPair) :
    flowState key (boot config sendLast lastTimestamp connectedAt connected)
      = ⟨lastTimestamp, none⟩ := by
  have hnone : hashFind (KeyedTable.empty addrHash HistoryType).toHashType key = none := by
    refine (KeyedTable.hashFind_eq_none_iff _).mpr fun n hn => ?_
    have hnodes := nodes_boot config sendLast lastTimestamp connectedAt connected
    exact absurd (hnodes ▸ hn) List.not_mem_nil
  exact congrArg (FlowState.mk lastTimestamp) hnone

/-- What there is of a flow after a run from the start. -/
theorem flowState_run_boot (evs : List Event) (key : AddrPair) :
    flowState key (run (step pl)
        (boot config sendLast lastTimestamp connectedAt connected) evs)
      = flowRun config.options key lastTimestamp (evs.filterMap (flowInput config key)) := by
  rw [flowState_run, flowState_boot]
  rfl

/-- A flow in the table. -/
theorem mem_nodes_iff (evs : List Event) (key : AddrPair) (d : HistoryType) :
    (⟨key, d⟩ : Node) ∈ (run (step pl)
        (boot config sendLast lastTimestamp connectedAt connected) evs).history.nodes ↔
      (flowRun config.options key lastTimestamp
        (evs.filterMap (flowInput config key))).record = some d := by
  have hrun := flowState_run_boot pl config sendLast lastTimestamp connectedAt connected evs key
  rw [← KeyedTable.hashFind_eq_some_iff, ← hrun]
  rfl

/-- **Flow by flow.** In every run the table has the records that the machines of the flows
come to, each fed with the packets of its flow and the readings of the clock. And every
message that was taken has the records that were approved then, by the same machines with
the `tick` of the event that posted it as the last input. -/
theorem flow_by_flow (hpl : pl.LongOk) (evs : List Event) :
    (∀ key d, (⟨key, d⟩ : Node) ∈ (run (step pl)
        (boot config sendLast lastTimestamp connectedAt connected) evs).history.nodes ↔
      (flowRun config.options key lastTimestamp
        (evs.filterMap (flowInput config key))).record = some d) ∧
    ∀ post ∈ posted (run (step pl)
        (boot config sendLast lastTimestamp connectedAt connected) evs).mqtt.log,
      ∃ before ev after, evs = before ++ ev :: after ∧
        Posts (run (step pl) (boot config sendLast lastTimestamp connectedAt connected) before) ev ∧
        ∀ key d, (⟨key, d⟩ : Node) ∈ post.data.slots ↔
          (flowRun config.options key lastTimestamp
            (before.filterMap (flowInput config key) ++ (tickInput ev).toList)).record = some d ∧
          d.approval = true := by
  refine ⟨mem_nodes_iff pl config sendLast lastTimestamp connectedAt connected evs,
    fun post hpost => ?_⟩
  rcases posted_run hpl evs _ post hpost with hold | ⟨before, ev, after, heq, hposts, hshows⟩
  · rw [boot, initMqtt_eq] at hold
    exact absurd hold List.not_mem_nil
  · refine ⟨before, ev, after, heq, hposts, fun key d => ?_⟩
    -- the table of the message is the one behind the tick of the event
    have htick := flowState_tickPart pl key
      (run (step pl) (boot config sendLast lastTimestamp connectedAt connected) before) ev
    rw [flowState_run_boot, run_config] at htick
    have hmachine : flowRun config.options key lastTimestamp
        (before.filterMap (flowInput config key) ++ (tickInput ev).toList)
          = flowState key (tickPart pl (run (step pl)
            (boot config sendLast lastTimestamp connectedAt connected) before) ev) := by
      rw [htick]
      exact run_append _ _ _
    rw [hshows.slots, hmachine]
    refine List.mem_filter.trans ?_
    rw [← KeyedTable.hashFind_eq_some_iff]
    exact Iff.rfl

/-- A packet, and a message that was asked for. -/
theorem flow_by_flow_packet :
    (∀ key d, (⟨key, d⟩ : Node) ∈ (run (step lp64) (boot plainConfig 0 0 0 true)
        [packetAt 10, sendAt 20 (some 1)]).history.nodes ↔
      (flowRun plainConfig.options key 0 ([packetAt 10, sendAt 20 (some 1)].filterMap
        (flowInput plainConfig key))).record = some d) ∧
    ∀ post ∈ posted (run (step lp64) (boot plainConfig 0 0 0 true)
        [packetAt 10, sendAt 20 (some 1)]).mqtt.log,
      ∃ before ev after, [packetAt 10, sendAt 20 (some 1)] = before ++ ev :: after ∧
        Posts (run (step lp64) (boot plainConfig 0 0 0 true) before) ev ∧
        ∀ key d, (⟨key, d⟩ : Node) ∈ post.data.slots ↔
          (flowRun plainConfig.options key 0
            (before.filterMap (flowInput plainConfig key) ++ (tickInput ev).toList)).record
              = some d ∧ d.approval = true :=
  flow_by_flow lp64 plainConfig 0 0 0 true (Or.inr rfl) [packetAt 10, sendAt 20 (some 1)]

/-- What other flows do, the build and the fate of the messages do not change a record. -/
theorem flows_apart (pl' : Platform) (sendLast' connectedAt' : Int) (connected' : Bool)
    {evs evs' : List Event} {key : AddrPair} (d : HistoryType)
    (hsame : evs.filterMap (flowInput config key) = evs'.filterMap (flowInput config key)) :
    (⟨key, d⟩ : Node) ∈ (run (step pl)
        (boot config sendLast lastTimestamp connectedAt connected) evs).history.nodes ↔
      (⟨key, d⟩ : Node) ∈ (run (step pl')
        (boot config sendLast' lastTimestamp connectedAt' connected') evs').history.nodes := by
  rw [mem_nodes_iff, mem_nodes_iff, hsame]

end Main

end Dotqoo.Wire
