import Dotqoo.Flow.Approval

/-!
# One flow in a run

What a run does to the record of one key. An event makes a pass over the table or
not (`Box.pass`), and it brings a packet of the flow or not (`Event.seen`); the
record after it is the record before, settled by the pass and then accounted to.
Nothing else in the table matters, and nothing else in the event.

A packet has its pass first, at its own time, so it is never 4 seconds behind the
last pass (`recent_of_seen`), and no pass is later than the packets still to come
(`pass_le_of_flowPackets`).
-/

namespace Dotqoo.Capture

open Dotqoo.Table Dotqoo.Lib

/-! ## One flow among the events -/

/-- A packet of a flow, and when it was handled. -/
structure Seen where
  t : Int
  packet : Packet
  deriving DecidableEq

/-- The packet of the flow in an event. -/
def Event.seen (c : Config) (key : AddrPair) : Event → Option Seen
  | .packet e iptr hwDir =>
    match acceptedFlow c e iptr hwDir with
    | none => none
    | some f => if f.key = key then some ⟨e.t, iptr⟩ else none
  | _ => none

/-- The packets of a flow in a run. -/
def flowPackets (c : Config) (key : AddrPair) (evs : List Event) : List Seen :=
  evs.filterMap (Event.seen c key)

/-- The two clock readings of a packet agree. -/
def Event.Agrees : Event → Prop
  | .packet e _ _ => e.created = e.t
  | _ => True

instance : DecidablePred Event.Agrees
  | .packet e _ _ => inferInstanceAs (Decidable (e.created = e.t))
  | .tick _ _ _ => isTrue trivial
  | .delivered _ => isTrue trivial
  | .connlost _ _ => isTrue trivial

/-- The time of the pass over the table that an event makes, if it makes one. -/
def Box.pass (b : Box) (ev : Event) : Option Int :=
  match ev.tickArgs with
  | none => none
  | some (_, send, t) => if b.rotates send t then some t else none

/-! ## One event, for one key -/

theorem lastTimestamp_tick (pl : Platform) (e : TickEnv) (send : Bool) (t : Int) (b : Box) :
    (tick pl e send t b).lastTimestamp = if b.rotates send t then t else b.lastTimestamp := by
  unfold tick
  split <;> rfl

theorem lastTimestamp_step (pl : Platform) (b : Box) (ev : Event) :
    (step pl b ev).lastTimestamp = (b.pass ev).getD b.lastTimestamp := by
  cases ev with
  | packet e iptr hwDir =>
    have htick : (handleIpPacket pl e iptr hwDir b).lastTimestamp
        = (tick pl e.tick false e.t b).lastTimestamp := by
      cases hf : acceptedFlow b.config e iptr hwDir with
      | none => rw [handleIpPacket_none hf]
      | some f =>
        rw [handleIpPacket_some hf]
        rfl
    show (handleIpPacket pl e iptr hwDir b).lastTimestamp
      = (if b.rotates false e.t then some e.t else none).getD b.lastTimestamp
    rw [htick, lastTimestamp_tick]
    split <;> rfl
  | tick e send t =>
    show (tick pl e send t b).lastTimestamp
      = (if b.rotates send t then some t else none).getD b.lastTimestamp
    rw [lastTimestamp_tick]
    split <;> rfl
  | delivered dt => rfl
  | connlost now connected => rfl

/-- The record of a key after the tick of an event: a pass settles it. -/
theorem hashFind_tickPart (pl : Platform) (b : Box) (ev : Event) (key : AddrPair) :
    hashFind (tickPart pl b ev).history.toHashType key =
      match b.pass ev with
      | some t => (hashFind b.history.toHashType key).bind (settle b.config.options t)
      | none => hashFind b.history.toHashType key := by
  have htick : ∀ (e : TickEnv) (send : Bool) (t : Int),
      hashFind (tick pl e send t b).history.toHashType key =
        match if b.rotates send t then some t else none with
        | some t => (hashFind b.history.toHashType key).bind (settle b.config.options t)
        | none => hashFind b.history.toHashType key := by
    intro e send t
    rw [hashFind_tick]
    by_cases hrot : b.rotates send t = true
    · rw [if_pos hrot, if_pos hrot]
    · rw [if_neg hrot, if_neg hrot]
  cases ev with
  | packet e iptr hwDir => exact htick e.tick false e.t
  | tick e send t => exact htick e send t
  | delivered dt => rfl
  | connlost now connected => rfl

theorem Event.seen_eq_some {c : Config} {key : AddrPair} {ev : Event} {s : Seen}
    (h : ev.seen c key = some s) : ∃ e hwDir f, ev = .packet e s.packet hwDir ∧ e.t = s.t
      ∧ acceptedFlow c e s.packet hwDir = some f ∧ f.key = key := by
  cases ev with
  | packet e iptr hwDir =>
    cases hf : acceptedFlow c e iptr hwDir with
    | none => simp [Event.seen, hf] at h
    | some f =>
      simp only [Event.seen, hf, Option.ite_none_right_eq_some, Option.some.injEq] at h
      obtain ⟨hkey, rfl⟩ := h
      exact ⟨e, hwDir, f, rfl, rfl, hf, hkey⟩
  | tick e send t => cases h
  | delivered dt => cases h
  | connlost now connected => cases h

/-- A packet of the flow is accounted to its record after the pass. -/
theorem step_of_seen (pl : Platform) {b : Box} {ev : Event} {key : AddrPair} {s : Seen}
    (h : ev.seen b.config key = some s) (hagree : ev.Agrees) :
    hashFind (step pl b ev).history.toHashType key
      = some (accountRecord s.packet key s.t (recordFor (tickPart pl b ev).history key s.t)) := by
  obtain ⟨e, hwDir, f, rfl, ht, hf, rfl⟩ := Event.seen_eq_some h
  have hcreated : e.created = s.t := Eq.trans hagree ht
  show hashFind (handleIpPacket pl e s.packet hwDir b).history.toHashType f.key = _
  rw [handleIpPacket_some hf, hashFind_account_eq, if_pos rfl, ht, hcreated, ← ht]
  rfl

/-- Any other event is its tick, for this flow. -/
theorem step_of_not_seen {pl : Platform} {b : Box} {ev : Event} {key : AddrPair}
    (h : ev.seen b.config key = none) :
    hashFind (step pl b ev).history.toHashType key
      = hashFind (tickPart pl b ev).history.toHashType key := by
  cases ev with
  | packet e iptr hwDir =>
    show hashFind (handleIpPacket pl e iptr hwDir b).history.toHashType key = _
    cases hf : acceptedFlow b.config e iptr hwDir with
    | none =>
      rw [handleIpPacket_none hf]
      rfl
    | some f =>
      have hkey : key ≠ f.key := by
        intro heq
        simp [Event.seen, hf, heq] at h
      rw [handleIpPacket_some hf, hashFind_account hkey]
      rfl
  | tick e send t => rfl
  | delivered dt => rfl
  | connlost now connected => rfl

theorem mem_readings_of_pass {b : Box} {ev : Event} {t : Int} (h : t ∈ b.pass ev) :
    t ∈ ev.readings := by
  unfold Box.pass at h
  cases ev with
  | packet e iptr hwDir =>
    show t ∈ [e.t, e.created]
    change t ∈ (if b.rotates false e.t then some e.t else none) at h
    split at h
    · cases h
      exact List.mem_cons_self
    · cases h
  | tick e send t' =>
    change t ∈ (if b.rotates send t' then some t' else none) at h
    split at h
    · cases h
      exact List.mem_cons_self
    · cases h
  | delivered dt => cases h
  | connlost now connected => cases h

theorem mem_readings_of_seen {c : Config} {key : AddrPair} {ev : Event} {s : Seen}
    (h : ev.seen c key = some s) : s.t ∈ ev.readings := by
  obtain ⟨e, hwDir, f, rfl, ht, -, -⟩ := Event.seen_eq_some h
  rw [← ht]
  exact List.mem_cons_self

/-- The pass in the event of a packet is at the packet's time. -/
theorem pass_of_seen {b : Box} {c : Config} {key : AddrPair} {ev : Event} {s : Seen} {t : Int}
    (h : ev.seen c key = some s) (ht : b.pass ev = some t) : t = s.t := by
  obtain ⟨e, hwDir, f, rfl, hs, -, -⟩ := Event.seen_eq_some h
  change (if b.rotates false e.t then some e.t else none) = some t at ht
  split at ht
  · cases ht
    exact hs
  · cases ht

/-- A packet is less than 4 seconds behind the last pass, its own included. -/
theorem recent_of_seen {pl : Platform} {b : Box} {c : Config} {key : AddrPair} {ev : Event}
    {s : Seen} (h : ev.seen c key = some s) :
    s.t < (step pl b ev).lastTimestamp + resolution := by
  obtain ⟨e, hwDir, f, rfl, hs, -, -⟩ := Event.seen_eq_some h
  rw [lastTimestamp_step]
  show s.t < (if b.rotates false e.t then some e.t else none).getD b.lastTimestamp + resolution
  rw [← hs]
  by_cases hrot : b.rotates false e.t = true
  · rw [if_pos hrot, resolution]
    show e.t < e.t + 4
    omega
  · rw [if_neg hrot]
    show e.t < b.lastTimestamp + resolution
    simp only [Box.rotates, Bool.false_or, ge_iff_le, decide_eq_true_eq] at hrot
    omega

/-! ## The flow's packets -/

theorem flowPackets_cons (config : Config) (key : AddrPair) (ev : Event) (evs : List Event) :
    flowPackets config key (ev :: evs)
      = (ev.seen config key).toList ++ flowPackets config key evs := by
  unfold flowPackets
  cases h : ev.seen config key with
  | none => rw [List.filterMap_cons_none h]; rfl
  | some s => rw [List.filterMap_cons_some h]; rfl

theorem mem_readings_of_flowPackets {config : Config} {key : AddrPair} {evs : List Event} {p : Seen}
    (h : p ∈ flowPackets config key evs) : p.t ∈ evs.flatMap Event.readings := by
  obtain ⟨ev, hev, hp⟩ := List.mem_filterMap.mp h
  exact List.mem_flatMap.mpr ⟨ev, hev, mem_readings_of_seen hp⟩

/-- In a run in order, the readings of an event are not later than those behind it. -/
theorem readings_le {ev : Event} {evs : List Event} {q r : Int}
    (hordered : ((ev :: evs).flatMap Event.readings).Pairwise (· ≤ ·)) (hq : q ∈ ev.readings)
    (hr : r ∈ evs.flatMap Event.readings) : q ≤ r := by
  rw [List.flatMap_cons] at hordered
  exact (List.pairwise_append.mp hordered).2.2 q hq r hr

/-- A pass is not later than the flow's packets to come, the one in its event included. -/
theorem pass_le_of_flowPackets {config : Config} {key : AddrPair} {b : Box} {ev : Event}
    {evs : List Event} {t : Int} {p : Seen} (ht : b.pass ev = some t)
    (hp : p ∈ flowPackets config key (ev :: evs))
    (hordered : ((ev :: evs).flatMap Event.readings).Pairwise (· ≤ ·)) : t ≤ p.t := by
  rw [flowPackets_cons] at hp
  rcases List.mem_append.mp hp with hp | hp
  · rw [Option.mem_toList] at hp
    exact (pass_of_seen hp ht).le
  · exact readings_le hordered (mem_readings_of_pass ht) (mem_readings_of_flowPackets hp)

end Dotqoo.Capture
