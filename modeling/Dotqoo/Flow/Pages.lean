import Dotqoo.Flow.Conservation

/-!
# Which packets a record has counted

The ledger says that a record counts the packets on a page. Here the page is found in the
run itself: it is the last of the packets accepted under the key, from the one that
created the record on, without a gap (`pagesInv_run`). Both times of the record are of that
page, the creation of its first packet and the `t` of its last one.

No clock is assumed to go forward, and nothing of the filters. What a pass may do to a
record, it keeps counters and times, or it removes the record; so the page only ever grows
at its end, and begins anew with the record.
-/

namespace Dotqoo.Capture

open Dotqoo.Table Dotqoo.Lib

/-- An accepted packet, with what `handle_ip_packet` read from its environment. -/
structure Entry where
  env : PacketEnv
  packet : Packet

/-- The packet of an event, if it is accepted under the key. -/
def Event.entry (c : Config) (key : AddrPair) : Event → Option Entry
  | .packet e iptr hwDir =>
    match acceptedFlow c e iptr hwDir with
    | none => none
    | some f => if f.key = key then some ⟨e, iptr⟩ else none
  | _ => none

/-- The packets accepted under a key in a run. -/
def entries (c : Config) (key : AddrPair) (evs : List Event) : List Entry :=
  evs.filterMap (Event.entry c key)

/-- The record has counted the packets of the page, and has its times from them. -/
structure Counts (n : Node) (page : List Entry) : Prop where
  bytes : Agrees n.key n.record (page.map Entry.packet)
  create : page.head?.map (fun p => p.env.created) = some n.record.createTime
  update : page.getLast?.map (fun p => p.env.t) = some n.record.lastUpdateTime

/-- Every record has counted the last packets accepted under its key. -/
def PagesInv (b : Box) (evs : List Event) : Prop :=
  ∀ n ∈ b.history.nodes, ∃ page, page <:+ entries b.config n.key evs ∧ Counts n page

/-! ## One event -/

/-- Key, counters and times are all that matters. -/
theorem Counts.of_eq {n m : Node} {page : List Entry} (h : Counts m page) (hkey : n.key = m.key)
    (hs : n.record.totalSent = m.record.totalSent) (hr : n.record.totalRecv = m.record.totalRecv)
    (hc : n.record.createTime = m.record.createTime)
    (hu : n.record.lastUpdateTime = m.record.lastUpdateTime) : Counts n page where
  bytes := by
    rw [Agrees, hs, hr, hkey]
    exact h.bytes
  create := by
    rw [hc]
    exact h.create
  update := by
    rw [hu]
    exact h.update

/-- One more packet on the page of a record. -/
theorem Counts.account {key : AddrPair} {d : HistoryType} {page : List Entry}
    (h : Counts ⟨key, d⟩ page) (e : PacketEnv) (iptr : Packet) :
    Counts ⟨key, accountRecord iptr key e.t d⟩ (page ++ [⟨e, iptr⟩]) where
  bytes := by
    rw [List.map_append]
    exact h.bytes.account iptr e.t
  create := by
    rw [accountRecord_createTime, List.head?_append, Option.map_or, h.create]
    rfl
  update := by
    rw [accountRecord_lastUpdateTime, List.getLast?_concat]
    rfl

/-- A fresh record has a page of one packet. -/
theorem counts_fresh (key : AddrPair) (e : PacketEnv) (iptr : Packet) :
    Counts ⟨key, accountRecord iptr key e.t (historyCreate e.created)⟩ [⟨e, iptr⟩] where
  bytes := by
    have hzero : Agrees key (historyCreate e.created) [] := ⟨rfl, rfl⟩
    exact hzero.account iptr e.t
  create := by
    rw [accountRecord_createTime]
    rfl
  update := by
    rw [accountRecord_lastUpdateTime]
    rfl

theorem entries_concat (c : Config) (key : AddrPair) (evs : List Event) (ev : Event) :
    entries c key (evs ++ [ev]) = entries c key evs ++ (ev.entry c key).toList := by
  unfold entries
  rw [List.filterMap_append]
  cases h : ev.entry c key with
  | none => rw [List.filterMap_cons_none h]; rfl
  | some p => rw [List.filterMap_cons_some h]; rfl

/-- What a pass leaves has its page. -/
theorem PagesInv.tickPart (pl : Platform) {b : Box} {evs : List Event} (h : PagesInv b evs)
    (ev : Event) : ∀ n ∈ (Capture.tickPart pl b ev).history.nodes,
      ∃ page, page <:+ entries b.config n.key evs ∧ Counts n page := by
  intro n hn
  obtain ⟨d, hd, hs, hr, hc, hu, -⟩ := mem_tickPart hn
  obtain ⟨page, hsuffix, hcounts⟩ := h ⟨n.key, d⟩ hd
  exact ⟨page, hsuffix, hcounts.of_eq rfl hs hr hc hu⟩

theorem PagesInv.step (pl : Platform) {b : Box} {evs : List Event} (h : PagesInv b evs)
    (ev : Event) : PagesInv (Capture.step pl b ev) (evs ++ [ev]) := by
  have htick := h.tickPart pl ev
  intro n hn
  rw [step_config, entries_concat]
  -- without a packet of its own a record is as the pass left it
  have hold : n ∈ (Capture.tickPart pl b ev).history.nodes → ev.entry b.config n.key = none →
      ∃ page, page <:+ entries b.config n.key evs ++ (ev.entry b.config n.key).toList
        ∧ Counts n page := by
    intro hmem hnone
    rw [hnone, Option.toList_none, List.append_nil]
    exact htick n hmem
  cases ev with
  | packet e iptr hwDir =>
    change n ∈ (handleIpPacket pl e iptr hwDir b).history.nodes at hn
    cases ha : acceptedFlow b.config e iptr hwDir with
    | none =>
      rw [handleIpPacket_none ha] at hn
      exact hold hn (by simp only [Event.entry, ha])
    | some f =>
      rw [handleIpPacket_some ha] at hn
      rcases mem_account.mp hn with ⟨hn, hkey⟩ | rfl
      · exact hold hn (by simp only [Event.entry, ha, if_neg (Ne.symm hkey)])
      · have hentry : (Event.packet e iptr hwDir).entry b.config f.key = some ⟨e, iptr⟩ := by
          simp only [Event.entry, ha, if_pos]
        show ∃ page, page <:+ entries b.config f.key evs
          ++ ((Event.packet e iptr hwDir).entry b.config f.key).toList ∧ Counts _ page
        rw [hentry, Option.toList_some]
        rw [recordFor]
        cases hf : hashFind (tick pl e.tick false e.t b).history.toHashType f.key with
        | none =>
          exact ⟨[⟨e, iptr⟩], List.suffix_append _ _, counts_fresh f.key e iptr⟩
        | some d =>
          obtain ⟨page, ⟨front, hfront⟩, hcounts⟩ :=
            htick ⟨f.key, d⟩ ((KeyedTable.hashFind_eq_some_iff _).mp hf)
          rw [Option.getD_some]
          refine ⟨page ++ [⟨e, iptr⟩], ⟨front, ?_⟩, hcounts.account e iptr⟩
          rw [← hfront, List.append_assoc]
  | tick e send t => exact hold hn rfl
  | delivered dt => exact hold hn rfl
  | connlost now connected => exact hold hn rfl

/-! ## A run -/

/-- Every record of a run has counted a page that ends with the run. -/
theorem pagesInv_run (pl : Platform) (config : Config)
    (sendLast lastTimestamp connectedAt : Int) (connected : Bool) (evs : List Event) :
    PagesInv (run (step pl) (boot config sendLast lastTimestamp connectedAt connected) evs)
      evs := by
  induction evs using List.reverseRecOn with
  | nil =>
    intro n hn
    rw [run_nil, nodes_boot] at hn
    exact absurd hn List.not_mem_nil
  | append_singleton evs ev ih =>
    rw [run_append, run_cons, run_nil]
    exact ih.step pl ev

end Dotqoo.Capture
