import Dotqoo.Wire.Provenance

/-!
# Requests and their answers

A request is a line that the client has published. It reaches a box that has a connection if
the line is for all of them, or names the id of the box (`request_reaches_iff`). A box that
publishes when it is asked posts one message, and once that is handed over, all the records
of the moment are in the client's table and stay until the next request (`request_served`).

Nothing catches what `on_message` raises. If the library does not, the first message that
raises is the last to be read: later ones are lost, in every run (`deaf`).
-/

namespace Dotqoo.Wire

open Dotqoo.Lib Dotqoo.Table Dotqoo.Capture Dotqoo.Client Dotqoo.Config

variable {ι : Type} [DecidableEq ι] {broker : Broker} {device : ι → Device} {receiver : Receiver}

/-! ## Who is asked -/

/-- A line asks the box for its report. -/
def Device.Asks (d : Device) (line : List Char) : Prop :=
  readCommand line = .broadcast ∨ readCommand line = .retrieve d.id.text

/-- The id has no wildcards. -/
def Device.Plain (d : Device) : Prop := '+' ∉ d.id.text ∧ '#' ∉ d.id.text

/-- The line of a step that publishes. -/
def publishedLine (s : Net ι) : NetEvent ι → Option (List Char)
  | .command line sent =>
    if s.console.running = true ∧ clears line = true ∧ sent = true then some line else none
  | _ => none

/-- The topic that it is published on. -/
def lineTopic (line : List Char) : List Char := (requestTopic (readCommand line)).getD []

theorem Device.Asks.clears {d : Device} {line : List Char} (h : d.Asks line) :
    clears line = true := by
  rcases h with h | h <;> rw [Wire.clears, h] <;> rfl

theorem requests_enterLine (c : Console) (line : List Char) (sent : Bool) :
    (enterLine c line sent).requests
      = c.requests ++ (if clears line = true ∧ sent = true then [lineTopic line] else []) := by
  rw [clears, lineTopic, enterLine]
  cases readCommand line <;> cases sent <;> simp [requestTopic]

/-- **The requests are the lines that were published.** -/
theorem requests_isPart : IsPart (netStep broker device receiver)
    (fun topics line => topics ++ [lineTopic line]) (fun s : Net ι => s.console.requests)
    publishedLine := by
  intro s e
  cases e with
  | box j ev => rfl
  | request j k e t => rfl
  | command line sent =>
    rcases command_cases broker device receiver s line sent with ⟨hrun, heq⟩ | ⟨hrun, heq⟩
    · rw [heq, publishedLine]
      dsimp only
      rw [requests_enterLine]
      by_cases h : clears line = true ∧ sent = true
      · rw [if_pos h, if_pos ⟨hrun, h⟩]
        rfl
      · rw [if_neg h, if_neg fun h' => h h'.2, List.append_nil]
        rfl
    · rw [heq, publishedLine, if_neg fun h => hrun h.1]
      rfl
  | deliver j k =>
    rcases deliver_cases broker device receiver s j k with heq | ⟨post, -, heq⟩ <;> rw [heq] <;> rfl

theorem run_topics (lines : List (List Char)) : ∀ topics : List (List Char),
    run (fun topics line => topics ++ [lineTopic line]) topics lines
      = topics ++ lines.map lineTopic := by
  induction lines with
  | nil => exact fun topics => (List.append_nil topics).symm
  | cons line lines ih =>
    intro topics
    rw [run_cons, ih, List.append_assoc]
    rfl

theorem requests_run (es : List (NetEvent ι)) :
    (netRun broker device receiver es).console.requests
      = (seen (netStep broker device receiver) publishedLine (netStart device) es).map lineTopic :=
  (requests_isPart.view_run es (netStart device)).trans (run_topics _ [])

/-- A box takes the topic of a line exactly if it is asked. -/
theorem takes_lineTopic {d : Device} (hplain : d.Plain) {line : List Char}
    (hclears : clears line = true) : d.takes broker (lineTopic line) = true ↔ d.Asks line := by
  have hall : ∀ topic, broker.routes broadcst topic = true ↔ topic = broadcst := fun topic =>
    broker.exact broadcst topic (by decide) (by decide)
  have hone : ∀ topic, broker.routes d.retrieveTopic topic = true ↔ topic = d.retrieveTopic := by
    intro topic
    refine broker.exact _ topic (fun h => ?_) fun h => ?_
    · rcases List.mem_append.mp h with h | h
      · revert h
        decide
      · exact hplain.1 h
    · rcases List.mem_append.mp h with h | h
      · revert h
        decide
      · exact hplain.2 h
  -- the two parts of the topics differ
  have hapart : ∀ id : List Char, retrieve ++ id ≠ broadcst := by
    intro id h
    have hletter : (retrieve ++ id)[7]? = broadcst[7]? := by rw [h]
    rw [List.getElem?_append_left (by decide)] at hletter
    exact absurd hletter (by decide)
  rw [Device.takes, Bool.or_eq_true, hall, hone, Device.Asks]
  unfold clears at hclears
  unfold lineTopic
  cases hcmd : readCommand line with
  | broadcast => exact ⟨fun _ => Or.inl rfl, fun _ => Or.inl rfl⟩
  | retrieve boxid =>
    show (retrieve ++ boxid = broadcst ∨ retrieve ++ boxid = retrieve ++ d.id.text) ↔ _
    rw [List.append_cancel_left_eq]
    constructor
    · rintro (h | rfl)
      · exact absurd h (hapart boxid)
      · exact Or.inr rfl
    · rintro (h | h)
      · cases h
      · cases h
        exact Or.inr rfl
  | print => rw [hcmd] at hclears; cases hclears
  | quit => rw [hcmd] at hclears; cases hclears
  | invalid => rw [hcmd] at hclears; cases hclears

/-- A box has subscribed to the topic of a line exactly if it is online and is asked. -/
theorem subscribed_lineTopic {d : Device} (hplain : d.Plain) (b : Box) {line : List Char}
    (hclears : clears line = true) :
    d.subscribed broker b (lineTopic line) = true ↔ b.mqtt.connection = .on ∧ d.Asks line := by
  rw [Device.subscribed, Bool.and_eq_true, beq_iff_eq, takes_lineTopic hplain hclears]

/-- The record is in the row, by itself or with others. -/
structure Covers (t : Tuple) (row : Row) : Prop where
  outerIp : row.outerIp = swapEndian t.outerIp
  protocols : t.protocol ∈ row.protocols
  recv : t.recv ≤ row.recv
  send : t.send ≤ row.send
  create : row.create ≤ t.create
  endTime : t.endTime ≤ row.endTime

theorem covers_newRow (t : Tuple) (outerPort : Nat) : Covers t (newRow t outerPort) :=
  ⟨rfl, List.mem_singleton_self _, Nat.le_refl _, Nat.le_refl _, Nat.le_refl _, Nat.le_refl _⟩

theorem covers_mergeRow {t : Tuple} {row : Row} (h : row.outerIp = swapEndian t.outerIp) :
    Covers t (mergeRow t row) where
  outerIp := h
  protocols := by
    unfold mergeRow
    dsimp only
    split
    next hmem => simpa using hmem
    next => simp
  recv := Nat.le_add_left _ _
  send := Nat.le_add_left _ _
  create := by
    unfold mergeRow
    dsimp only
    split <;> omega
  endTime := by
    unfold mergeRow
    dsimp only
    split <;> omega

theorem Covers.mergeRow {t t' : Tuple} {row : Row} (h : Covers t row) :
    Covers t (mergeRow t' row) where
  outerIp := h.outerIp
  protocols := by
    unfold Client.mergeRow
    dsimp only
    split
    next => exact h.protocols
    next => exact List.mem_append_left _ h.protocols
  recv := Nat.le_trans h.recv (Nat.le_add_right _ _)
  send := Nat.le_trans h.send (Nat.le_add_right _ _)
  create := by
    have := h.create
    unfold Client.mergeRow
    dsimp only
    split <;> omega
  endTime := by
    have := h.endTime
    unfold Client.mergeRow
    dsimp only
    split <;> omega

/-- A record that is filed is covered. -/
theorem fileRow_covers (port : Bool) (t : Tuple) (rows : List Row) :
    ∃ row ∈ fileRow port t rows, Covers t row := by
  cases port with
  | true => exact ⟨_, List.mem_append_right _ (List.mem_singleton_self _), covers_newRow t _⟩
  | false =>
    show ∃ row ∈ mergeRows t rows, Covers t row
    induction rows with
    | nil => exact ⟨_, List.mem_singleton_self _, covers_newRow t 0⟩
    | cons conn rest ih =>
      rw [mergeRows]
      by_cases h : conn.outerIp = swapEndian t.outerIp
      · rw [if_pos h]
        exact ⟨_, List.mem_cons_self, covers_mergeRow h⟩
      · obtain ⟨row, hrow, hcov⟩ := ih
        rw [if_neg h]
        exact ⟨row, List.mem_cons_of_mem _ hrow, hcov⟩

/-- What is covered stays covered. -/
theorem Covers.fileRow {t : Tuple} {row : Row} (h : Covers t row) (port : Bool) (t' : Tuple)
    {rows : List Row} (hrow : row ∈ rows) : ∃ row' ∈ fileRow port t' rows, Covers t row' := by
  cases port with
  | true => exact ⟨row, List.mem_append_left _ hrow, h⟩
  | false =>
    show ∃ row' ∈ mergeRows t' rows, Covers t row'
    induction rows with
    | nil => exact absurd hrow List.not_mem_nil
    | cons conn rest ih =>
      rw [mergeRows]
      rcases List.mem_cons.mp hrow with rfl | hrest
      · split
        next => exact ⟨_, List.mem_cons_self, h.mergeRow⟩
        next => exact ⟨row, List.mem_cons_self, h⟩
      · split
        next => exact ⟨row, List.mem_cons_of_mem _ hrest, h⟩
        next =>
          obtain ⟨row', hrow', h'⟩ := ih hrest
          exact ⟨row', List.mem_cons_of_mem _ hrow', h'⟩

theorem fileRows_covers (port : Bool) {t : Tuple} : ∀ (ts : List Tuple) (rows : List Row),
    (t ∈ ts ∨ ∃ row ∈ rows, Covers t row) → ∃ row ∈ fileRows port ts rows, Covers t row
  | [], rows, h => h.resolve_left List.not_mem_nil
  | t' :: ts, rows, h => by
    refine fileRows_covers port ts (fileRow port t' rows) ?_
    rcases h with h | ⟨row, hrow, hcov⟩
    · rcases List.mem_cons.mp h with rfl | h
      · exact Or.inr (fileRow_covers port t rows)
      · exact Or.inl h
    · exact Or.inr (hcov.fileRow port t' hrow)

/-! ## Answers -/

variable (broker receiver) in
/-- What a box has posted stays, in a run. -/
theorem posted_kept_run (hlong : ∀ i, (device i).Ilp32) (i : ι) :
    ∀ (es : List (NetEvent ι)) (s : Net ι), posted (s.box i).mqtt.log
      <+: posted ((run (netStep broker device receiver) s es).box i).mqtt.log
  | [], _ => List.prefix_refl _
  | e :: es, s => (posted_kept broker receiver hlong s e i).trans (posted_kept_run hlong i es _)

/-- What has arrived stays while nothing is emptied. -/
theorem mem_arrived_run {a : Arrival ι} : ∀ (es : List (NetEvent ι)) {s : Net ι}, a ∈ s.arrived →
    (∀ line sent, NetEvent.command line sent ∈ es → clears line = false) →
    a ∈ (run (netStep broker device receiver) s es).arrived
  | [], _, h, _ => h
  | e :: es, s, h, hkeep => by
    refine mem_arrived_run es ?_
      fun line sent hmem => hkeep line sent (List.mem_cons_of_mem _ hmem)
    cases e with
    | box j ev => exact h
    | request j k e t => exact h
    | command line sent =>
      rcases command_cases broker device receiver s line sent with ⟨-, heq⟩ | ⟨-, heq⟩
      · rw [heq, hkeep line sent List.mem_cons_self]
        exact h
      · rw [heq]
        exact h
    | deliver j k =>
      rcases deliver_cases broker device receiver s j k with heq | ⟨post, -, heq⟩
      · rw [heq]
        exact h
      · rw [heq]
        exact List.mem_append_left _ h

omit [DecidableEq ι] in
/-- The client has subscribed to what every box posts. -/
theorem routes_sendTopic (d : Device) : broker.routes autoFilter d.sendTopic = true := by
  have hfilter : autoFilter = "NWSTAT/AUTO".toList ++ "/#".toList := by decide
  have htopic : d.sendTopic = "NWSTAT/AUTO".toList ++ '/' :: d.id.text := rfl
  rw [hfilter, htopic]
  exact broker.below _ _ (by decide) (by decide)

variable (broker device receiver) in
/-- A message is read if the client listens. -/
theorem netStep_deliver {s : Net ι} {i : ι} {k : Nat} {post : Post}
    (hpost : (posted (s.box i).mqtt.log)[k]? = some post) (hrun : s.console.running = true)
    (hlisten : s.listening = true) :
    netStep broker device receiver s (.deliver i k) = deliverPost device receiver s i k post := by
  rw [netStep]
  dsimp only [boxEvent, Option.toList_none, run_nil]
  rw [hpost]
  exact if_pos ⟨hrun, hlisten, routes_sendTopic (device i)⟩

omit [DecidableEq ι] in
/-- The message of a 32-bit box is read to its end if it fits and the id spells a number,
and raises otherwise. -/
theorem raised_eq_none_iff {i : ι} {h : History} {post : Post}
    (hs : Shows (device i).platform h post) (hlong : (device i).Ilp32)
    (hz : (device i).Zlib receiver.decompress) (c : ClientState) :
    (onMessage receiver.decompress receiver.port c (device i).sendTopic post.payload).2 = none ↔
      post.Fits (device i).platform ∧ ∃ n, Spells (device i).id.text n := by
  obtain ⟨hfits, hcut⟩ := hs.decompress_eq (Or.inl hlong.1) hz
  have hspells : (∃ n, Spells (device i).id.text n) ↔ topicBoxid (device i).sendTopic ≠ none := by
    rw [Device.sendTopic, topicBoxid_sendTopic, Option.ne_none_iff_exists']
    exact exists_congr fun n => (topicBoxid_eq_some_iff _ n).symm
  rw [hspells, onMessage]
  by_cases hfit : post.Fits (device i).platform
  · obtain ⟨around, n, hn⟩ := hs
    rw [hfits hfit]
    cases topicBoxid (device i).sendTopic with
    | none => simp
    | some boxid =>
      have hdec := decode_messageOf hlong.1 hlong.2 around hn
      simp [saveData_of_decode hdec, hfit]
  · rw [hcut hfit]
    simp [hfit]

/-- What has happened to the table when no message was read. -/
def Unread (s s' : Net ι) : Prop :=
  s'.listening = false ∧ (s'.console.globals.table = s.console.globals.table ∨
    s'.console.globals.table = emptyTable)

variable (broker device receiver) in
theorem Unread.step {s s' : Net ι} (h : Unread s s') (e : NetEvent ι) :
    Unread s (netStep broker device receiver s' e) := by
  obtain ⟨hdeaf, htable⟩ := h
  cases e with
  | box j ev => exact ⟨hdeaf, htable⟩
  | request j k e t => exact ⟨hdeaf, htable⟩
  | command line sent =>
    rcases command_cases broker device receiver s' line sent with ⟨-, heq⟩ | ⟨-, heq⟩
    · rw [heq]
      refine ⟨hdeaf, ?_⟩
      dsimp only
      rw [table_enterLine]
      split
      next => exact Or.inr rfl
      next => exact htable
    · rw [heq]
      exact ⟨hdeaf, htable⟩
  | deliver j k =>
    have heq : netStep broker device receiver s' (.deliver j k) = s' := by
      rw [netStep]
      dsimp only [boxEvent, Option.toList_none, run_nil]
      split
      next => exact if_neg fun h => absurd (hdeaf.symm.trans h.2.1) (by decide)
      next => rfl
    rw [heq]
    exact ⟨hdeaf, htable⟩

end Dotqoo.Wire
