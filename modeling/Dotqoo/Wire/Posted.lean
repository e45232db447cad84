import Dotqoo.Client.Views
import Dotqoo.Publish.Moves
import Dotqoo.Publish.Payload

/-!
# What a box posts

The messages that the library takes (`posted`), and what the client makes of them. A
message shows the history table of one moment, right behind a pass (`Shows`). The count
of that pass may be too high; then zero bytes follow the records, and the client reads
them as records of the address 0.0.0.0, which its filter drops. So for a 32-bit box the
count does not matter: a message that can be decompressed files the approved records of
the table, no more and no less (`Shows.recordsUnder_call`).
-/

namespace Dotqoo.Wire

open Dotqoo.Lib Dotqoo.Table Dotqoo.Capture Dotqoo.Client

/-! ## The end of the block -/

/-- The block is as before, from the cursor on. -/
def Behind (w w' : Writer) : Prop :=
  w.current ≤ w'.current ∧ ∀ c, w'.current ≤ c → w'.block.drop c = w.block.drop c

theorem Behind.refl (w : Writer) : Behind w w := ⟨Nat.le_refl _, fun _ _ => rfl⟩

theorem Behind.trans {w w' w'' : Writer} (h : Behind w w') (h' : Behind w' w'') :
    Behind w w'' :=
  ⟨Nat.le_trans h.1 h'.1,
    fun c hc => (h'.2 c hc).trans (h.2 c (Nat.le_trans h'.1 hc))⟩

theorem behind_memcpy (w : Writer) (src : List UInt8) : Behind w (w.memcpy src) := by
  unfold Writer.memcpy
  split
  next hfit =>
    refine ⟨Nat.le_add_right _ _, fun c hc => ?_⟩
    dsimp only at hc ⊢
    have hfront : (w.block.take w.current ++ src).length = w.current + src.length := by
      rw [List.length_append, List.length_take]
      omega
    rw [List.drop_append, List.drop_eq_nil_of_le (by omega), List.nil_append, List.drop_drop,
      hfront]
    congr 1
    omega
  next => exact ⟨Nat.le_add_right _ _, fun _ _ => rfl⟩

theorem behind_writeRecord (pl : Platform) (nb : Neighbours) (n : Node) (w : Writer) :
    Behind w (writeRecord pl nb n w) := by
  have hfold : ∀ (fields : List (List UInt8)) (w : Writer),
      Behind w (fields.foldl Writer.memcpy w) := by
    intro fields
    induction fields with
    | nil => exact Behind.refl
    | cons src fields ih => exact fun w => (behind_memcpy w src).trans (ih _)
  exact hfold (recordFields pl nb n) w

theorem behind_encodeLoop (pl : Platform) (around : AddrPair → Neighbours) (h : History) :
    ∀ (fuel : Nat) (p : List Node) (w : Writer), Behind w (encodeLoop pl around h fuel p w)
  | 0, _, w => Behind.refl w
  | _ + 1, [], w => Behind.refl w
  | fuel + 1, n :: rest, w => by
    rw [encodeLoop]
    refine Behind.trans ?_ (behind_encodeLoop pl around h fuel _ _)
    split
    next => exact behind_writeRecord pl (around n.key) n w
    next => exact Behind.refl w

/-- **The records, and zeros** up to the size that the count asks for. -/
theorem encodeTable_zeros {pl : Platform} (hpl : pl.LongOk) (around : AddrPair → Neighbours)
    {n : Nat} {h : History} (hn : (approvedOf h.nodes).length ≤ n) :
    (encodeTable pl around n h).block = tableBytes pl around h.nodes
      ++ List.replicate (pl.structSize * (n - (approvedOf h.nodes).length)) 0 := by
  have hfill := encodeTable_filled hpl around hn
  obtain ⟨rest, hrest⟩ := hfill.block
  have hbehind := (behind_encodeLoop pl around h h.nodes.length (hashNextItem h.toHashType [])
    ⟨List.replicate (pl.structSize * n) 0, 0, false, []⟩).2 _ (Nat.le_refl _)
  have hcursor : (encodeTable pl around n h).current = (tableBytes pl around h.nodes).length :=
    hfill.current
  rw [← encodeTable, hcursor, hrest, List.drop_left' rfl, List.drop_replicate,
    length_tableBytes hpl] at hbehind
  rw [hrest, hbehind, Nat.mul_sub]

/-! ## What the client reads -/

/-- What 38 zero bytes are read as. -/
def zeroTuple : Tuple := ⟨0, 0, 0, 0, 0, 0, 0, 0, 0⟩

theorem unpack_zeros : unpack (List.replicate Client.structSize 0) = some zeroTuple := by
  decide

/-- A message of a 32-bit box decodes, whatever its count. -/
theorem decode_messageOf {pl : Platform} (hlong : pl.sizeofLong = 4) (htime : pl.sizeofTimeT = 4)
    (around : AddrPair → Neighbours) {n : Nat} {h : History}
    (hn : (approvedOf h.nodes).length ≤ n) :
    decode (messageOf pl around n h).bytes = some ((approvedOf h.nodes).map wireTuple
      ++ List.replicate (n - (approvedOf h.nodes).length) zeroTuple) := by
  have hpl : pl.LongOk := Or.inl hlong
  have hsize : pl.structSize = Client.structSize := by
    rw [Platform.structSize, hlong, htime]
    rfl
  have hbytes : (messageOf pl around n h).bytes =
      ((approvedOf h.nodes).map (fun d : Node => recordBytes pl (around d.key) d)
        ++ List.replicate (n - (approvedOf h.nodes).length)
          (List.replicate Client.structSize 0)).flatten := by
    rw [List.flatten_append, List.flatten_replicate_replicate, Nat.mul_comm, ← hsize]
    exact encodeTable_zeros hpl around hn
  have hslices : slices Client.structSize (messageOf pl around n h).bytes =
      (approvedOf h.nodes).map (fun d : Node => recordBytes pl (around d.key) d)
        ++ List.replicate (n - (approvedOf h.nodes).length)
          (List.replicate Client.structSize 0) := by
    rw [hbytes]
    apply slices_flatten (show 0 < Client.structSize by decide)
    intro r hr
    rcases List.mem_append.mp hr with hr | hr
    · obtain ⟨d, -, rfl⟩ := List.mem_map.mp hr
      rw [length_recordBytes hpl, hsize]
    · rw [List.eq_of_mem_replicate hr, List.length_replicate]
  have hrecords := mapM_eq_some_map (f := unpack) (g := wireTuple)
    (e := fun d : Node => recordBytes pl (around d.key) d)
    (fun d => unpack_recordBytes hlong htime (around d.key) d) (approvedOf h.nodes)
  have hzeros : ∀ k : Nat, (List.replicate k (List.replicate Client.structSize 0)).mapM unpack
      = some (List.replicate k zeroTuple) := by
    intro k
    induction k with
    | zero => rfl
    | succ k ih =>
      rw [List.replicate_succ, List.mapM_cons, unpack_zeros, ih]
      rfl
  rw [decode, hslices, List.mapM_append, hrecords, hzeros]
  rfl

/-- The records of a call whose message decodes. -/
theorem unpacked_of_mapM : ∀ {ss : List (List UInt8)} {ts : List Tuple}, ss.mapM unpack = some ts →
    unpacked ss = ts
  | [], ts, h => by
    obtain rfl : [] = ts := by simpa using h
    rfl
  | slice :: ss, ts, h => by
    rw [List.mapM_cons] at h
    obtain ⟨t, hslice, h⟩ := Option.bind_eq_some_iff.mp h
    obtain ⟨ts', hss, hcons⟩ := Option.bind_eq_some_iff.mp h
    obtain rfl : t :: ts' = ts := Option.some.inj hcons
    rw [unpacked, hslice, unpacked_of_mapM hss]

/-! ## Posting -/

/-- A message that the library has taken, with its payload. -/
structure Post where
  data : Message
  payload : List UInt8

/-- The messages that the library has taken, in order. -/
def posted (log : List Action) : List Post :=
  log.filterMap fun
    | .publish (some _) (.live data) payload => some ⟨data, payload⟩
    | _ => none

/-- The message is that of a table, for a count that is not too low, and the payload is
as much of its stream as fits. -/
inductive Shows (pl : Platform) (h : History) : Post → Prop
  | mk (around : AddrPair → Neighbours) (n : Nat) :
    (approvedOf h.nodes).length ≤ n →
    Shows pl h ⟨messageOf pl around n h,
      (pl.deflate (messageOf pl around n h).bytes).take (pl.structSize * n)⟩

/-- The event comes to a publish call, and the library takes the message. -/
def Posts (b : Box) (ev : Event) : Prop :=
  ∃ e send t tk, ev.tickArgs = some (e, send, t) ∧ b.Publishes e send t ∧ e.publish = some tk

theorem posted_append (log log' : List Action) :
    posted (log ++ log') = posted log ++ posted log' := by
  rw [posted, List.filterMap_append]
  rfl

theorem posted_connectAndSubscribe (connected : Bool) (m : Mqtt) :
    posted (connectAndSubscribe connected m).2.log = posted m.log := by
  by_cases hp : m.status = .pending
  · rw [connectAndSubscribe_pending hp]
    exact (posted_append m.log _).trans (List.append_nil _)
  · rw [connectAndSubscribe_idle hp]

theorem posted_checkStatus (m : Mqtt) : posted (checkStatus m).log = posted m.log := by
  unfold checkStatus
  split
  next => simp [posted, Mqtt.freeOut, Mqtt.freeData]
  next => rfl

/-- A `tick` that publishes has the message of its table. -/
theorem tick_mqtt_of_publishes {pl : Platform} {e : TickEnv} {send : Bool} {t : Int} {b : Box}
    (h : b.Publishes e send t) : (tick pl e send t b).mqtt = checkStatus (b.mqtt.sent pl
      (historyRotate b.config.options t e.stale b.history).size
      (messageOf pl e.around (historyRotate b.config.options t e.stale b.history).size
        (tick pl e send t b).history) e.publish) := by
  have hmiddle : (tick pl e send t b).mqtt = checkStatus (tickMqtt pl e (b.due send t) t
      (historyRotate b.config.options t e.stale b.history).size
      (tick pl e send t b).history b.mqtt) := by
    rw [tick, if_pos h.1]
  rw [hmiddle]
  rcases tickMqtt_cases pl e (b.due send t) t
    (historyRotate b.config.options t e.stale b.history).size
    (tick pl e send t b).history b.mqtt with ⟨-, hm⟩ | ⟨hno, -⟩
  · rw [hm]
  · exact absurd h.2 hno

/-- A `tick` that does not publish posts nothing. -/
theorem posted_tick_of_not_publishes {pl : Platform} {e : TickEnv} {send : Bool} {t : Int}
    {b : Box} (h : ¬ b.Publishes e send t) :
    posted (tick pl e send t b).mqtt.log = posted b.mqtt.log := by
  rcases tick_mqtt pl e send t b with ⟨-, hm⟩ | ⟨-, -, hm⟩ | ⟨hp, -⟩
  · rw [hm, posted_checkStatus]
  · rw [hm, posted_checkStatus, posted_connectAndSubscribe]
  · exact absurd hp h

/-- A `tick` that publishes posts one message, if the library takes it, and the message
shows the table behind the pass. -/
theorem posted_tick {pl : Platform} (hpl : pl.LongOk) {e : TickEnv} {send : Bool} {t : Int}
    {b : Box} (h : b.Publishes e send t) : ∃ post, Shows pl (tick pl e send t b).history post ∧
      posted (tick pl e send t b).mqtt.log
        = posted b.mqtt.log ++ (if e.publish.isSome then [post] else []) := by
  have hhistory : (tick pl e send t b).history
      = (historyRotate b.config.options t e.stale b.history).history := by
    rw [tick, if_pos h.1]
  have hcount : (approvedOf (tick pl e send t b).history.nodes).length
      ≤ (historyRotate b.config.options t e.stale b.history).size := by
    rw [hhistory, (historyRotate_spec b.config.options t e.stale b.history).2.1]
    exact Nat.le_add_right _ _
  have hbytes : (messageOf pl e.around (historyRotate b.config.options t e.stale b.history).size
      (tick pl e send t b).history).bytes.length
        = pl.structSize * (historyRotate b.config.options t e.stale b.history).size :=
    (encodeTable_filled hpl e.around hcount).size
  refine ⟨_, .mk e.around _ hcount, ?_⟩
  rw [tick_mqtt_of_publishes h, posted_checkStatus, sent_log, posted_append,
    payload_withMessage b.mqtt _ hbytes]
  cases e.publish with
  | none => rfl
  | some tk => rfl

/-- **What an event posts**: nothing, or one message that shows the table. -/
theorem posted_step {pl : Platform} (hpl : pl.LongOk) (b : Box) (ev : Event) :
    (Posts b ev → ∃ post, Shows pl (tickPart pl b ev).history post ∧
      posted (step pl b ev).mqtt.log = posted b.mqtt.log ++ [post]) ∧
    (¬ Posts b ev → posted (step pl b ev).mqtt.log = posted b.mqtt.log) := by
  rcases step_mqtt pl b ev with ⟨e, send, t, hargs, hpart, hm⟩ | ⟨dt, rfl, hm⟩
    | ⟨now, connected, rfl, hm⟩
  · have hposts : Posts b ev ↔ b.Publishes e send t ∧ e.publish.isSome := by
      constructor
      · rintro ⟨e', send', t', tk, hargs', hpub, hsome⟩
        rw [hargs'] at hargs
        cases hargs
        exact ⟨hpub, by rw [hsome]; rfl⟩
      · rintro ⟨hpub, hsome⟩
        obtain ⟨tk, htk⟩ := Option.isSome_iff_exists.mp hsome
        exact ⟨e, send, t, tk, hargs, hpub, htk⟩
    rw [hm, hpart, hposts]
    refine ⟨fun ⟨hpub, hsome⟩ => ?_, fun hno => ?_⟩
    · obtain ⟨post, hshows, hpost⟩ := posted_tick hpl hpub
      rw [if_pos hsome] at hpost
      exact ⟨post, hshows, hpost⟩
    · by_cases hpub : b.Publishes e send t
      · obtain ⟨post, -, hpost⟩ := posted_tick hpl hpub
        rw [if_neg fun hsome => hno ⟨hpub, hsome⟩, List.append_nil] at hpost
        exact hpost
      · exact posted_tick_of_not_publishes hpub
  · have hno : ¬ Posts b (.delivered dt) := by
      rintro ⟨e, send, t, tk, hargs, -⟩
      cases hargs
    refine ⟨fun h => absurd h hno, fun _ => ?_⟩
    rw [hm]
    rfl
  · have hno : ¬ Posts b (.connlost now connected) := by
      rintro ⟨e, send, t, tk, hargs, -⟩
      cases hargs
    refine ⟨fun h => absurd h hno, fun _ => ?_⟩
    rw [hm, connlost, posted_connectAndSubscribe]
    exact (posted_append b.mqtt.log _).trans (List.append_nil _)

/-! ## Taking a message -/

section Taking

variable {pl : Platform} {h : History} {post : Post}

@[simp] theorem Shows.slots (hs : Shows pl h post) : post.data.slots = approvedOf h.nodes := by
  cases hs
  exact slots_messageOf ..

/-- The compressed message fits. -/
def Post.Fits (pl : Platform) (post : Post) : Prop :=
  (pl.deflate post.data.bytes).length ≤ post.data.bytes.length

variable {decompress : List UInt8 → Option (List UInt8)}

/-- **A payload** decompresses to its message if the stream has fitted, and to nothing
otherwise. -/
theorem Shows.decompress_eq (hs : Shows pl h post) (hpl : pl.LongOk)
    (hz : SelfDelimiting pl.deflate decompress) :
    (post.Fits pl → decompress post.payload = some post.data.bytes) ∧
    (¬ post.Fits pl → decompress post.payload = none) := by
  obtain ⟨around, n, hn⟩ := hs
  have hsize : (messageOf pl around n h).bytes.length = pl.structSize * n :=
    (encodeTable_filled hpl around hn).size
  rw [Post.Fits, hsize]
  refine ⟨hz.dec_take_iff.mpr, fun hlong => ?_⟩
  exact hz.dec_take_of_lt (Nat.lt_of_not_le hlong)

/-- The approved records with a destination address, as the client reads them. -/
def tuplesFor (ip : Nat) (slots : List Node) : List Tuple :=
  (slots.filter fun n => hostOrder n.key.dst == ip).map wireTuple

/-- **What a message files** under a key of 172.16.0.0/16. -/
theorem Shows.recordsUnder_call (hs : Shows pl h post) (hlong : pl.sizeofLong = 4)
    (htime : pl.sizeofTimeT = 4) (boxid b : Int) {ip : Nat} (hip : InNet ip) :
    recordsUnder (b, ip) (filed [⟨boxid, post.data.bytes⟩])
      = if boxid = b then tuplesFor ip post.data.slots else [] := by
  obtain ⟨around, n, hn⟩ := hs
  have hrecords : (⟨boxid, (messageOf pl around n h).bytes⟩ : Call).records
      = (approvedOf h.nodes).map wireTuple
        ++ List.replicate (n - (approvedOf h.nodes).length) zeroTuple :=
    unpacked_of_mapM (decode_messageOf hlong htime around hn)
  have hfiled : filed [⟨boxid, (messageOf pl around n h).bytes⟩]
      = ((approvedOf h.nodes).map wireTuple
        ++ List.replicate (n - (approvedOf h.nodes).length) zeroTuple).map fun t => (boxid, t) := by
    simp [filed, hrecords]
  rw [recordsUnder, hfiled, tuplesFor, slots_messageOf]
  by_cases hb : boxid = b
  · subst hb
    -- the address of the zeros is not an inner one
    have hzero : ((List.replicate (n - (approvedOf h.nodes).length) zeroTuple).filter
        fun t => swapEndian t.innerIp == ip) = [] := by
      refine List.filter_eq_nil_iff.mpr fun t ht => ?_
      rw [List.eq_of_mem_replicate ht]
      have hout : swapEndian zeroTuple.innerIp = 0 := by decide
      rw [hout, beq_iff_eq]
      unfold InNet at hip
      omega
    have hfilter : ∀ ts : List Tuple, ((ts.map fun t => (boxid, t)).filter
        fun p => (p.1, swapEndian p.2.innerIp) = (boxid, ip)).map Prod.snd
          = ts.filter fun t => swapEndian t.innerIp == ip := by
      intro ts
      rw [List.filter_map, List.map_map]
      refine (List.map_id' _).trans (List.filter_congr fun t _ => ?_)
      rw [Bool.eq_iff_iff]
      simp
    rw [hfilter, if_pos rfl, List.filter_append, hzero, List.append_nil]
    exact recordsFor_wireTuple ip (approvedOf h.nodes)
  · rw [if_neg hb, List.map_eq_nil_iff, List.filter_eq_nil_iff]
    intro p hp
    obtain ⟨t, -, rfl⟩ := List.mem_map.mp hp
    simp [hb]

end Taking

end Dotqoo.Wire
