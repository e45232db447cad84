import Dotqoo.Client.OnMessage
import Dotqoo.Config.ArgsExact

/-!
# The box id in the topic

A box reads its id from the command `boxid` and publishes under a topic that ends
in it. The client takes the last part of the topic and makes it an `int`: a box id
is a number there, and two ids that spell one number are one box.

Both topics have buffers of 32 characters, of which the first part of the topic
takes twelve. `construct_topic` copies without looking; `strcpyAt` is `none` when a
copy leaves its buffer.
-/

namespace Dotqoo.Wire

open Dotqoo.Lib Dotqoo.Client Dotqoo.Config

/-! ## The box -/

/-- `SEND_TOPIC`. -/
def sendTopic : CString := "NWSTAT/AUTO/".toList

/-- `RETRIEVE`. -/
def retrieve : CString := "NWSTAT/RETV/".toList

/-- The sizes of `id`, `my_send_topic` and `my_retrieve_topic`. -/
def idSize : Nat := 32

/-- `get_device_id`, from what the command prints; `none` is `exit(1)`. -/
def getDeviceId (output : List Char) : Option CString :=
  (fgets idSize output).map fun read => read.1.takeWhile fun c => c ≠ '\n'

/-- `my_send_topic` and `my_retrieve_topic`. -/
structure Topics where
  mySendTopic : List Char
  myRetrieveTopic : List Char
  length_send : mySendTopic.length = idSize
  length_retrieve : myRetrieveTopic.length = idSize

/-- A fixed text and the id, copied into a buffer one behind the other. -/
def writeTopic (dest : List Char) (start id : CString) : Option (List Char) := do
  let dest ← strcpyAt dest 0 start
  strcpyAt dest start.length id

/-- `construct_topic`: both buffers afterwards. -/
def constructTopic (t : Topics) (id : CString) : Option (List Char × List Char) := do
  let mySendTopic ← writeTopic t.mySendTopic sendTopic id
  let myRetrieveTopic ← writeTopic t.myRetrieveTopic retrieve id
  some (mySendTopic, myRetrieveTopic)

/-- An id that `get_device_id` can leave. -/
structure DeviceId where
  text : CString
  short : text.length < idSize
  noNewline : '\n' ∉ text
  noNul : '\x00' ∉ text

theorem cString_eq_self {s : CString} (h : '\x00' ∉ s) : cString s = s := untilMark_of_not_mem h

/-- The ids are the texts that `get_device_id` leaves for some output. -/
theorem getDeviceId_iff (text : CString) :
    (∃ output, getDeviceId output = some text) ↔ ∃ id : DeviceId, id.text = text := by
  constructor
  · rintro ⟨output, h⟩
    obtain ⟨⟨line, left⟩, hread, rfl⟩ := Option.map_eq_some_iff.mp h
    unfold fgets at hread
    rw [if_neg (by decide)] at hread
    split at hread
    next => cases hread
    next =>
      cases hread
      have hline : ((cString (lineUpTo '\n' (idSize - 1) output).1).takeWhile
          fun c => c ≠ '\n').length ≤ idSize - 1 :=
        ((List.takeWhile_prefix _).length_le.trans (List.takeWhile_prefix _).length_le).trans
          (length_lineUpTo_le '\n' (idSize - 1) output)
      refine ⟨⟨_, Nat.lt_of_le_of_lt hline (by decide), mark_notMem_untilMark '\n' _, ?_⟩, rfl⟩
      exact fun hnul => mark_notMem_untilMark '\x00' _ ((List.takeWhile_prefix _).subset hnul)
  · rintro ⟨id, rfl⟩
    have hcut : id.text.takeWhile (fun c => c ≠ '\n') = id.text :=
      untilMark_of_not_mem id.noNewline
    have hlength := id.short
    by_cases hfull : id.text.length + 1 = idSize
    · refine ⟨id.text, ?_⟩
      have hread := fgets_full idSize [] id.noNewline hfull
      rw [List.append_nil] at hread
      rw [getDeviceId, hread, Option.map_some, cString_eq_self id.noNul, hcut]
    · refine ⟨id.text ++ ['\n'], ?_⟩
      have hnul : '\x00' ∉ id.text ++ ['\n'] := by simp [id.noNul]
      have hcut' : (id.text ++ ['\n']).takeWhile (fun c => c ≠ '\n') = id.text := by
        show untilMark '\n' (id.text ++ '\n' :: []) = id.text
        rw [untilMark_append id.noNewline, untilMark_mark, List.append_nil]
      rw [getDeviceId, fgets_line idSize [] id.noNewline (by omega), Option.map_some,
        cString_eq_self hnul, hcut']

/-! ## The topics -/

/-- A buffer holds a string. -/
def Holds (dest : List Char) (s : CString) : Prop := dest.length = idSize ∧ cString dest = s

theorem writeTopic_fits {dest : List Char} (hdest : dest.length = idSize) (start : CString)
    {id : CString} (hstart : '\x00' ∉ start) (hid : '\x00' ∉ id)
    (hfit : start.length + id.length < idSize) :
    ∃ dest', writeTopic dest start id = some dest' ∧ Holds dest' (start ++ id) := by
  obtain ⟨rest, hfirst, hlength⟩ := strcpyAt_some dest 0 start (by omega)
  rw [List.take_zero, List.nil_append] at hfirst hlength
  obtain ⟨rest', hsecond, hlength'⟩ := strcpyAt_some (start ++ '\x00' :: rest) start.length id
    (by rw [hlength]; omega)
  rw [List.take_left' rfl] at hsecond hlength'
  have hnul : '\x00' ∉ start ++ id := fun h => (List.mem_append.mp h).elim hstart hid
  refine ⟨start ++ id ++ '\x00' :: rest', ?_, ?_, ?_⟩
  · rw [writeTopic, hfirst, Option.bind_eq_bind, Option.bind_some, hsecond]
  · rw [hlength', hlength, hdest]
  · show untilMark '\x00' (start ++ id ++ '\x00' :: rest') = _
    rw [untilMark_append hnul, untilMark_mark, List.append_nil]

/-- Both topics are in their buffers, each a fixed text and the id. -/
def TopicsWritten (t : Topics) (id : CString) : Prop :=
  ∃ send retr, constructTopic t id = some (send, retr) ∧ Holds send (sendTopic ++ id)
    ∧ Holds retr (retrieve ++ id)

/-- There is room for an id of nineteen characters. -/
theorem topicsWritten (t : Topics) {id : CString} (hid : '\x00' ∉ id) (hshort : id.length ≤ 19) :
    TopicsWritten t id := by
  have hsend : sendTopic.length = 12 := by decide
  have hretr : retrieve.length = 12 := by decide
  have hsize : idSize = 32 := rfl
  obtain ⟨send, hs, hsends⟩ := writeTopic_fits t.length_send sendTopic (by decide) hid
    (by omega)
  obtain ⟨retr, hr, hretrs⟩ := writeTopic_fits t.length_retrieve retrieve (by decide) hid
    (by omega)
  refine ⟨send, retr, ?_, hsends, hretrs⟩
  rw [constructTopic, hs, hr]
  rfl

/-! ## The client -/

/-- An id ends in an integer literal: the whole of it, or what is behind its last
slash. -/
def Spells (id : CString) (n : Int) : Prop :=
  ∃ l : IntLiteral, l.value = n ∧ (l.text = id ∨ ∃ path, id = path ++ '/' :: l.text)

theorem slash_notMem_text (l : IntLiteral) : '/' ∉ l.text := by
  intro h
  rcases List.mem_append.mp h with h | h
  · rcases List.mem_append.mp h with h | h
    · exact absurd (l.before_space _ h) (by decide)
    · rcases List.mem_append.mp h with h | h
      · revert h
        cases l.sign with
        | none => exact List.not_mem_nil
        | some minus => cases minus <;> decide
      · exact absurd (l.digits_digit _ h) (by decide)
  · exact absurd (l.behind_space _ h) (by decide)

/-- The client recovers the number that an id spells, and none if it spells none. -/
theorem topicBoxid_eq_some_iff (id : CString) (n : Int) : topicBoxid id = some n ↔ Spells id n := by
  constructor
  · intro h
    by_cases hslash : '/' ∈ id
    · -- behind the last slash there is none
      obtain ⟨rest, heq⟩ := eq_untilMark_append (List.mem_reverse.mpr hslash)
      have hid : id = rest.reverse ++ '/' :: (untilMark '/' id.reverse).reverse := by
        have := congrArg List.reverse heq
        rw [List.reverse_reverse] at this
        simpa using this
      have hlast : '/' ∉ (untilMark '/' id.reverse).reverse := fun hmem =>
        mark_notMem_untilMark '/' _ (List.mem_reverse.mp hmem)
      rw [hid, topicBoxid_append, topicBoxid_self hlast] at h
      obtain ⟨l, htext, hvalue⟩ := (pyInt_eq_some_iff _ _).mp h
      exact ⟨l, hvalue, Or.inr ⟨rest.reverse, by rw [htext]; exact hid⟩⟩
    · rw [topicBoxid_self hslash] at h
      obtain ⟨l, htext, hvalue⟩ := (pyInt_eq_some_iff _ _).mp h
      exact ⟨l, hvalue, Or.inl htext⟩
  · rintro ⟨l, hvalue, htext⟩
    have hint : pyInt l.text = some n := (pyInt_eq_some_iff _ _).mpr ⟨l, rfl, hvalue⟩
    rcases htext with rfl | ⟨path, rfl⟩
    · rw [topicBoxid_self (slash_notMem_text l), hint]
    · rw [topicBoxid_append, topicBoxid_self (slash_notMem_text l), hint]

/-- The last part of the topic is that of the id. -/
theorem topicBoxid_sendTopic (id : CString) : topicBoxid (sendTopic ++ id) = topicBoxid id :=
  topicBoxid_append "NWSTAT/AUTO".toList id

/-- A numeral spells its number. -/
theorem spells_toDigits (m : Nat) : Spells (Nat.toDigits 10 m) m :=
  ⟨{ before := []
     sign := none
     digits := Nat.toDigits 10 m
     behind := []
     before_space := fun _ h => absurd h List.not_mem_nil
     digits_ne := Nat.toDigits_ne_nil
     digits_digit := fun _ h => Nat.isDigit_of_mem_toDigits (by decide) (by decide) h
     behind_space := fun _ h => absurd h List.not_mem_nil },
   congrArg Nat.cast Nat.ofDigitChars_ten_toDigits, Or.inl (List.append_nil _)⟩

/-- A message leaves the keys of other boxes alone. -/
theorem onMessage_other (decompress : List UInt8 → Option (List UInt8)) (port : Bool)
    (s : ClientState) {topic : List Char} (payload : List UInt8) {n : Int}
    (h : topicBoxid topic ≠ some n) (inner : Nat) :
    (onMessage decompress port s topic payload).1.table (n, inner) = s.table (n, inner) := by
  rcases onMessage_table decompress port s topic payload with
    hsame | ⟨message, boxid, -, hboxid, hsaved⟩
  · rw [hsame]
  · have hne : boxid ≠ n := fun he => h (he ▸ hboxid)
    have hnone : recordsUnder (n, inner) (filed [⟨boxid, message⟩]) = [] := by
      simp [recordsUnder, filed, hne]
    rw [hsaved, savePairs_key, if_neg fun hrec => hrec.2 hnone]

/-- What a box id is good for, next to that of another box. -/
structure BoxIdentity (id id' : DeviceId) : Prop where
  written : id.text.length ≤ 19 → ∀ t, TopicsWritten t id.text
  boxid : ∀ n, topicBoxid (sendTopic ++ id.text) = some n ↔ Spells id.text n
  valueError : ∀ decompress port s payload, decompress payload ≠ none →
    ((onMessage decompress port s (sendTopic ++ id.text) payload).2 = some .valueError ↔
      ¬ ∃ n, Spells id.text n)
  apart : ∀ n n', Spells id.text n → Spells id'.text n' → n ≠ n' →
    ∀ decompress port s payload inner,
      (onMessage decompress port s (sendTopic ++ id'.text) payload).1.table (n, inner)
        = s.table (n, inner)
  numerals : ∀ m m', id.text = Nat.toDigits 10 m → id'.text = Nat.toDigits 10 m' →
    id.text ≠ id'.text → Spells id.text m ∧ Spells id'.text m' ∧ m ≠ m'

/-- **A box id is the integer it ends in.** An id of at most nineteen characters is
written behind the fixed part of both topics; the client recovers the integer that
it ends in, and raises if there is none; and boxes whose ids spell different
integers are kept apart, such as those with different numerals. -/
theorem box_identity (id id' : DeviceId) : BoxIdentity id id' where
  written := fun h t => topicsWritten t id.noNul h
  boxid := fun n => by rw [topicBoxid_sendTopic, topicBoxid_eq_some_iff]
  valueError := by
    intro decompress port s payload hpayload
    have hspells : (∃ n, Spells id.text n) ↔ topicBoxid (sendTopic ++ id.text) ≠ none := by
      rw [topicBoxid_sendTopic, Option.ne_none_iff_exists']
      exact exists_congr fun n => (topicBoxid_eq_some_iff _ n).symm
    obtain ⟨message, hmessage⟩ := Option.ne_none_iff_exists'.mp hpayload
    rw [hspells, not_not, onMessage, hmessage]
    cases topicBoxid (sendTopic ++ id.text) with
    | none => simp
    | some boxid =>
      simp only [reduceCtorEq, iff_false]
      split <;> simp
  apart := by
    intro n n' _ hn' hne decompress port s payload inner
    refine onMessage_other decompress port s payload ?_ inner
    rw [topicBoxid_sendTopic, (topicBoxid_eq_some_iff _ n').mpr hn']
    exact fun he => hne (Option.some.inj he).symm
  numerals := by
    intro m m' hm hm' hne
    refine ⟨hm ▸ spells_toDigits m, hm' ▸ spells_toDigits m', fun he => hne ?_⟩
    rw [hm, hm', he]

/-- Two ids survive the topic: they are written, recovered, and not confused. -/
structure Survives (id id' : DeviceId) : Prop where
  written : ∀ t, TopicsWritten t id.text
  recovered : ∃ boxid, topicBoxid (sendTopic ++ id.text) = some boxid
  distinct : id.text ≠ id'.text →
    topicBoxid (sendTopic ++ id.text) ≠ topicBoxid (sendTopic ++ id'.text)

/-- The id of a box that calls itself so. -/
def deviceId (text : CString) (h : text.length < idSize ∧ '\n' ∉ text ∧ '\x00' ∉ text) :
    DeviceId := ⟨text, h.1, h.2.1, h.2.2⟩

/-- The client raises for `box`, and takes `7` and `07` for one box. -/
theorem not_survives :
    ¬ Survives (deviceId "box".toList (by decide)) (deviceId "7".toList (by decide)) ∧
      ¬ Survives (deviceId "7".toList (by decide)) (deviceId "07".toList (by decide)) := by
  constructor
  · intro h
    obtain ⟨boxid, hboxid⟩ := h.recovered
    have hnone : topicBoxid (sendTopic ++ "box".toList) = none := by decide
    exact absurd (hnone.symm.trans hboxid) (by simp)
  · intro h
    exact h.distinct (by decide) (by decide)

end Dotqoo.Wire
