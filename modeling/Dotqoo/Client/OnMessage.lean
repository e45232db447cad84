import Mathlib.Data.List.DropRight
import Dotqoo.Client.Views
import Dotqoo.Lib.Lines

/-!
# The callbacks of the client

`on_message`, and what the commands of the main loop do to the globals. A message
names its box in the last part of its topic, which `int` reads; an exception ends
the callback, and what was done before it stays.

`zlib.decompress` is a parameter, `none` where it raises. `int` is Python's, for a
string: a sign and decimal digits, with white space around.
-/

namespace Dotqoo.Client

open Dotqoo.Lib

/-! ## `int` -/

/-- White space, for `int`. -/
def isPySpace (c : Char) : Bool := c = ' ' || (9 ≤ c.toNat && c.toNat ≤ 13)

/-- Decimal digits, at least one. -/
def pyDigits (s : List Char) : Option Nat :=
  if s ≠ [] ∧ s.all Char.isDigit then some (Nat.ofDigitChars 10 s 0) else none

/-- White space around a string is not seen. -/
def strip (s : List Char) : List Char := (s.dropWhile isPySpace).rdropWhile isPySpace

/-- `int(s)`; `none` is `ValueError`. -/
def pyInt (s : List Char) : Option Int :=
  match strip s with
  | '-' :: digits => (pyDigits digits).map fun n : Nat => - (n : Int)
  | '+' :: digits => (pyDigits digits).map fun n : Nat => (n : Int)
  | digits => (pyDigits digits).map fun n : Nat => (n : Int)

/-- `int(topic.split("/")[-1])`. -/
def topicBoxid (topic : List Char) : Option Int :=
  (topic.splitOn '/').getLast?.bind pyInt

/-- An integer literal, with white space around. -/
structure IntLiteral where
  before : List Char
  sign : Option Bool
  digits : List Char
  behind : List Char
  before_space : ∀ c ∈ before, isPySpace c = true
  digits_ne : digits ≠ []
  digits_digit : ∀ c ∈ digits, c.isDigit = true
  behind_space : ∀ c ∈ behind, isPySpace c = true

/-- The sign as it is written; `true` is a minus. -/
def signText : Option Bool → List Char
  | none => []
  | some true => ['-']
  | some false => ['+']

/-- A literal without the white space. -/
def IntLiteral.core (l : IntLiteral) : List Char := signText l.sign ++ l.digits

/-- A literal as it is written. -/
def IntLiteral.text (l : IntLiteral) : List Char := l.before ++ l.core ++ l.behind

/-- The number of a literal. -/
def IntLiteral.value (l : IntLiteral) : Int :=
  if l.sign = some true then - (Nat.ofDigitChars 10 l.digits 0 : Int)
  else Nat.ofDigitChars 10 l.digits 0

/-- No other character comes first in the digits. -/
theorem IntLiteral.digits_ne_cons (l : IntLiteral) {c : Char} (hc : c.isDigit = false)
    (rest : List Char) : l.digits ≠ c :: rest := by
  intro heq
  have hdigit := l.digits_digit c (by rw [heq]; exact List.mem_cons_self)
  rw [hc] at hdigit
  cases hdigit

theorem digit_not_space {c : Char} (h : c.isDigit = true) : isPySpace c = false := by
  have hrange : 48 ≤ c.toNat ∧ c.toNat ≤ 57 := by
    simpa [Char.isDigit, Char.le_def, UInt32.le_iff_toNat_le] using h
  have hblank : c ≠ ' ' := by
    rintro rfl
    exact absurd hrange.1 (by decide)
  simp only [isPySpace, Bool.or_eq_false_iff, decide_eq_false_iff_not, Bool.and_eq_false_iff]
  exact ⟨hblank, Or.inr (by omega)⟩

/-- No white space comes first or last in the literal itself. -/
theorem IntLiteral.core_not_space (l : IntLiteral) : ∀ c ∈ l.core, isPySpace c = false := by
  intro c hc
  rcases List.mem_append.mp hc with hsign | hdigit
  · cases hs : l.sign with
    | none =>
      rw [hs] at hsign
      cases hsign
    | some minus =>
      rw [hs] at hsign
      cases minus
      all_goals
        rw [List.mem_singleton.mp hsign]
        decide
  · exact digit_not_space (l.digits_digit c hdigit)

theorem strip_text (l : IntLiteral) : strip l.text = l.core := by
  have hcore := l.core_not_space
  obtain ⟨c, rest, heq⟩ : ∃ c rest, l.core = c :: rest :=
    List.exists_cons_of_ne_nil fun h => l.digits_ne (List.append_eq_nil_iff.mp h).2
  have hfront : l.text.dropWhile isPySpace = l.core ++ l.behind := by
    rw [IntLiteral.text, List.append_assoc, List.dropWhile_append_of_pos l.before_space, heq,
      List.cons_append, List.dropWhile_cons_of_neg]
    rw [hcore c (by rw [heq]; exact List.mem_cons_self)]
    decide
  rw [strip, hfront, rdropWhile_append_all l.behind_space, List.rdropWhile_eq_self_iff]
  intro hne
  rw [hcore _ (List.getLast_mem hne)]
  decide

/-- A string is its white space in front, the rest, and its white space behind. -/
theorem eq_strip (s : List Char) : ∃ before behind, s = before ++ strip s ++ behind
    ∧ (∀ c ∈ before, isPySpace c = true) ∧ ∀ c ∈ behind, isPySpace c = true := by
  refine ⟨s.takeWhile isPySpace, (s.dropWhile isPySpace).rtakeWhile isPySpace, ?_, ?_, ?_⟩
  · rw [strip, List.append_assoc, List.rdropWhile_append_rtakeWhile,
      List.takeWhile_append_dropWhile]
  · exact fun c hc => List.mem_takeWhile_imp hc
  · exact fun c hc => List.mem_rtakeWhile_imp hc

theorem pyDigits_eq_some_iff (s : List Char) (n : Nat) : pyDigits s = some n ↔
    s ≠ [] ∧ (∀ c ∈ s, c.isDigit = true) ∧ Nat.ofDigitChars 10 s 0 = n := by
  unfold pyDigits
  split
  next h =>
    rw [List.all_eq_true] at h
    rw [Option.some.injEq]
    exact ⟨fun hn => ⟨h.1, h.2, hn⟩, fun hn => hn.2.2⟩
  next h =>
    rw [List.all_eq_true] at h
    exact ⟨fun hn => absurd hn (by simp), fun hn => absurd ⟨hn.1, hn.2.1⟩ h⟩

/-- `int` reads the integer literals, and nothing else. -/
theorem pyInt_eq_some_iff (s : List Char) (n : Int) :
    pyInt s = some n ↔ ∃ l : IntLiteral, l.text = s ∧ l.value = n := by
  constructor
  · intro h
    obtain ⟨before, behind, hs, hbefore, hbehind⟩ := eq_strip s
    -- the sign and the digits make the literal
    have hliteral : ∀ (sign : Option Bool) (digits : List Char) (m : Nat),
        strip s = signText sign ++ digits → pyDigits digits = some m →
          (if sign = some true then - (m : Int) else m) = n →
            ∃ l : IntLiteral, l.text = s ∧ l.value = n := by
      intro sign digits m hcore hdigits hn
      obtain ⟨hne, hall, hm⟩ := (pyDigits_eq_some_iff digits m).mp hdigits
      refine ⟨⟨before, sign, digits, behind, hbefore, hne, hall, hbehind⟩, ?_, ?_⟩
      · rw [hcore] at hs
        exact hs.symm
      · rw [IntLiteral.value, ← hn, ← hm]
    unfold pyInt at h
    split at h
    next digits hcore =>
      obtain ⟨m, hdigits, hn⟩ := Option.map_eq_some_iff.mp h
      exact hliteral (some true) digits m hcore hdigits hn
    next digits hcore =>
      obtain ⟨m, hdigits, hn⟩ := Option.map_eq_some_iff.mp h
      exact hliteral (some false) digits m hcore hdigits hn
    next =>
      obtain ⟨m, hdigits, hn⟩ := Option.map_eq_some_iff.mp h
      exact hliteral none (strip s) m rfl hdigits hn
  · rintro ⟨l, rfl, rfl⟩
    have hdigits : pyDigits l.digits = some (Nat.ofDigitChars 10 l.digits 0) :=
      (pyDigits_eq_some_iff _ _).mpr ⟨l.digits_ne, l.digits_digit, rfl⟩
    rw [pyInt, strip_text, IntLiteral.core, IntLiteral.value]
    cases l.sign with
    | some minus =>
      cases minus with
      | true => simp [signText, hdigits]
      | false => simp [signText, hdigits]
    | none =>
      show (match l.digits with
        | '-' :: digits => _
        | '+' :: digits => _
        | digits => _) = _
      -- a digit is no sign
      split
      next digits heq => exact absurd heq (l.digits_ne_cons (by decide) digits)
      next digits heq => exact absurd heq (l.digits_ne_cons (by decide) digits)
      next =>
        rw [hdigits]
        rfl

/-- The last part of a topic is what is behind its last slash. -/
theorem topicBoxid_append (start id : List Char) :
    topicBoxid (start ++ '/' :: id) = topicBoxid id := by
  rw [topicBoxid, topicBoxid, List.splitOn_append_cons_self,
    List.getLast?_append_of_ne_nil _ (List.splitOn_ne_nil '/' id)]

theorem topicBoxid_self {id : List Char} (h : '/' ∉ id) : topicBoxid id = pyInt id := by
  rw [topicBoxid, List.splitOn_eq_singleton h]
  rfl

/-! ## Messages -/

/-- The exceptions that end `on_message`. -/
inductive Raised where
  | zlibError | valueError | structError
  deriving DecidableEq, Repr

/-- The globals. -/
structure ClientState where
  received : Nat
  table : Table
  stat : Stat

/-- The globals at the start. -/
def clientStart : ClientState := ⟨0, emptyTable, emptyStat⟩

/-- `on_message`. -/
def onMessage (decompress : List UInt8 → Option (List UInt8)) (port : Bool) (s : ClientState)
    (topic : List Char) (payload : List UInt8) : ClientState × Option Raised :=
  let s := { s with received := s.received + 1 }
  match decompress payload with
  | none => (s, some .zlibError)
  | some message =>
    match topicBoxid topic with
    | none => (s, some .valueError)
    | some boxid =>
      let (table, done) := saveData port boxid message s.table
      ({ s with table := table }, if done then none else some .structError)

/-- What happens to the globals. -/
inductive ClientEvent where
  | message (topic : List Char) (payload : List UInt8)
  /-- The command `p`, up to the printing. -/
  | process
  /-- The commands `b` and `r`, which begin anew. -/
  | clear

/-- One event. -/
def clientStep (decompress : List UInt8 → Option (List UInt8)) (port : Bool) (s : ClientState) :
    ClientEvent → ClientState
  | .message topic payload => (onMessage decompress port s topic payload).1
  | .process => { s with stat := process s.table s.stat }
  | .clear => clientStart

/-- A message does nothing to the table, or what the records of its box do. -/
theorem onMessage_table (decompress : List UInt8 → Option (List UInt8)) (port : Bool)
    (s : ClientState) (topic : List Char) (payload : List UInt8) :
    (onMessage decompress port s topic payload).1.table = s.table ∨
      ∃ message boxid, decompress payload = some message ∧ topicBoxid topic = some boxid ∧
        (onMessage decompress port s topic payload).1.table =
          savePairs port (filed [⟨boxid, message⟩]) s.table := by
  unfold onMessage
  cases decompress payload with
  | none => exact Or.inl rfl
  | some message =>
    cases topicBoxid topic with
    | none => exact Or.inl rfl
    | some boxid =>
      refine Or.inr ⟨message, boxid, rfl, rfl, ?_⟩
      exact saveCalls_eq port [⟨boxid, message⟩] s.table

@[simp] theorem onMessage_stat (decompress : List UInt8 → Option (List UInt8)) (port : Bool)
    (s : ClientState) (topic : List Char) (payload : List UInt8) :
    (onMessage decompress port s topic payload).1.stat = s.stat := by
  unfold onMessage
  cases decompress payload with
  | none => rfl
  | some message =>
    cases topicBoxid topic with
    | none => rfl
    | some boxid => rfl

end Dotqoo.Client
