import Dotqoo.Client.OnMessage

/-!
# The command loop of the client

`main` reads a line and does what it asks for: the statistics (`p`), a report from every
box (`b`) or from one (`r boxid`), the end (`q`). A request is published after the
globals have been emptied, on a topic that names the box as it was typed. If that raises,
for a topic that cannot be published on or for want of a connection, the program ends.

`raw_input` gives a line of any characters. `c.split()` cuts it at white space.
-/

namespace Dotqoo.Client

/-- `c.split()`. -/
def pySplit (c : List Char) : List (List Char) :=
  (c.splitOnP isPySpace).filter fun word => word ≠ []

/-- What a line asks for. -/
inductive Command where
  | print
  | broadcast
  | retrieve (boxid : List Char)
  | quit
  | invalid
  deriving DecidableEq, Repr

/-- The chain of tests on a line. -/
def readCommand (c : List Char) : Command :=
  if c = ['p'] then .print
  else if c = ['b'] then .broadcast
  else if 1 < c.length ∧ c.head? = some 'r' then
    match pySplit c with
    | [_, boxid] => .retrieve boxid
    -- `ValueError`
    | _ => .invalid
  else if c = ['q'] then .quit
  else .invalid

/-- The topic on which a command publishes, if it does. -/
def requestTopic : Command → Option (List Char)
  | .broadcast => some "NWSTAT/BROADCAST".toList
  | .retrieve boxid => some ("NWSTAT/RETV/".toList ++ boxid)
  | _ => none

/-- The globals, whether the program still runs, and the topics that were published on. -/
structure Console where
  globals : ClientState
  running : Bool
  requests : List (List Char)

/-- The client as it starts. -/
def consoleStart : Console := ⟨clientStart, true, []⟩

/-- One line of the loop, where `publish.single` returns if `sent`, and raises otherwise.
Printing changes nothing. -/
def enterLine (s : Console) (c : List Char) (sent : Bool) : Console :=
  match readCommand c with
  | .print => { s with globals := { s.globals with stat := process s.globals.table s.globals.stat } }
  | .quit => { s with running := false }
  | .invalid => s
  | command =>
    { globals := clientStart
      -- nothing catches what is raised
      running := sent
      requests := if sent then s.requests ++ (requestTopic command).toList else s.requests }

/-! ## Words -/

/-- A word has no white space. -/
theorem mem_pySplit {c word : List Char} (h : word ∈ pySplit c) :
    word ≠ [] ∧ ∀ ch ∈ word, isPySpace ch = false := by
  have hspec : ∀ (c : List Char), ∀ word ∈ c.splitOnP isPySpace, ∀ ch ∈ word,
      isPySpace ch = false := by
    intro c
    induction c with
    | nil => simp [List.splitOnP_nil]
    | cons ch c ih =>
      rw [List.splitOnP_cons_eq_if_modifyHead]
      split
      next hsp =>
        intro word hword
        rcases List.mem_cons.mp hword with rfl | hword
        · simp
        · exact ih word hword
      next hsp =>
        obtain ⟨first, rest, hsplit⟩ := List.exists_cons_of_ne_nil (List.splitOnP_ne_nil isPySpace c)
        rw [hsplit] at ih ⊢
        rw [List.modifyHead_cons]
        intro word hword ch' hch'
        rcases List.mem_cons.mp hword with rfl | hword
        · rcases List.mem_cons.mp hch' with rfl | hch'
          · simpa using hsp
          · exact ih first List.mem_cons_self ch' hch'
        · exact ih word (List.mem_cons_of_mem _ hword) ch' hch'
  obtain ⟨hmem, hne⟩ := List.mem_filter.mp h
  exact ⟨of_decide_eq_true hne, hspec c word hmem⟩

/-- Two words with a blank between them. -/
theorem pySplit_two (word : List Char) {word' : List Char} (hne : word ≠ []) (hne' : word' ≠ [])
    (hword : ∀ ch ∈ word, isPySpace ch = false) (hword' : ∀ ch ∈ word', isPySpace ch = false) :
    pySplit (word ++ ' ' :: word') = [word, word'] := by
  rw [pySplit, List.splitOnP_append_cons _ _ (by decide), List.splitOnP_eq_singleton hword,
    List.splitOnP_eq_singleton hword']
  simp [hne, hne']

/-- **The ids that can be asked for** are the words. -/
theorem readCommand_retrieve_iff (boxid : List Char) :
    (∃ c, readCommand c = .retrieve boxid) ↔ boxid ≠ [] ∧ ∀ ch ∈ boxid, isPySpace ch = false := by
  constructor
  · rintro ⟨c, hc⟩
    unfold readCommand at hc
    split_ifs at hc
    split at hc
    next word boxid' hsplit =>
      cases hc
      exact mem_pySplit (c := c) (by rw [hsplit]; simp)
    next => cases hc
  · rintro ⟨hne, hword⟩
    refine ⟨'r' :: ' ' :: boxid, ?_⟩
    have hsplit : pySplit ('r' :: ' ' :: boxid) = [['r'], boxid] :=
      pySplit_two ['r'] (by decide) hne (List.forall_mem_singleton.mpr rfl) hword
    unfold readCommand
    rw [if_neg (by simp), if_neg (by simp), if_pos (by simp), hsplit]

end Dotqoo.Client
