import Mathlib.Data.List.Nodup
import Mathlib.Data.List.Perm.Basic

/-!
# Loops over keyed commands

A loop that dispatches on the key of each command (an option letter, a message
type) and may stop with an error is `List.foldlM` in `Except`. When the keys are
pairwise different and one part of the state is written under one key only, that
part ends up as its own command leaves it, wherever the command stands:
`foldlM_field`. What a part that several keys write ends up as, when they all
write the same, is `foldlM_shared`. Where keys may repeat, the other commands can be
left out (`foldlM_part`).
-/

namespace Dotqoo.Lib

variable {σ ω κ β ε : Type} [DecidableEq κ] {key : ω → κ} {step : σ → ω → Except ε σ}

/-- The command with the given key. -/
def chosen (key : ω → κ) (c : κ) (os : List ω) : Option ω := os.find? (fun o => key o = c)

theorem chosen_cons (c : κ) (o : ω) (os : List ω) :
    chosen key c (o :: os) = if key o = c then some o else chosen key c os := by
  unfold chosen
  rw [List.find?_cons]
  by_cases h : key o = c
  · simp [h]
  · simp [h]

theorem chosen_eq_none {c : κ} {os : List ω} : chosen key c os = none ↔ ∀ o ∈ os, key o ≠ c := by
  simp [chosen]

theorem chosen_spec {c : κ} {os : List ω} {o : ω} (h : chosen key c os = some o) :
    o ∈ os ∧ key o = c :=
  ⟨List.mem_of_find?_eq_some h, by simpa using List.find?_some h⟩

/-- With pairwise different keys the command of a key is the only one. -/
theorem chosen_eq_some {c : κ} {os : List ω} {o : ω} (hnd : (os.map key).Nodup) :
    chosen key c os = some o ↔ o ∈ os ∧ key o = c := by
  constructor
  · exact chosen_spec
  · intro ⟨hmem, hkey⟩
    cases hc : chosen key c os with
    | none => exact absurd hkey (chosen_eq_none.mp hc o hmem)
    | some o' =>
      obtain ⟨hmem', hkey'⟩ := chosen_spec hc
      rw [List.inj_on_of_nodup_map hnd hmem' hmem (hkey'.trans hkey.symm)]

/-- The order of the commands does not matter for who is chosen. -/
theorem chosen_perm {c : κ} {os os' : List ω} (hnd : (os.map key).Nodup) (hp : os'.Perm os) :
    chosen key c os' = chosen key c os := by
  have hnd' : (os'.map key).Nodup := (hp.map key).nodup_iff.mpr hnd
  ext o
  rw [chosen_eq_some hnd', chosen_eq_some hnd, hp.mem_iff]

theorem bind_ok {α : Type} {x : Except ε α} {f : α → Except ε β} {b : β} :
    x.bind f = .ok b ↔ ∃ a, x = .ok a ∧ f a = .ok b := by
  cases x with
  | error e => simp [Except.bind]
  | ok a => simp [Except.bind]

theorem foldlM_cons_ok {s s' : σ} {o : ω} {os : List ω} :
    (o :: os).foldlM step s = .ok s' ↔ ∃ t, step s o = .ok t ∧ os.foldlM step t = .ok s' := by
  rw [List.foldlM_cons]
  cases step s o with
  | error e =>
    constructor
    · intro h
      cases h
    · intro ⟨t, h, _⟩
      cases h
  | ok t =>
    constructor
    · intro h
      exact ⟨t, rfl, h⟩
    · intro ⟨t', ht, h⟩
      cases ht
      exact h

/-- A part of the state that only the commands with key `c` write. -/
theorem foldlM_field {p : σ → β} {c : κ} {g : β → ω → β} :
    ∀ {os : List ω} {s s' : σ}, (os.map key).Nodup →
      (∀ s o s', step s o = .ok s' → p s' = if key o = c then g (p s) o else p s) →
      os.foldlM step s = .ok s' → p s' = (chosen key c os).elim (p s) (g (p s)) := by
  intro os
  induction os with
  | nil =>
    intro s s' _ _ h
    cases h
    rfl
  | cons o os ih =>
    intro s s' hnd hstep h
    obtain ⟨t, ht, hrest⟩ := foldlM_cons_ok.mp h
    obtain ⟨hno, hnd'⟩ := List.nodup_cons.mp hnd
    have hfield := ih hnd' hstep hrest
    rw [hstep s o t ht] at hfield
    rw [chosen_cons, hfield]
    by_cases hc : key o = c
    -- no later command has this key
    · have hnone : chosen key c os = none := by
        rw [chosen_eq_none]
        intro q hq hqc
        exact hno (by rw [hc, ← hqc]; exact List.mem_map_of_mem hq)
      rw [if_pos hc, if_pos hc, hnone]
      rfl
    · rw [if_neg hc, if_neg hc]

/-- A part of the state that none of the commands writes. -/
theorem foldlM_frame {p : σ → β} : ∀ {os : List ω} {s s' : σ},
    (∀ s s', ∀ o ∈ os, step s o = .ok s' → p s' = p s) → os.foldlM step s = .ok s' →
      p s' = p s := by
  intro os
  induction os with
  | nil =>
    intro s s' _ h
    cases h
    rfl
  | cons o os ih =>
    intro s s' hstep h
    obtain ⟨t, ht, hrest⟩ := foldlM_cons_ok.mp h
    rw [ih (fun s s' o ho => hstep s s' o (List.mem_cons_of_mem _ ho)) hrest,
      hstep s t o List.mem_cons_self ht]

/-- A part of the state that only some of the commands write, each as often as it
comes: they have what they would have without the others. -/
theorem foldlM_part {p : σ → β} {writes : ω → Bool} {g : β → ω → β} :
    ∀ {os : List ω} {s s' : σ},
      (∀ s o s', step s o = .ok s' → p s' = if writes o then g (p s) o else p s) →
      os.foldlM step s = .ok s' → p s' = (os.filter writes).foldl g (p s) := by
  intro os
  induction os with
  | nil =>
    intro s s' _ h
    cases h
    rfl
  | cons o os ih =>
    intro s s' hstep h
    obtain ⟨t, ht, hrest⟩ := foldlM_cons_ok.mp h
    rw [ih hstep hrest, hstep s o t ht]
    cases ho : writes o with
    | true => rw [List.filter_cons_of_pos ho, List.foldl_cons, if_pos rfl]
    | false =>
      have hno : ¬ writes o = true := by simp [ho]
      rw [List.filter_cons_of_neg hno, if_neg (by decide)]

/-- Writes that do not look at what is there: the last one counts. -/
theorem foldl_last {v : ω → β} : ∀ (os : List ω) (b : β),
    os.foldl (fun _ o => v o) b = (os.getLast?).elim b v
  | [], _ => rfl
  | o :: os, b => by
    rw [List.foldl_cons, foldl_last os, List.getLast?_cons]
    cases os.getLast? <;> rfl

/-- A part of the state that several commands write, all with the same value. -/
theorem foldlM_shared {p : σ → β} {v : β} {writes : ω → Prop} [DecidablePred writes] :
    ∀ {os : List ω} {s s' : σ},
      (∀ s s', ∀ o ∈ os, step s o = .ok s' → p s' = if writes o then v else p s) →
      os.foldlM step s = .ok s' → p s' = if ∃ o ∈ os, writes o then v else p s := by
  intro os
  induction os with
  | nil =>
    intro s s' _ h
    cases h
    simp
  | cons o os ih =>
    intro s s' hstep h
    obtain ⟨t, ht, hrest⟩ := foldlM_cons_ok.mp h
    have hfield := ih (fun s s' o ho => hstep s s' o (List.mem_cons_of_mem _ ho)) hrest
    rw [hfield, hstep s t o List.mem_cons_self ht]
    by_cases ho : writes o
    · simp [ho]
    · simp [ho]

/-- Commands that never stop the loop. -/
theorem foldlM_ok : ∀ {os : List ω} (s : σ), (∀ o ∈ os, ∀ s, ∃ s', step s o = .ok s') →
    ∃ s', os.foldlM step s = .ok s' := by
  intro os
  induction os with
  | nil =>
    intro s _
    exact ⟨s, rfl⟩
  | cons o os ih =>
    intro s h
    obtain ⟨t, ht⟩ := h o List.mem_cons_self s
    obtain ⟨s', hs'⟩ := ih t (fun o ho => h o (List.mem_cons_of_mem _ ho))
    exact ⟨s', foldlM_cons_ok.mpr ⟨t, ht, hs'⟩⟩

/-- Commands that never stop the loop but for one, which always does. -/
theorem foldlM_error {e : ε} : ∀ {os : List ω} (s : σ),
    (∀ o ∈ os, ∀ s, step s o = .error e ∨ ∃ s', step s o = .ok s') →
    (∃ o ∈ os, ∀ s, step s o = .error e) → os.foldlM step s = .error e := by
  intro os
  induction os with
  | nil =>
    intro s _ ⟨o, ho, _⟩
    exact absurd ho List.not_mem_nil
  | cons o os ih =>
    intro s h ⟨p, hp, hstop⟩
    rw [List.foldlM_cons]
    rcases h o List.mem_cons_self s with herr | ⟨t, ht⟩
    · rw [herr]
      rfl
    · rw [ht]
      have hp' : p ∈ os := by
        rcases List.mem_cons.mp hp with heq | hp'
        · have hnot := hstop s
          rw [heq, ht] at hnot
          cases hnot
        · exact hp'
      exact ih t (fun o ho => h o (List.mem_cons_of_mem _ ho)) ⟨p, hp', hstop⟩

end Dotqoo.Lib
