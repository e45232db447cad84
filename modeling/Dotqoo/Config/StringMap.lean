import Mathlib.Data.Char
import Dotqoo.Lib.SearchTree

/-!
# The string map and the configuration

`stringmap.c` and the accessors of `cfgfile.c`. A C string is the list of its
characters, without the terminating NUL, and `strcmp` compares character by
character. The root cell of a `stringmap` exists from the start with a NULL key;
here that is the empty tree.

The two writers differ in what they do with a key that is there:
`stringmap_insert` hands back the old item and stores nothing,
`config_set_string` replaces the item.
-/

namespace Dotqoo.Config

open Dotqoo.Lib

/-- A C string, without its NUL. -/
abbrev CString := List Char

/-- `strcmp`, as the sign of its result. -/
def strcmp : CString → CString → Ordering
  | [], [] => .eq
  | [], _ :: _ => .lt
  | _ :: _, [] => .gt
  | a :: s, b :: t => if a = b then strcmp s t else if a.toNat < b.toNat then .lt else .gt

theorem strcmp_self : ∀ s : CString, strcmp s s = .eq
  | [] => rfl
  | _ :: s => by rw [strcmp, if_pos rfl, strcmp_self s]

theorem eq_of_strcmp : ∀ {s t : CString}, strcmp s t = .eq → s = t
  | [], [], _ => rfl
  | a :: s, b :: t, h => by
    unfold strcmp at h
    split at h
    next hab => rw [hab, eq_of_strcmp h]
    next => split at h <;> cases h

instance : Std.LawfulEqCmp strcmp where
  compare_self := strcmp_self _
  eq_of_compare := eq_of_strcmp

/-- Strings are compared by the numbers of their characters, first to last. -/
theorem strcmp_eq_compareLex : ∀ s t : CString,
    strcmp s t = List.compareLex (compareOn Char.toNat) s t
  | [], [] => rfl
  | [], _ :: _ => rfl
  | _ :: _, [] => rfl
  | a :: s, b :: t => by
    rw [strcmp, List.compareLex_cons_cons, strcmp_eq_compareLex s t, compareOn]
    by_cases hab : a = b
    · rw [if_pos hab, hab, Nat.compare_eq_eq.mpr rfl]
      rfl
    · have hne : a.toNat ≠ b.toNat := fun heq => hab (Char.toNat_inj.mp heq)
      rw [if_neg hab]
      split
      next hlt =>
        rw [Nat.compare_eq_lt.mpr hlt]
        rfl
      next hge =>
        rw [Nat.compare_eq_gt.mpr (by omega)]
        rfl

instance : Std.TransCmp strcmp := by
  rw [show strcmp = List.compareLex (compareOn Char.toNat) from
    funext fun s => funext fun t => strcmp_eq_compareLex s t]
  infer_instance

/-- `stringmap`: the items are strings here too. -/
abbrev StringMap := SearchTree CString CString

/-- `stringmap_find`. -/
def stringmapFind (m : StringMap) (k : CString) : Option CString := m.find strcmp k

/-- `stringmap_insert`: the map afterwards. -/
def stringmapInsert (m : StringMap) (k d : CString) : StringMap := m.insert strcmp k d

/-- `config_get_string`; `NULL` is `none`. -/
def configGetString (config : StringMap) (directive : CString) : Option CString :=
  stringmapFind config directive

/-- `config_set_string`. -/
def configSetString (config : StringMap) (directive s : CString) : StringMap :=
  config.set strcmp directive s

theorem configGetString_insert (m : StringMap) (k d directive : CString) :
    configGetString (stringmapInsert m k d) directive =
      if directive = k then some ((configGetString m k).getD d)
      else configGetString m directive :=
  SearchTree.find_insert k directive d m

theorem configGetString_set (m : StringMap) (k s directive : CString) :
    configGetString (configSetString m k s) directive =
      if directive = k then some s else configGetString m directive :=
  SearchTree.find_set k directive s m

end Dotqoo.Config
