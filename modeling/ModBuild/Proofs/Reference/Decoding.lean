import Mathlib.Data.List.TakeWhile
import ModBuild.Proofs.Reference.Target

/-!
# Reading a call back

The call for a reference puts the path between single quotes and escapes nothing. A reader of the call
stops at the next single quote, so it finds the path as long as the path has none, and otherwise a
part of the path in a text that is no call.
-/

namespace ModBuild.Reference

set_option autoImplicit false

/-- The text that a call quotes, and what stands behind the closing quote. -/
def readCall? (cs : List Char) : Option (List Char × List Char) :=
  match Text.cut? "require('".toList cs with
  | some ([], quoted) => Text.cut? ['\''] quoted
  | _ => none

theorem readCall?_append (quoted : List Char) :
    readCall? ("require('".toList ++ quoted) = Text.cut? ['\''] quoted := by
  have hopening : "require('".toList = "require(".toList ++ ['\''] := by decide
  have hcut : Text.cut? "require('".toList ("require('".toList ++ quoted) = some ([], quoted) := by
    rw [hopening]
    exact Text.cut?_append (t := []) (by decide) (by decide)
  rw [readCall?, hcut]

theorem takeWhile_ne_eq_self_iff {x : Char} {cs : List Char} :
    cs.takeWhile (· ≠ x) = cs ↔ x ∉ cs := by
  rw [List.takeWhile_eq_self_iff]
  constructor
  · intro h hx
    have hne := h x hx
    simp at hne
  · intro hx c hc
    exact decide_eq_true fun hcx => hx (hcx ▸ hc)

theorem exists_cut?_quoted (x : Char) (cs r : List Char) :
    ∃ rest, Text.cut? [x] (cs ++ x :: r) = some (cs.takeWhile (· ≠ x), rest) ∧
      (x ∉ cs → rest = r) := by
  by_cases hx : x ∈ cs
  · obtain ⟨a, b, rfl, ha⟩ := List.eq_append_cons_of_mem hx
    refine ⟨b ++ x :: r, ?_, fun hno => absurd hx hno⟩
    have hbefore : ∀ c ∈ a, decide (c ≠ x) = true := fun c hc =>
      decide_eq_true fun hcx => ha (hcx ▸ hc)
    have hstop : (a ++ x :: b).takeWhile (· ≠ x) = a := by
      rw [List.takeWhile_append_of_pos hbefore]
      simp
    rw [hstop, List.append_assoc, List.cons_append]
    exact Text.cut?_singleton_append ha
  · refine ⟨r, ?_, fun _ => rfl⟩
    rw [takeWhile_ne_eq_self_iff.mpr hx]
    exact Text.cut?_singleton_append hx

/-- A reader of the call finds the path up to its first single quote. It finds the whole path, and the
end of the call right behind it, exactly when the target has no single quote. -/
theorem reads_back_iff (dotted : String) :
    (∃ rest, readCall? (ofDotted dotted).call.toList =
      some ((ofDotted dotted).path.toList.takeWhile (· ≠ '\''), rest)) ∧
    (readCall? (ofDotted dotted).call.toList = some ((ofDotted dotted).path.toList, [')']) ↔
      '\'' ∉ dotted.toList) := by
  have hmem : '\'' ∈ gamePath dotted.toList ↔ '\'' ∈ dotted.toList :=
    mem_gamePath_iff (by decide) (by decide)
  obtain ⟨rest, hcut, hrest⟩ := exists_cut?_quoted '\'' (gamePath dotted.toList) [')']
  have hread : readCall? (ofDotted dotted).call.toList =
      some ((gamePath dotted.toList).takeWhile (· ≠ '\''), rest) := by
    rw [toList_call_ofDotted, List.append_assoc, readCall?_append]
    exact hcut
  rw [hread, toList_path_ofDotted]
  refine ⟨⟨rest, rfl⟩, ?_⟩
  rw [← hmem]
  constructor
  · intro h
    exact takeWhile_ne_eq_self_iff.mp (congrArg Prod.fst (Option.some.inj h))
  · intro hno
    rw [takeWhile_ne_eq_self_iff.mpr hno, hrest hno]

/-- A target with a single quote: the call ends in the middle of the path. -/
theorem call_ends_at_quote :
    '"' ∉ "client.it's".toList ∧
    (ofDotted "client.it's").path.toList = "it's".toList ∧
    readCall? (ofDotted "client.it's").call.toList = some ("it".toList, "s')".toList) ∧
    readCall? (ofDotted "client.it's").call.toList ≠
      some ((ofDotted "client.it's").path.toList, [')']) := by
  decide +kernel

end ModBuild.Reference
