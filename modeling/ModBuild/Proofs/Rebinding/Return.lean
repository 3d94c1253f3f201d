import ModBuild.Proofs.Rebinding.Rendering
import ModBuild.Proofs.Text.Trim

/-!
# The return of a rebound module

A module that ends in a return has to end in it after rebinding, because nothing may follow a return.
The plan recognises a return by the character behind its keyword. So the boot block stands before the
return when the keyword is followed by nothing, a space, a tab or a semicolon, and behind the return
when it is followed by anything else.

This module does NOT say whether the rest of the last line is a return that the game can load.
-/

namespace ModBuild.Rebinding

set_option autoImplicit false

open Plan

variable {t : Template} {text : String} {line rest : List Char}

/-- What stands behind the keyword of a return that is recognised: blanks alone, or first of all a
space, a tab or a semicolon. -/
def EndsKeyword (rest : List Char) : Prop :=
  Text.Blank rest ∨ ∃ c ∈ rest.head?, c = ' ' ∨ c = '\t' ∨ c = ';'

theorem isReturn_append_iff :
    isReturn ("return".toList ++ rest) = true ↔
      rest = [] ∨ ∃ c ∈ rest.head?, c = ' ' ∨ c = '\t' ∨ c = ';' := by
  cases rest with
  | nil => simp [isReturn]
  | cons c rest => simp [isReturn, List.isPrefixOf, or_assoc, eq_comm (a := c)]

theorem trimEnd_return (rest : List Char) :
    Text.trimEnd ("return".toList ++ rest) = "return".toList ++ Text.trimEnd rest := by
  have hlast : "return".toList.getLast? = some 'n' := by decide
  refine Text.dropEndWhile_append_of_getLast? (fun c hc => ?_) rest
  obtain rfl : 'n' = c := Option.some.inj (hlast.symm.trans hc)
  decide

theorem isReturn_trimEnd_iff (rest : List Char) :
    isReturn (Text.trimEnd ("return".toList ++ rest)) = true ↔ EndsKeyword rest := by
  rw [trimEnd_return, isReturn_append_iff, EndsKeyword, ← Text.trimEnd_eq_nil_iff]
  refine or_congr_right' fun hne => ?_
  obtain ⟨c, cs, hcs⟩ := List.exists_cons_of_ne_nil hne
  obtain ⟨blanks, -, hrest⟩ := Text.exists_trimEnd_append rest
  rw [hcs] at hrest
  rw [hcs, ← hrest]
  rfl

theorem ending_eq_none_iff :
    (analyze t text).ending = none ↔
      isReturn (Text.lastLine (Text.trimEnd text.toList)) = false := by
  rw [analyze, cutReturn?]
  split <;> simp_all

theorem eq_lastLine_of_ending {before : List Char}
    (h : (analyze t text).ending = some (before, line)) :
    line = Text.lastLine (Text.trimEnd text.toList) := by
  rw [analyze, cutReturn?] at h
  dsimp only at h
  split at h
  · cases h
    rfl
  · cases h

theorem exists_blanks_kept (cs : List Char) :
    ∃ blanks, Text.Blank blanks ∧ Text.dropEndWhile isBreak cs = Text.trimEnd cs ++ blanks := by
  obtain ⟨blanks, hblanks, hcs⟩ := Text.exists_trimEnd_append cs
  have hlast : ∀ c ∈ (Text.trimEnd cs).getLast?, isBreak c = false := by
    intro c hc
    have hkept : Text.isBlank c = false := Text.getLast?_dropEndWhile hc
    rw [Bool.eq_false_iff, Ne, isBreak_iff]
    rintro (rfl | rfl) <;> exact absurd hkept (by decide)
  refine ⟨Text.dropEndWhile isBreak blanks, fun c hc => hblanks c ?_, ?_⟩
  · exact (List.rdropWhile_prefix isBreak blanks).subset hc
  · rw [← Text.dropEndWhile_append_of_getLast? hlast, hcs]

section
variable (hb : (analyze t text).bindings ≠ []) (hline : Text.lastFullLine? text.toList = some line)
include hb hline

theorem returns_last (hreturn : isReturn (Text.trimEnd line) = true) :
    Text.lastFullLine? (rebind t text).toList = some (Text.trimEnd line) ∧
      ∃ above, (rebind t text).toList =
        above ++ t.blockText (analyze t text).bindings ++ Text.trimEnd line ++ ['\n'] := by
  have htrim := Text.trimEnd_lastFullLine? hline
  obtain ⟨hfull, -⟩ := Text.lastFullLine?_eq_some_iff.mp hline
  cases hend : (analyze t text).ending with
  | none =>
    rw [ending_eq_none_iff, ← htrim, hreturn] at hend
    cases hend
  | some ending =>
    obtain ⟨before, ret⟩ := ending
    obtain ⟨blanks, hrebound⟩ := rebound_of_some hb hend
    obtain rfl : ret = Text.trimEnd line := (eq_lastLine_of_ending hend).trans htrim.symm
    rcases hrebound.ending with ⟨-, -, -, hlast⟩ | ⟨hnone, -⟩
    · refine ⟨Text.lastFullLine?_of_getLast? hlast fun hblank => ?_, ?_⟩
      · exact hfull (Text.blank_of_trimEnd hblank)
      · exact ⟨_, by rw [rebind, hrebound.output_eq, ← List.append_assoc]⟩
    · rw [hend] at hnone
      cases hnone

theorem returns_early (hreturn : isReturn (Text.trimEnd line) = false) :
    Text.lastFullLine? (rebind t text).toList = some Template.blockEnd.toList ∧
      ∃ above blanks, Text.Blank blanks ∧ (rebind t text).toList =
        above ++ Text.trimEnd line ++ blanks ++ t.blockText (analyze t text).bindings := by
  have htrim := Text.trimEnd_lastFullLine? hline
  have hend : (analyze t text).ending = none := ending_eq_none_iff.mpr (htrim ▸ hreturn)
  have houtput := toList_render_of_none t text hb hend
  rw [List.append_nil] at houtput
  rw [rebind, houtput]
  constructor
  · obtain ⟨above, hblock⟩ := t.exists_blockEnd (analyze t text).bindings
    refine Text.lastFullLine?_of_getLast? ?_ (by decide)
    rw [hblock, ← List.append_assoc]
    exact getLast?_lines_return _ (by decide) (by decide)
  · obtain ⟨blanks, hblanks, hbody⟩ := exists_blanks_kept text.toList
    have habove := Text.take_lastLine (Text.trimEnd text.toList)
    generalize (Text.trimEnd text.toList).take _ = above at habove
    refine ⟨above, blanks ++ ['\n', '\n'], hblanks.append (by decide), ?_⟩
    rw [hbody, htrim, habove, List.append_assoc (Text.trimEnd text.toList)]

end

/-- When the last line of a module with bindings starts with the keyword of a return, it stays the last
line, with the block before it, exactly when what follows the keyword is recognised. Otherwise the
block stands behind it. -/
theorem rebind_returns_last_iff (hb : (analyze t text).bindings ≠ [])
    (hline : Text.lastFullLine? text.toList = some line) (hreturn : line = "return".toList ++ rest) :
    ((Text.lastFullLine? (rebind t text).toList = some (Text.trimEnd line) ∧
        ∃ above, (rebind t text).toList =
          above ++ t.blockText (analyze t text).bindings ++ Text.trimEnd line ++ ['\n']) ↔
      EndsKeyword rest) ∧
    (¬EndsKeyword rest → ∃ above blanks, Text.Blank blanks ∧ (rebind t text).toList =
      above ++ Text.trimEnd line ++ blanks ++ t.blockText (analyze t text).bindings) := by
  have hkeyword := isReturn_trimEnd_iff rest
  rw [← hreturn] at hkeyword
  cases hends : isReturn (Text.trimEnd line) with
  | true =>
    have hrest := hkeyword.mp hends
    exact ⟨iff_of_true (returns_last hb hline hends) hrest, fun h => absurd hrest h⟩
  | false =>
    have hrest : ¬EndsKeyword rest := by
      rw [← hkeyword, hends]
      exact Bool.false_ne_true
    obtain ⟨hlast, hoccurs⟩ := returns_early hb hline hends
    refine ⟨iff_of_false (fun h => ?_) hrest, fun _ => hoccurs⟩
    have hsame := hlast.symm.trans h.1
    rw [hreturn, trimEnd_return] at hsame
    exact absurd (congrArg (Option.bind · List.head?) hsame) (by simp [Template.blockEnd])

/-- A return with a tab, a comment and blanks behind it, in a module with carriage returns. -/
theorem rebind_returns_last_iff_comment :
    let text := "local a = ____PipeWrench.A\r\nreturn\ta -- done \r\n\r\n"
    (analyze {} text).bindings ≠ [] ∧
      Text.lastFullLine? text.toList = some "return\ta -- done ".toList ∧
      Text.lastFullLine? (rebind {} text).toList = some "return\ta -- done".toList := by
  intro text
  have hb : (analyze {} text).bindings ≠ [] := by decide +kernel
  have hline : Text.lastFullLine? text.toList = some "return\ta -- done ".toList := by
    decide +kernel
  have htrim : Text.trimEnd "return\ta -- done ".toList = "return\ta -- done".toList := by
    decide +kernel
  have hreturn : "return\ta -- done ".toList = "return".toList ++ "\ta -- done ".toList := rfl
  obtain ⟨hlast, -⟩ := (rebind_returns_last_iff hb hline hreturn).1.mpr (Or.inr ⟨'\t', rfl, by decide⟩)
  rw [htrim] at hlast
  exact ⟨hb, hline, hlast⟩

/-- A return of a table that is written without a space is not recognised, and the block follows it. -/
theorem rebind_follows_return :
    let text := "local a = ____PipeWrench.A\nreturn{a}\n"
    (analyze {} text).bindings ≠ [] ∧ Text.isNameChar '{' = false ∧
      Text.lastFullLine? text.toList = some "return{a}".toList ∧
      Text.lastFullLine? (rebind {} text).toList ≠ some (Text.trimEnd "return{a}".toList) ∧
      rebind {} text = text ++ "\n-- PIPEWRENCH --\nEvents.OnPipeWrenchBoot.Add(function()\n" ++
        "  a = ____PipeWrench.A\nend)\n----------------\n" := by
  decide +kernel

end ModBuild.Rebinding
