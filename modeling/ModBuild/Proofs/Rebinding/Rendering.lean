import ModBuild.Proofs.Rebinding.Binding
import ModBuild.Proofs.Text.Lines

/-!
# The shape of a rebound module

A module with bindings is written as its body, one empty line, the boot block and its return. Between
body and return only line breaks are lost, after the return only blanks; the lines of the body keep
their numbers.

Which lines are bindings is not treated here.
-/

namespace ModBuild.Rebinding

set_option autoImplicit false

/-- A line with the break after it. -/
def fullLine (s : String) : List Char := s.toList ++ ['\n']

/-- The boot block line by line. -/
def Template.blockText (t : Template) (bs : List Binding) : List Char :=
  fullLine "-- PIPEWRENCH --" ++ fullLine ("Events." ++ t.event ++ ".Add(function()") ++
    bs.flatMap (fun b => fullLine ("  " ++ b.assignment)) ++
    fullLine "end)" ++ fullLine "----------------"

theorem toList_append_break (s : String) : (s ++ "\n").toList = fullLine s := by
  simp [fullLine]

theorem Template.toList_block (t : Template) (bs : List Binding) :
    (t.block (bs.map (·.assignment))).toList = t.blockText bs := by
  unfold block blockLines blockStart blockEnd blockText
  simp only [String.toList_join, List.flatMap_map, List.flatMap_append, List.flatMap_cons,
    List.flatMap_nil, toList_append_break, List.append_nil, List.append_assoc]

theorem Template.exists_blockEnd (t : Template) (bs : List Binding) :
    ∃ above, t.blockText bs = above ++ '\n' :: (blockEnd.toList ++ ['\n']) := by
  refine ⟨fullLine blockStart ++ fullLine ("Events." ++ t.event ++ ".Add(function()") ++
    bs.flatMap (fun b => fullLine ("  " ++ b.assignment)) ++ "end)".toList, ?_⟩
  simp [blockText, fullLine, blockStart, blockEnd]

theorem isReturn_ne_nil {line : List Char} (h : isReturn line = true) : line ≠ [] := by
  rintro rfl
  exact absurd h (by decide)

/-- The return that a module is cut at stands on a line of its own, with blanks after it only. -/
theorem cutReturn?_eq_some {cs before line : List Char} (h : cutReturn? cs = some (before, line)) :
    ∃ blanks, cs = before ++ line ++ blanks ∧ (∀ c ∈ blanks, Text.isBlank c = true) ∧
      isReturn line = true ∧ '\n' ∉ line ∧ (∀ c, line.getLast? = some c → Text.isBlank c = false) ∧
      (before = [] ∨ ∃ above, before = above ++ ['\n']) := by
  have htrim : Text.trimEnd cs ++ cs.rtakeWhile Text.isBlank = cs :=
    Text.dropEndWhile_append Text.isBlank cs
  have hlast : ∀ c, (Text.trimEnd cs).getLast? = some c → Text.isBlank c = false :=
    fun c hc => Text.getLast?_dropEndWhile hc
  have htake := Text.take_lastLine (Text.trimEnd cs)
  have hno := Text.not_mem_lastLine (Text.trimEnd cs)
  have hor := Text.eq_lastLine_or (Text.trimEnd cs)
  simp only [cutReturn?] at h
  split at h
  · next hret =>
    cases h
    generalize (Text.trimEnd cs).take _ = before at htake ⊢
    generalize Text.lastLine (Text.trimEnd cs) = line at htake hno hor hret ⊢
    rw [← htake] at htrim hlast hor
    refine ⟨_, htrim.symm, fun c hc => List.mem_rtakeWhile_imp hc, hret, hno, ?_, ?_⟩
    · intro c hc
      apply hlast c
      rw [List.getLast?_append_of_ne_nil before (isReturn_ne_nil hret), hc]
    · rcases hor with hself | ⟨above, habove⟩
      · exact Or.inl (List.append_left_eq_self.mp hself)
      · have hbreak : before ++ line = above ++ ['\n'] ++ line := by simpa using habove
        exact Or.inr ⟨above, List.append_cancel_right hbreak⟩
  · cases h

section
variable {body : List Char} (hne : body ≠ [])
variable (hbody : ∀ c, body.getLast? = some c → c ≠ '\n' ∧ c ≠ '\r')
include hne hbody

theorem lastLine_body : Text.lastLine body ≠ [] ∧ (Text.lastLine body).getLast? ≠ some '\r' := by
  have hlf : body.getLast? ≠ some '\n' := fun hc => (hbody _ hc).1 rfl
  have hl := Text.getLast?_lastLine hlf
  refine ⟨?_, fun hc => (hbody _ (hl ▸ hc)).2 rfl⟩
  intro he
  rw [he, List.getLast?_nil] at hl
  exact hne (List.getLast?_eq_none_iff.mp hl.symm)

theorem lines_body : Text.lines body =
    (Text.split '\n' body).dropLast.map Text.dropReturn ++ [Text.lastLine body] := by
  have h := Text.lines_append_of_not_mem body (r := []) (by simp) (by simp [(lastLine_body hne hbody).1])
  simpa using h

theorem lines_body_append (more : List Char) : Text.lines (body ++ '\n' :: more) =
    (Text.split '\n' body).dropLast.map Text.dropReturn ++ Text.lastLine body :: Text.lines more := by
  have h := Text.lines_append_returns body more (r := []) (by simp)
  simpa [Text.dropReturn_of_getLast?_ne (lastLine_body hne hbody).2] using h

/-- In front of other breaks the last line of the body may gain carriage returns. -/
theorem exists_lines_body_breaks {breaks rest : List Char}
    (hbreaks : ∀ c ∈ breaks, c = '\n' ∨ c = '\r') (hrest : '\n' ∈ breaks ∨ rest = []) :
    ∃ returns later, (∀ c ∈ returns, c = '\r') ∧ later <:+ breaks ∧
      Text.lines (body ++ breaks ++ rest) =
        (Text.split '\n' body).dropLast.map Text.dropReturn ++
          (Text.lastLine body ++ returns) :: Text.lines (later ++ rest) := by
  obtain ⟨hlast, hcr⟩ := lastLine_body hne hbody
  by_cases hm : '\n' ∈ breaks
  · obtain ⟨r, b, rfl, hr⟩ := List.eq_append_cons_of_mem hm
    have hret : ∀ c ∈ r, c = '\r' := by
      intro c hc
      rcases hbreaks c (by simp [hc]) with rfl | rfl
      · exact absurd hc hr
      · rfl
    refine ⟨Text.dropReturn r, b, fun c hc => hret c ((Text.dropReturn_prefix r).subset hc),
      (List.suffix_cons '\n' b).trans (List.suffix_append r _), ?_⟩
    have h := Text.lines_append_returns body (b ++ rest) hr
    rw [Text.dropReturn_append hcr] at h
    simpa using h
  · have hret : ∀ c ∈ breaks, c = '\r' := by
      intro c hc
      rcases hbreaks c hc with rfl | rfl
      · exact absurd hc hm
      · rfl
    rcases hrest with h | rfl
    · exact absurd h hm
    · refine ⟨breaks, [], hret, List.nil_suffix, ?_⟩
      rw [List.append_nil]
      exact Text.lines_append_of_not_mem body hm (by simp [hlast])

end

/-- The lines of the body keep their numbers when other text takes the place of what follows. -/
theorem lines_kept {body breaks : List Char} (rest more : List Char)
    (hbody : ∀ c, body.getLast? = some c → c ≠ '\n' ∧ c ≠ '\r')
    (hbreaks : ∀ c ∈ breaks, c = '\n' ∨ c = '\r')
    (hrest : body = [] ∨ '\n' ∈ breaks ∨ rest = []) {i : Nat} {line : List Char}
    (h : (Text.lines body)[i]? = some line) :
    (Text.lines (body ++ '\n' :: more))[i]? = some line ∧
      ∃ returns, (∀ c ∈ returns, c = '\r') ∧
        (Text.lines (body ++ breaks ++ rest))[i]? = some (line ++ returns) := by
  by_cases hne : body = []
  · subst body
    change ([] : List (List Char))[i]? = some line at h
    simp at h
  obtain ⟨returns, later, hret, _, htext⟩ :=
    exists_lines_body_breaks hne hbody hbreaks (hrest.resolve_left hne)
  rw [lines_body hne hbody] at h
  rw [lines_body_append hne hbody, htext]
  rcases Nat.lt_or_ge i ((Text.split '\n' body).dropLast.map Text.dropReturn).length with hi | hi
  · rw [List.getElem?_append_left hi] at h ⊢
    refine ⟨h, [], by simp, ?_⟩
    rw [List.getElem?_append_left hi, h, List.append_nil]
  · rw [List.getElem?_append_right hi] at h ⊢
    have hi0 := (List.getElem?_eq_some_iff.mp h).1
    rw [List.length_singleton, Nat.lt_one_iff] at hi0
    rw [hi0] at h ⊢
    cases h
    refine ⟨rfl, returns, hret, ?_⟩
    rw [List.getElem?_append_right hi, hi0]
    rfl

namespace Plan

theorem isBreak_iff {c : Char} : isBreak c = true ↔ c = '\n' ∨ c = '\r' := by
  simp [isBreak]

/-- A module with bindings, `text`, and the rebound module `output`: what is kept, what is lost and
where the block stands. -/
structure Rebound (t : Template) (plan : Plan) (text output body breaks ret blanks tail : List Char) :
    Prop where
  text_eq : text = body ++ breaks ++ ret ++ blanks
  breaks_only : ∀ c ∈ breaks, c = '\n' ∨ c = '\r'
  blanks_only : ∀ c ∈ blanks, Text.isBlank c = true
  output_eq : output = body ++ ['\n', '\n'] ++ t.blockText plan.bindings ++ tail
  in_order : plan.bindings.Pairwise fun a b => a.line < b.line
  /-- A return stays the last line; without one the module ends with the block. -/
  ending :
    (plan.ending = some (body ++ breaks, ret) ∧ isReturn ret = true ∧ tail = ret ++ ['\n'] ∧
      (Text.lines output).getLast? = some ret) ∨
    (plan.ending = none ∧ ret = [] ∧ blanks = [] ∧ tail = [])
  lines_eq : ∀ (i : Nat) (line : List Char), (Text.lines body)[i]? = some line →
    (Text.lines output)[i]? = some line ∧
      ∃ returns : List Char, (∀ c ∈ returns, c = '\r') ∧
        (Text.lines text)[i]? = some (line ++ returns)

theorem getLast?_lines_return (above : List Char) {ret : List Char} (hno : '\n' ∉ ret)
    (hcr : ret.getLast? ≠ some '\r') :
    (Text.lines (above ++ '\n' :: (ret ++ ['\n']))).getLast? = some ret := by
  have hret : Text.lines (ret ++ '\n' :: []) = [ret] := by
    rw [Text.lines_append_break, Text.split_of_not_mem hno, List.map_singleton,
      Text.dropReturn_of_getLast?_ne hcr]
    rfl
  rw [Text.lines_append_break, hret]
  simp

theorem getLast?_body {cs : List Char} {c : Char}
    (h : (Text.dropEndWhile isBreak cs).getLast? = some c) : c ≠ '\n' ∧ c ≠ '\r' := by
  have hc := Text.getLast?_dropEndWhile h
  simpa [isBreak] using hc

theorem breaks_only (cs : List Char) : ∀ c ∈ cs.rtakeWhile isBreak, c = '\n' ∨ c = '\r' :=
  fun _ hc => isBreak_iff.mp (List.mem_rtakeWhile_imp hc)

theorem lineFeed_mem_breaks {before : List Char}
    (h : before = [] ∨ ∃ above, before = above ++ ['\n']) :
    Text.dropEndWhile isBreak before = [] ∨ '\n' ∈ before.rtakeWhile isBreak := by
  rcases h with rfl | ⟨above, rfl⟩
  · exact Or.inl rfl
  · exact Or.inr (by simp [isBreak])

theorem toList_render_of_some (t : Template) (text : String) {plan : Plan} {before line : List Char}
    (hb : plan.bindings ≠ []) (hend : plan.ending = some (before, line)) :
    (plan.render t text).toList =
      Text.dropEndWhile isBreak before ++ ['\n', '\n'] ++ t.blockText plan.bindings ++
        (line ++ ['\n']) := by
  unfold render
  rw [if_neg (by simpa using hb), hend]
  simp [Template.toList_block]

theorem toList_render_of_none (t : Template) (text : String) {plan : Plan} (hb : plan.bindings ≠ [])
    (hend : plan.ending = none) :
    (plan.render t text).toList = Text.dropEndWhile isBreak text.toList ++ ['\n', '\n'] ++
      t.blockText plan.bindings ++ [] := by
  unfold render
  rw [if_neg (by simpa using hb), hend]
  simp [Template.toList_block]

section
variable {t : Template} {text : String}

theorem rebound_of_none (hb : (analyze t text).bindings ≠ []) (hend : (analyze t text).ending = none) :
    Rebound t (analyze t text) text.toList ((analyze t text).render t text).toList
      (Text.dropEndWhile isBreak text.toList) (text.toList.rtakeWhile isBreak) [] [] [] := by
  have htext := Text.dropEndWhile_append isBreak text.toList
  have hbreaks := breaks_only text.toList
  have hrender := toList_render_of_none t text hb hend
  refine ⟨?_, hbreaks, by simp, hrender, bindings_pairwise t text, Or.inr ⟨hend, rfl, rfl, rfl⟩, ?_⟩
  · rw [List.append_nil, List.append_nil, htext]
  · intro i line hline
    have hkept := lines_kept [] ('\n' :: t.blockText (analyze t text).bindings) (fun c => getLast?_body)
      hbreaks (Or.inr (Or.inr rfl)) hline
    rw [List.append_nil, htext] at hkept
    rw [hrender]
    simpa using hkept

theorem rebound_of_some {before line : List Char} (hb : (analyze t text).bindings ≠ [])
    (hend : (analyze t text).ending = some (before, line)) :
    ∃ blanks, Rebound t (analyze t text) text.toList ((analyze t text).render t text).toList
      (Text.dropEndWhile isBreak before) (before.rtakeWhile isBreak) line blanks (line ++ ['\n']) := by
  obtain ⟨blanks, htext, hblanks, hret, hno, hlast, hbefore⟩ := cutReturn?_eq_some hend
  have hsplit := Text.dropEndWhile_append isBreak before
  have hbreaks := breaks_only before
  have hrender := toList_render_of_some t text hb hend
  have hcr : line.getLast? ≠ some '\r' := fun h => absurd (hlast _ h) (by decide)
  have hlf := lineFeed_mem_breaks hbefore
  refine ⟨blanks, ?_, hbreaks, hblanks, hrender, bindings_pairwise t text, Or.inl ⟨?_, hret, rfl, ?_⟩, ?_⟩
  · rw [hsplit, htext]
  · rw [hsplit, hend]
  · obtain ⟨above, hblock⟩ := t.exists_blockEnd (analyze t text).bindings
    rw [hrender, hblock]
    simpa using getLast?_lines_return
      (Text.dropEndWhile isBreak before ++ '\n' :: '\n' :: (above ++ '\n' :: Template.blockEnd.toList))
      hno hcr
  · intro i l hl
    have hkept := lines_kept (line ++ blanks)
      ('\n' :: t.blockText (analyze t text).bindings ++ (line ++ ['\n'])) (fun c => getLast?_body)
      hbreaks (hlf.imp_right Or.inl) hl
    rw [hsplit, ← List.append_assoc before, ← htext] at hkept
    rw [hrender]
    simpa using hkept

theorem render_of_no_bindings (hb : (analyze t text).bindings = []) :
    (analyze t text).render t text = text := by
  simp [render, hb]

theorem exists_rebound (hb : (analyze t text).bindings ≠ []) :
    ∃ body breaks ret blanks tail,
      Rebound t (analyze t text) text.toList ((analyze t text).render t text).toList
        body breaks ret blanks tail := by
  cases hend : (analyze t text).ending with
  | none => exact ⟨_, _, _, _, _, rebound_of_none hb hend⟩
  | some ending =>
    obtain ⟨blanks, hre⟩ := rebound_of_some hb hend
    exact ⟨_, _, _, blanks, _, hre⟩

end

/-- A module without bindings stays as it is. Any other one keeps its body and its return around the
boot block. -/
theorem render_analyze (t : Template) (text : String) :
    ((analyze t text).bindings = [] ∧ (analyze t text).render t text = text) ∨
    ((analyze t text).bindings ≠ [] ∧ ∃ body breaks ret blanks tail,
      Rebound t (analyze t text) text.toList ((analyze t text).render t text).toList
        body breaks ret blanks tail) := by
  by_cases hb : (analyze t text).bindings = []
  · exact Or.inl ⟨hb, render_of_no_bindings hb⟩
  · exact Or.inr ⟨hb, exists_rebound hb⟩

end Plan

end ModBuild.Rebinding
