import Mathlib.Data.List.DropRight
import ModBuild.Proofs.Text.Split

/-!
# Lines

Everything about the lines of a text follows from one equation: at a line feed a text falls into two
texts whose lines are counted apart (`split_append_sep`, `lines_append_break`). The text after the
last line feed is the last part of the split (`split_eq_append_lastLine`).
-/

namespace ModBuild.Text

set_option autoImplicit false

theorem dropEndWhile_append (p : Char → Bool) (cs : List Char) :
    dropEndWhile p cs ++ cs.rtakeWhile p = cs :=
  List.rdropWhile_append_rtakeWhile

theorem getLast?_dropEndWhile {p : Char → Bool} {cs : List Char} {c : Char}
    (h : (dropEndWhile p cs).getLast? = some c) : p c = false := by
  have hne : dropEndWhile p cs ≠ [] := by
    intro he
    simp [he] at h
  rw [List.getLast?_eq_some_getLast hne] at h
  cases h
  exact Bool.eq_false_iff.mpr (List.rdropWhile_last_not p cs hne)

theorem not_mem_lastLine (cs : List Char) : '\n' ∉ lastLine cs := by
  intro h
  simpa using List.mem_rtakeWhile_imp (p := fun c => decide (c ≠ '\n')) h

theorem eq_lastLine_or (cs : List Char) :
    cs = lastLine cs ∨ ∃ above, cs = above ++ '\n' :: lastLine cs := by
  have h := dropEndWhile_append (fun c => decide (c ≠ '\n')) cs
  change _ ++ lastLine cs = cs at h
  cases habove : dropEndWhile (fun c => decide (c ≠ '\n')) cs using List.reverseRecOn with
  | nil =>
    rw [habove] at h
    exact Or.inl h.symm
  | append_singleton above c _ =>
    have hc : c = '\n' := by
      simpa using getLast?_dropEndWhile (p := fun c => decide (c ≠ '\n')) (c := c) (by rw [habove]; simp)
    rw [habove, hc] at h
    exact Or.inr ⟨above, by simpa using h.symm⟩

theorem take_lastLine (cs : List Char) :
    cs.take (cs.length - (lastLine cs).length) ++ lastLine cs = cs :=
  List.suffix_iff_eq_append.mp (List.rtakeWhile_suffix _ cs)

theorem lastLine_append_of_not_mem (cs : List Char) {m : List Char} (h : '\n' ∉ m) :
    lastLine (cs ++ m) = lastLine cs ++ m := by
  unfold lastLine
  rw [List.reverse_append, List.takeWhile_append_of_pos, List.reverse_append, List.reverse_reverse]
  intro c hc
  refine decide_eq_true ?_
  rintro rfl
  exact h (List.mem_reverse.mp hc)

theorem split_append_of_not_mem (cs : List Char) {m : List Char} (h : '\n' ∉ m) :
    split '\n' (cs ++ m) = (split '\n' cs).dropLast ++ [lastLine cs ++ m] := by
  have hlast := not_mem_lastLine cs
  have hno : '\n' ∉ lastLine cs ++ m := by simp [hlast, h]
  rcases eq_lastLine_or cs with hc | ⟨above, hc⟩ <;>
    generalize lastLine cs = last at hc hlast hno ⊢ <;> subst hc
  · rw [split_of_not_mem hno, split_of_not_mem hlast]
    rfl
  · rw [List.append_assoc, List.cons_append, split_append_sep, split_append_sep,
      split_of_not_mem hlast, split_of_not_mem hno, List.dropLast_concat]

theorem split_eq_append_lastLine (cs : List Char) :
    split '\n' cs = (split '\n' cs).dropLast ++ [lastLine cs] := by
  simpa using split_append_of_not_mem cs (m := []) (by simp)

theorem lines_append_break (a b : List Char) :
    lines (a ++ '\n' :: b) = (split '\n' a).map dropReturn ++ lines b := by
  have hb := split_ne_nil '\n' b
  unfold lines
  simp only [split_append_sep, List.dropLast_append_of_ne_nil hb, List.map_append, List.append_assoc,
    List.getLast?_append_of_ne_nil _ hb]

theorem lines_eq (cs : List Char) :
    lines cs = (split '\n' cs).dropLast.map dropReturn ++
      if lastLine cs = [] then [] else [lastLine cs] := by
  have hl : (split '\n' cs).getLast? = some (lastLine cs) := by
    rw [split_eq_append_lastLine]
    simp
  simp only [lines, hl]
  by_cases he : lastLine cs = [] <;> simp [he, Option.filter]

/-- The line that ends at a break keeps all carriage returns in front of the break but one. -/
theorem lines_append_returns (cs rest : List Char) {r : List Char} (hr : '\n' ∉ r) :
    lines (cs ++ r ++ '\n' :: rest) = (split '\n' cs).dropLast.map dropReturn ++
      dropReturn (lastLine cs ++ r) :: lines rest := by
  rw [lines_append_break, split_append_of_not_mem cs hr]
  simp

theorem lines_append_of_not_mem (cs : List Char) {r : List Char} (hr : '\n' ∉ r)
    (hne : lastLine cs ++ r ≠ []) :
    lines (cs ++ r) = (split '\n' cs).dropLast.map dropReturn ++ [lastLine cs ++ r] := by
  rw [lines_eq, split_append_of_not_mem cs hr, List.dropLast_concat,
    lastLine_append_of_not_mem cs hr, if_neg hne]

theorem dropReturn_of_getLast?_ne {cs : List Char} (h : cs.getLast? ≠ some '\r') :
    dropReturn cs = cs := by
  rw [dropReturn, if_neg h]

theorem dropReturn_append {cs : List Char} (h : cs.getLast? ≠ some '\r') (r : List Char) :
    dropReturn (cs ++ r) = cs ++ dropReturn r := by
  cases r using List.reverseRecOn with
  | nil =>
    rw [List.append_nil, dropReturn_of_getLast?_ne h]
    exact (List.append_nil cs).symm
  | append_singleton r c _ =>
    rw [← List.append_assoc, dropReturn, dropReturn, List.getLast?_concat, List.getLast?_concat,
      List.dropLast_concat, List.dropLast_concat]
    split
    · rfl
    · exact List.append_assoc cs r [c]

theorem getLast?_lastLine {cs : List Char} (h : cs.getLast? ≠ some '\n') :
    (lastLine cs).getLast? = cs.getLast? := by
  rcases eq_lastLine_or cs with hc | ⟨above, hc⟩
  · rw [← hc]
  · generalize lastLine cs = last at hc ⊢
    subst hc
    cases last with
    | nil => simp at h
    | cons c last =>
      rw [List.getLast?_append_of_ne_nil above (List.cons_ne_nil _ _), List.getLast?_cons_cons]

/-- Lines written with a carriage return before each break are read back. -/
theorem lines_joinWith {ls : List (List Char)} (h : ∀ line ∈ ls, '\n' ∉ line ∧ line ≠ []) :
    lines (joinWith ['\r', '\n'] ls) = ls := by
  induction ls with
  | nil => rfl
  | cons line ls ih =>
    obtain ⟨hline, hne⟩ := h line List.mem_cons_self
    cases ls with
    | nil =>
      have hsplit := split_of_not_mem hline
      simp [lines, joinWith, hsplit, hne]
    | cons next ls =>
      have hreturn : '\n' ∉ line ++ ['\r'] := by simp [hline]
      have htext : joinWith ['\r', '\n'] (line :: next :: ls) =
          (line ++ ['\r']) ++ '\n' :: joinWith ['\r', '\n'] (next :: ls) := by
        rw [joinWith_cons_cons, List.append_assoc, List.append_assoc]
        rfl
      rw [htext, lines_append_break, split_of_not_mem hreturn, List.map_singleton, dropReturn,
        if_pos (by simp), List.dropLast_concat, ih fun q hq => h q (List.mem_cons_of_mem line hq),
        List.singleton_append]

theorem dropReturn_prefix (cs : List Char) : dropReturn cs <+: cs := by
  unfold dropReturn
  split
  · exact List.dropLast_prefix cs
  · exact List.prefix_refl cs

theorem exists_part_of_mem_lines {cs line : List Char} (h : line ∈ lines cs) :
    ∃ part ∈ split '\n' cs, line <+: part := by
  rcases List.mem_append.mp h with h | h
  · obtain ⟨part, hpart, rfl⟩ := List.mem_map.mp h
    exact ⟨part, (List.dropLast_sublist _).subset hpart, dropReturn_prefix part⟩
  · rw [Option.mem_toList, Option.filter_eq_some_iff] at h
    exact ⟨line, List.mem_of_getLast? h.1, List.prefix_refl line⟩

theorem subset_of_mem_lines {cs line : List Char} (h : line ∈ lines cs) : line ⊆ cs := by
  obtain ⟨part, hpart, hstart⟩ := exists_part_of_mem_lines h
  exact fun c hc => subset_of_mem_split hpart (hstart.subset hc)

theorem not_mem_of_mem_lines {cs line : List Char} (h : line ∈ lines cs) : '\n' ∉ line := by
  obtain ⟨part, hpart, hstart⟩ := exists_part_of_mem_lines h
  exact fun hm => not_mem_of_mem_split hpart (hstart.subset hm)

end ModBuild.Text
