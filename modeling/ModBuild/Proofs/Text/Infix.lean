import Mathlib.Data.List.Infix
import ModBuild.Proofs.Text.Lines

/-!
# What stands in a text

A needle without the separator stands in one part of a text (`infix_split_iff`), hence a needle
without a line feed stands in one line (`infix_lines_iff`). At a separator the text falls
into the parts before and the parts behind it (`eq_take_append_drop`).
-/

namespace ModBuild.Text

set_option autoImplicit false

variable {sep : Char} {w z cs a b : List Char}

theorem suffix_append_cons_iff (h : sep ∉ w) : w <:+ a ++ sep :: b ↔ w <:+ b := by
  refine ⟨fun hw => ?_,
    fun hw => hw.trans ((List.suffix_cons sep b).trans (List.suffix_append a _))⟩
  rcases List.suffix_or_suffix_of_suffix hw (List.suffix_append a (sep :: b)) with hs | hs
  · rcases List.suffix_cons_iff.mp hs with rfl | hs
    · exact absurd List.mem_cons_self h
    · exact hs
  · exact absurd (hs.subset List.mem_cons_self) h

theorem prefix_append_cons_iff (h : sep ∉ w) : w <+: a ++ sep :: b ↔ w <+: a := by
  refine ⟨fun hw => ?_, fun hw => hw.trans (List.prefix_append a _)⟩
  rcases List.prefix_or_prefix_of_prefix hw (List.prefix_append a (sep :: b)) with hp | ⟨t, rfl⟩
  · exact hp
  · rw [List.prefix_append_right_inj] at hw
    cases t with
    | nil => rw [List.append_nil]
    | cons c t =>
      obtain ⟨rfl, -⟩ := List.cons_prefix_cons.mp hw
      exact absurd (List.mem_append_right a List.mem_cons_self) h

theorem infix_append_cons_iff (h : sep ∉ w) (hne : w ≠ []) :
    w <:+: a ++ sep :: b ↔ w <:+: a ∨ w <:+: b := by
  induction a with
  | nil =>
    obtain ⟨c, w, rfl⟩ := List.exists_cons_of_ne_nil hne
    have hc : c ≠ sep := fun hc => h (hc ▸ List.mem_cons_self)
    simp [List.infix_cons_iff, List.cons_prefix_cons, hc]
  | cons c a ih =>
    rw [List.cons_append, List.infix_cons_iff, List.infix_cons_iff, ih, ← List.cons_append,
      prefix_append_cons_iff h, or_assoc]

theorem infix_joinWith_iff (h : sep ∉ w) (hne : w ≠ []) {parts : List (List Char)} :
    w <:+: joinWith [sep] parts ↔ ∃ part ∈ parts, w <:+: part := by
  induction parts with
  | nil => simpa [joinWith] using hne
  | cons part parts ih =>
    cases parts with
    | nil => simp [joinWith]
    | cons next parts =>
      rw [joinWith_cons_cons, List.append_assoc, List.singleton_append,
        infix_append_cons_iff h hne, ih, List.exists_mem_cons_iff (l := next :: parts)]

theorem infix_split_iff (h : sep ∉ w) (hne : w ≠ []) :
    w <:+: cs ↔ ∃ part ∈ split sep cs, w <:+: part := by
  rw [← infix_joinWith_iff h hne, joinWith_split]

theorem infix_append_return_iff (hlast : w.getLast? ≠ some '\r') :
    w <:+: cs ++ ['\r'] ↔ w <:+: cs := by
  rw [List.infix_concat_iff]
  refine ⟨fun hw => hw.elim (fun hsuffix => ?_) id, Or.inr⟩
  rcases List.suffix_concat_iff.mp hsuffix with rfl | ⟨t, rfl, -⟩
  · exact (List.nil_prefix).isInfix
  · simp at hlast

theorem infix_dropReturn_iff (hlast : w.getLast? ≠ some '\r') :
    w <:+: dropReturn cs ↔ w <:+: cs := by
  unfold dropReturn
  split
  · next hcs =>
    have hdrop : cs.dropLast ++ ['\r'] = cs := List.dropLast_append_getLast? '\r' hcs
    rw [← infix_append_return_iff hlast, hdrop]
  · rfl

theorem infix_lines_iff (h : '\n' ∉ w) (hne : w ≠ []) (hlast : w.getLast? ≠ some '\r') :
    w <:+: cs ↔ ∃ line ∈ lines cs, w <:+: line := by
  have hempty : w <:+: lastLine cs ↔
      ∃ line ∈ if lastLine cs = [] then [] else [lastLine cs], w <:+: line := by
    split
    · next he => simp [he, hne]
    · simp
  have hbroken : (∃ part ∈ (split '\n' cs).dropLast, w <:+: part) ↔
      ∃ line ∈ (split '\n' cs).dropLast.map dropReturn, w <:+: line := by
    simp only [List.mem_map, exists_exists_and_eq_and, infix_dropReturn_iff hlast]
  rw [infix_split_iff h hne, split_eq_append_lastLine, lines_eq]
  simp only [List.mem_append, or_and_right, exists_or, ← hbroken, ← hempty, List.mem_singleton,
    exists_eq_left]

theorem infix_written_iff (h : '\n' ∉ w) (hne : w ≠ []) (hlast : w.getLast? ≠ some '\r')
    {ls : List (List Char)} :
    w <:+: (ls.flatMap fun line => line ++ ['\r', '\n']) ↔ ∃ line ∈ ls, w <:+: line := by
  induction ls with
  | nil => simpa using hne
  | cons line ls ih =>
    have hline : line ++ ['\r', '\n'] = line ++ ['\r'] ++ ['\n'] := by simp
    rw [List.flatMap_cons, hline, List.append_assoc, List.singleton_append,
      infix_append_cons_iff h hne, infix_append_return_iff hlast, ih, List.exists_mem_cons_iff]

theorem joinWith_append {parts parts' : List (List Char)} (h : parts ≠ []) (h' : parts' ≠ []) :
    joinWith [sep] (parts ++ parts') = joinWith [sep] parts ++ sep :: joinWith [sep] parts' := by
  induction parts with
  | nil => exact absurd rfl h
  | cons part parts ih =>
    cases parts with
    | nil =>
      obtain ⟨next, rest, rfl⟩ := List.exists_cons_of_ne_nil h'
      rw [List.singleton_append, joinWith_cons_cons, List.append_assoc]
      rfl
    | cons next parts =>
      rw [List.cons_append, List.cons_append, joinWith_cons_cons, ← List.cons_append,
        ih (List.cons_ne_nil next parts), joinWith_cons_cons, List.append_assoc, List.append_assoc,
        List.append_assoc]

theorem exists_split_of_append (h : sep ∉ z) (b : List Char) :
    ∃ part parts, split sep b = part :: parts ∧ split sep (z ++ b) = (z ++ part) :: parts := by
  obtain ⟨part, parts, hb⟩ := List.exists_cons_of_ne_nil (split_ne_nil sep b)
  refine ⟨part, parts, hb, ?_⟩
  induction z with
  | nil => exact hb
  | cons c z ih =>
    have hc : c ≠ sep := fun hc => h (hc ▸ List.mem_cons_self)
    have hz := ih fun hm => h (List.mem_cons_of_mem c hm)
    simp only [List.cons_append, split, if_neg hc, hz]

theorem prefix_joinWith (sep part : List Char) (parts : List (List Char)) :
    part <+: joinWith sep (part :: parts) := by
  cases parts with
  | nil => exact List.prefix_refl part
  | cons next parts =>
    rw [joinWith_cons_cons, List.append_assoc]
    exact List.prefix_append part _

theorem suffix_of_getLast?_split (h : (split sep cs).getLast? = some a) : a <:+ cs := by
  obtain ⟨before, hsplit⟩ := List.getLast?_eq_some_iff.mp h
  rw [← joinWith_split sep cs, hsplit]
  cases before with
  | nil => exact List.suffix_refl a
  | cons part before =>
    rw [joinWith_append (List.cons_ne_nil _ _) (List.cons_ne_nil _ _)]
    exact (List.suffix_cons sep a).trans (List.suffix_append _ _)

theorem eq_take_append_drop {i : Nat} (h : i + 1 < (split sep cs).length) :
    ∃ before after, cs = before ++ sep :: after ∧ split sep before = (split sep cs).take (i + 1) ∧
      split sep after = (split sep cs).drop (i + 1) := by
  have htake : (split sep cs).take (i + 1) ≠ [] := by
    simp [split_ne_nil]
  have hdrop : (split sep cs).drop (i + 1) ≠ [] := by
    simpa using h
  refine ⟨joinWith [sep] ((split sep cs).take (i + 1)),
    joinWith [sep] ((split sep cs).drop (i + 1)),
    ?_, split_joinWith htake ?_, split_joinWith hdrop ?_⟩
  · rw [← joinWith_append htake hdrop, List.take_append_drop, joinWith_split]
  · exact fun part hpart => not_mem_of_mem_split (List.mem_of_mem_take hpart)
  · exact fun part hpart => not_mem_of_mem_split (List.mem_of_mem_drop hpart)

end ModBuild.Text
