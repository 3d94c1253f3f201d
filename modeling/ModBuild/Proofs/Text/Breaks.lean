import ModBuild.Proofs.Text.Lines

/-!
# Line breaks

A text may break its lines with a line feed alone or with a carriage return before it. Both ways are
read as the same lines (`Returned.lines_eq`), and lines that are written the second way leave nothing
else of either character in the text (`broken_flatMap`).
-/

namespace ModBuild.Text

set_option autoImplicit false

variable {a b cs : List Char}

/-- The second text is the first one with a carriage return written before some of its breaks. -/
inductive Returned : List Char → List Char → Prop
  | nil : Returned [] []
  | char (c : Char) {a b : List Char} : Returned a b → Returned (c :: a) (c :: b)
  | feed {a b : List Char} : Returned a b → Returned ('\n' :: a) ('\r' :: '\n' :: b)

/-- The text ends in a break, and every break is a carriage return and a line feed. -/
structure Broken (cs : List Char) : Prop where
  ends : ['\r', '\n'] <:+ cs
  before_feed : ∀ a b, cs = a ++ '\n' :: b → a.getLast? = some '\r'
  after_return : ∀ a b, cs = a ++ '\r' :: b → b.head? = some '\n'

theorem returned_flatMap (cs : List Char) :
    Returned cs (cs.flatMap fun c => if c = '\n' then ['\r', '\n'] else [c]) := by
  induction cs with
  | nil => exact .nil
  | cons c cs ih =>
    rw [List.flatMap_cons]
    split
    · next h => exact h ▸ .feed ih
    · exact .char c ih

theorem lines_feed (cs : List Char) : lines ('\n' :: cs) = [] :: lines cs :=
  lines_append_break [] cs

theorem lines_return_feed (cs : List Char) : lines ('\r' :: '\n' :: cs) = [] :: lines cs :=
  lines_append_break ['\r'] cs

theorem lines_cons {c : Char} (hfeed : c ≠ '\n') (hreturn : c ≠ '\r') (cs : List Char) :
    lines (c :: cs) = (c :: (lines cs).headD []) :: (lines cs).tail := by
  have hlast : [c].getLast? ≠ some '\r' := by simpa using hreturn
  have hdrop (part : List Char) : dropReturn (c :: part) = c :: dropReturn part :=
    dropReturn_append hlast part
  obtain ⟨part, parts, hparts⟩ := List.exists_cons_of_ne_nil (split_ne_nil '\n' cs)
  simp only [lines, split, if_neg hfeed, hparts]
  cases parts with
  | nil => cases part <;> simp [Option.filter]
  | cons next parts => simp [hdrop]

theorem Returned.lines_eq (h : Returned a b) (ha : '\r' ∉ a) : lines b = lines a := by
  induction h with
  | nil => rfl
  | @char c a b _ ih =>
    have hc : c ≠ '\r' := fun hc => ha (hc ▸ List.mem_cons_self)
    have ha : '\r' ∉ a := List.not_mem_of_not_mem_cons ha
    by_cases hfeed : c = '\n'
    · rw [hfeed, lines_feed, lines_feed, ih ha]
    · rw [lines_cons hfeed hc, lines_cons hfeed hc, ih ha]
  | feed _ ih => rw [lines_return_feed, lines_feed, ih (List.not_mem_of_not_mem_cons ha)]

theorem exists_of_append_eq {c : Char} {line rest : List Char} (h : c ∉ line)
    (hcs : line ++ rest = a ++ c :: b) : ∃ a', a = line ++ a' ∧ rest = a' ++ c :: b := by
  rcases List.append_eq_append_iff.mp hcs with hm | ⟨m, rfl, hm⟩
  · exact hm
  · cases m with
    | nil => exact ⟨[], by simp, hm.symm⟩
    | cons d m =>
      obtain ⟨rfl, -⟩ := List.cons.inj hm
      exact absurd (by simp) h

section
variable {ls : List (List Char)}

theorem before_feed_flatMap (h : ∀ line ∈ ls, '\n' ∉ line)
    (hcs : (ls.flatMap fun line => line ++ ['\r', '\n']) = a ++ '\n' :: b) :
    a.getLast? = some '\r' := by
  induction ls generalizing a with
  | nil => simp at hcs
  | cons line ls ih =>
    rw [List.flatMap_cons, List.append_assoc] at hcs
    obtain ⟨a', rfl, ha'⟩ := exists_of_append_eq (h line List.mem_cons_self) hcs
    match a' with
    | [] => simp at ha'
    | [c] =>
      simp only [List.cons_append, List.nil_append, List.cons.injEq] at ha'
      rw [← ha'.1, List.getLast?_concat]
    | c :: d :: rest =>
      simp only [List.cons_append, List.nil_append, List.cons.injEq] at ha'
      have hlast := ih (fun next hnext => h next (List.mem_cons_of_mem line hnext)) ha'.2.2
      have hne : rest ≠ [] := by
        rintro rfl
        cases hlast
      have hbefore : line ++ c :: d :: rest = line ++ [c, d] ++ rest := by simp
      rw [hbefore, List.getLast?_append_of_ne_nil _ hne, hlast]

theorem after_return_flatMap (h : ∀ line ∈ ls, '\r' ∉ line)
    (hcs : (ls.flatMap fun line => line ++ ['\r', '\n']) = a ++ '\r' :: b) :
    b.head? = some '\n' := by
  induction ls generalizing a with
  | nil => simp at hcs
  | cons line ls ih =>
    rw [List.flatMap_cons, List.append_assoc] at hcs
    obtain ⟨a', -, ha'⟩ := exists_of_append_eq (h line List.mem_cons_self) hcs
    match a' with
    | [] =>
      rw [List.nil_append, List.cons_append, List.cons.injEq] at ha'
      rw [← ha'.2]
      rfl
    | [c] => simp at ha'
    | c :: d :: rest =>
      simp only [List.cons_append, List.nil_append, List.cons.injEq] at ha'
      exact ih (fun next hnext => h next (List.mem_cons_of_mem line hnext)) ha'.2.2

theorem broken_flatMap (hne : ls ≠ []) (h : ∀ line ∈ ls, '\r' ∉ line ∧ '\n' ∉ line) :
    Broken (ls.flatMap fun line => line ++ ['\r', '\n']) where
  ends := by
    rw [← List.dropLast_append_getLast hne, List.flatMap_append, List.flatMap_singleton,
      ← List.append_assoc]
    exact List.suffix_append _ _
  before_feed := fun _ _ => before_feed_flatMap fun line hline => (h line hline).2
  after_return := fun _ _ => after_return_flatMap fun line hline => (h line hline).1

end

end ModBuild.Text
