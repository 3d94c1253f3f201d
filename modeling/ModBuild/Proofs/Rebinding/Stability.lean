import ModBuild.Proofs.Rebinding.Declared
import ModBuild.Proofs.Rebinding.Rendering
import ModBuild.Proofs.Text.Needle

/-!
# The bindings of a rebound module

No line that rebinding adds starts with the keyword of a declaration: the lines of the boot block are
indented or start with other words, and the return is a return. The lines of the body keep their
numbers, and the blanks that one of them loses say nothing. So a rebound module has the same bindings
as the module before (`bindings_rebind`).
-/

namespace ModBuild.Rebinding

set_option autoImplicit false

open Text (Blank)

section
variable {bridge a b cs r : List Char}

theorem memberAfter?_of_none {last : Option Char} (h : Text.cut? (bridge ++ ['.']) cs = none) :
    memberAfter? bridge last cs = none := by
  rw [memberAfter?.eq_def]
  split
  · rfl
  · simp_all

theorem memberAfter?_of_some {last : Option Char}
    (h : Text.cut? (bridge ++ ['.']) cs = some (a, b)) : memberAfter? bridge last cs =
      if (a.getLast?.or last).any Text.isNameChar then memberAfter? bridge (some '.') b
      else some (Text.dropEndWhile (· = '.')
        (b.takeWhile fun c => Text.isNameChar c || c = '.')) := by
  rw [memberAfter?.eq_def]
  split
  · simp_all
  · next heq =>
    cases h.symm.trans heq
    rfl

theorem takeWhile_append_of_neg {p : Char → Bool} (hr : ∀ c ∈ r, p c = false) (cs : List Char) :
    (cs ++ r).takeWhile p = cs.takeWhile p := by
  induction cs with
  | nil =>
    cases r with
    | nil => rfl
    | cons c r => exact List.takeWhile_cons_of_neg (by simp [hr c List.mem_cons_self])
  | cons c cs ih => simp only [List.cons_append, List.takeWhile_cons, ih]

theorem memberAfter?_append_blank (hr : Blank r) (last : Option Char) (cs : List Char) :
    memberAfter? bridge last (cs ++ r) = memberAfter? bridge last cs := by
  have hchars : ∀ c ∈ r, (Text.isNameChar c || c = '.') = false := by
    intro c hc
    have hblank := hr c hc
    rw [Bool.or_eq_false_iff]
    constructor
    · exact not_isNameChar_of_isBlank hblank
    · apply decide_eq_false
      rintro rfl
      exact absurd hblank (by decide)
  have hdot : '.' ∉ r := fun hm => absurd (hchars '.' hm) (by decide)
  fun_induction memberAfter? bridge last cs with
  | case1 last cs hcut =>
    apply memberAfter?_of_none
    rw [Text.cut?_append_of_not_mem hdot, hcut, Option.map_none]
  | case2 last cs a b hcut hname ih =>
    have hcut' := Text.cut?_append_of_not_mem hdot (w := bridge) cs
    rw [hcut, Option.map_some] at hcut'
    rw [memberAfter?_of_some hcut', if_pos hname, ih]
  | case3 last cs a b hcut hname =>
    have hcut' := Text.cut?_append_of_not_mem hdot (w := bridge) cs
    rw [hcut, Option.map_some] at hcut'
    rw [memberAfter?_of_some hcut', if_neg hname, takeWhile_append_of_neg hchars]

theorem assignmentOf_append_blank (hr : Blank r) (rest : List Char) :
    assignmentOf (Declaration.keyword ++ rest ++ r) = assignmentOf (Declaration.keyword ++ rest) := by
  have hends : ∀ c ∈ r, (Text.isBlank c || c = ';') = true := by
    intro c hc
    rw [hr c hc]
    rfl
  rw [assignmentOf, assignmentOf, List.append_assoc, List.drop_left, List.drop_left]
  by_cases hrest : Blank rest
  · rw [Text.trimStart_eq_nil_iff.mpr hrest, Text.trimStart_eq_nil_iff.mpr (hrest.append hr)]
  · rw [Text.trimStart_append hrest, Text.dropEndWhile_append_of_pos hends]

theorem Binding.ofLine?_append_blank (hr : Blank r) (t : Template) (n : Nat) (line : List Char) :
    Binding.ofLine? t n (line ++ r) = Binding.ofLine? t n line := by
  unfold Binding.ofLine?
  rw [Rebinding.ofLine?_append_blank hr line]
  cases h : Declaration.ofLine? line with
  | none => rfl
  | some s =>
    obtain ⟨rest, rfl⟩ := Declaration.keyword_prefix h
    have hnames : Declaration.nameList ⟨s.names, s.initializer ++ r⟩ = s.nameList := rfl
    simp only [Option.map_some, hnames, memberAfter?_append_blank hr, assignmentOf_append_blank hr]

end

/-- No line of the text starts with the keyword of a declaration. -/
def Bare (cs : List Char) : Prop :=
  ∀ part ∈ Text.split '\n' cs, ¬ Declaration.keyword <+: part

section
variable {c : Char} {cs z : List Char}

theorem not_keyword_prefix (hc : c ≠ 'l') (cs : List Char) : ¬ Declaration.keyword <+: c :: cs := by
  intro h
  have hkeyword : Declaration.keyword = 'l' :: "ocal".toList := by decide
  rw [hkeyword] at h
  exact hc (List.cons_prefix_cons.mp h).1.symm

theorem bare_nil : Bare [] := by
  intro part hpart
  rw [Text.split, List.mem_singleton] at hpart
  rw [hpart]
  decide

theorem Bare.cons (hc : c ≠ 'l') (h : Bare cs) : Bare (c :: cs) := by
  intro part hpart
  by_cases hbreak : c = '\n'
  · rw [Text.split, if_pos hbreak] at hpart
    rcases List.mem_cons.mp hpart with rfl | hpart
    · exact bare_nil [] List.mem_cons_self
    · exact h part hpart
  · obtain ⟨first, parts, hsplit⟩ := List.exists_cons_of_ne_nil (Text.split_ne_nil '\n' cs)
    simp only [Text.split, if_neg hbreak, hsplit] at hpart
    rcases List.mem_cons.mp hpart with rfl | hpart
    · exact not_keyword_prefix hc first
    · exact h part (hsplit ▸ List.mem_cons_of_mem first hpart)

theorem Bare.append (hz : ∀ c ∈ z, c ≠ 'l') (h : Bare cs) : Bare (z ++ cs) := by
  induction z with
  | nil => exact h
  | cons c z ih =>
    exact (ih fun x hx => hz x (List.mem_cons_of_mem c hx)).cons (hz c List.mem_cons_self)

theorem Bare.append_of_head? (hhead : z.head? = some c) (hc : c ≠ 'l') (hz : '\n' ∉ z) (h : Bare cs) :
    Bare (z ++ cs) := by
  obtain ⟨z, rfl⟩ := List.head?_eq_some_iff.mp hhead
  obtain ⟨first, parts, hsplit, hwhole⟩ := Text.exists_split_of_append hz cs
  intro part hpart
  rw [hwhole] at hpart
  rcases List.mem_cons.mp hpart with rfl | hpart
  · exact not_keyword_prefix hc _
  · exact h part (hsplit ▸ List.mem_cons_of_mem first hpart)

theorem Bare.fullLine {s : String} (hhead : s.toList.head? = some c) (hc : c ≠ 'l')
    (hs : '\n' ∉ s.toList) (h : Bare cs) : Bare (fullLine s ++ cs) := by
  rw [Rebinding.fullLine, List.append_assoc, List.singleton_append]
  exact (h.cons (by decide)).append_of_head? hhead hc hs

theorem bare_blank (h : Blank cs) : Bare cs := by
  have hno : ∀ c ∈ cs, c ≠ 'l' := by
    rintro c hc rfl
    exact absurd (h 'l' hc) (by decide)
  simpa using bare_nil.append hno

theorem head?_of_isReturn (h : isReturn cs = true) : cs.head? = some 'r' := by
  have hstart : ∀ word : String, word.toList.head? = some 'r' →
      word.toList.isPrefixOf cs = true → cs.head? = some 'r' := by
    intro word hword hprefix
    obtain ⟨rest, rfl⟩ := List.isPrefixOf_iff_prefix.mp hprefix
    rw [List.head?_append, hword, Option.some_or]
  simp only [isReturn, Bool.or_eq_true, decide_eq_true_eq] at h
  rcases h with ((rfl | h) | h) | h
  · decide
  · exact hstart "return " (by decide) h
  · exact hstart "return\t" (by decide) h
  · exact hstart "return;" (by decide) h

theorem Bare.assignments {bs : List Binding} (hbs : ∀ b ∈ bs, '\n' ∉ b.assignment.toList)
    (h : Bare cs) : Bare (bs.flatMap (fun b => Rebinding.fullLine ("  " ++ b.assignment)) ++ cs) := by
  induction bs with
  | nil => exact h
  | cons b bs ih =>
    have hrest := ih fun x hx => hbs x (List.mem_cons_of_mem b hx)
    have hb := hbs b List.mem_cons_self
    rw [List.flatMap_cons, List.append_assoc]
    refine hrest.fullLine (c := ' ') ?_ (by decide) ?_
    · rw [String.toList_append, List.head?_append]
      rfl
    · rw [String.toList_append, List.mem_append, not_or]
      exact ⟨by decide, hb⟩

theorem Bare.block {t : Template} {bs : List Binding} (ht : '\n' ∉ t.event.toList)
    (hbs : ∀ b ∈ bs, '\n' ∉ b.assignment.toList) (h : Bare cs) : Bare (t.blockText bs ++ cs) := by
  have hend := h.fullLine (s := "----------------") (c := '-') (by decide) (by decide) (by decide)
  have hclose := hend.fullLine (s := "end)") (c := 'e') (by decide) (by decide) (by decide)
  have hhead : ("Events." ++ t.event ++ ".Add(function()").toList.head? = some 'E' := by
    rw [String.toList_append, String.toList_append, List.append_assoc, List.head?_append]
    rfl
  have hevent : '\n' ∉ ("Events." ++ t.event ++ ".Add(function()").toList := by
    simp only [String.toList_append, List.mem_append, not_or]
    exact ⟨⟨by decide, ht⟩, by decide⟩
  have hopen := (hclose.assignments hbs).fullLine hhead (by decide) hevent
  have hstart := hopen.fullLine (s := "-- PIPEWRENCH --") (c := '-') (by decide) (by decide)
    (by decide)
  rw [Template.blockText]
  simpa only [List.append_assoc] using hstart

end

namespace Plan

/-- The bindings of lines that follow `n` others. -/
def bindingsFrom (t : Template) (n : Nat) (ls : List (List Char)) : List Binding :=
  (ls.zipIdx n).filterMap fun (line, i) => Binding.ofLine? t (i + 1) line

section
variable {t : Template} {text : String}

theorem bindings_analyze (t : Template) (text : String) :
    (analyze t text).bindings = bindingsFrom t 0 (Text.lines text.toList) := rfl

theorem bindingsFrom_append (t : Template) (n : Nat) (ls ls' : List (List Char)) :
    bindingsFrom t n (ls ++ ls') = bindingsFrom t n ls ++ bindingsFrom t (n + ls.length) ls' := by
  rw [bindingsFrom, List.zipIdx_append, List.filterMap_append]
  rfl

theorem bindingsFrom_cons (t : Template) (n : Nat) (line : List Char) (ls : List (List Char)) :
    bindingsFrom t n (line :: ls) =
      (Binding.ofLine? t (n + 1) line).toList ++ bindingsFrom t (n + 1) ls := by
  rw [bindingsFrom, List.zipIdx_cons]
  cases h : Binding.ofLine? t (n + 1) line with
  | none => exact List.filterMap_cons_none h
  | some b => exact List.filterMap_cons_some h

theorem bindingsFrom_of_bare {cs : List Char} (h : Bare cs) (n : Nat) :
    bindingsFrom t n (Text.lines cs) = [] := by
  apply List.filterMap_eq_nil_iff.mpr
  rintro ⟨line, i⟩ hline
  obtain ⟨part, hpart, hprefix⟩ := Text.exists_part_of_mem_lines (List.fst_mem_of_mem_zipIdx hline)
  cases hof : Binding.ofLine? t (i + 1) line with
  | none => exact hof
  | some b =>
    obtain ⟨d, member, hd, _⟩ := Binding.ofLine?_eq_some_iff.mp hof
    obtain ⟨rest, rfl⟩ := Declaration.keyword_prefix hd
    exact absurd ((List.prefix_append _ rest).trans hprefix) (h part hpart)

/-- Behind a text without the breaks at its end, texts without declarations may take each other's
place. -/
theorem bindingsFrom_behind (t : Template) (before : List Char) {rest more : List Char}
    (hrest : Text.dropEndWhile isBreak before = [] ∨ '\n' ∈ before.rtakeWhile isBreak ∨ rest = [])
    (hbare : Bare rest) (hmore : Bare more) :
    bindingsFrom t 0 (Text.lines (Text.dropEndWhile isBreak before ++ '\n' :: more)) =
      bindingsFrom t 0 (Text.lines (before ++ rest)) := by
  have hbreaks := breaks_only before
  have hbody : ∀ c, (Text.dropEndWhile isBreak before).getLast? = some c → c ≠ '\n' ∧ c ≠ '\r' :=
    fun _ hc => getLast?_body hc
  have hl : ∀ c ∈ before.rtakeWhile isBreak, c ≠ 'l' := by
    intro c hc
    rcases hbreaks c hc with rfl | rfl <;> decide
  conv_rhs => rw [← Text.dropEndWhile_append isBreak before]
  by_cases hne : Text.dropEndWhile isBreak before = []
  · rw [hne, List.nil_append, List.nil_append, bindingsFrom_of_bare (hbare.append hl),
      bindingsFrom_of_bare (hmore.cons (by decide))]
  · obtain ⟨returns, later, hreturns, hlater, htext⟩ :=
      exists_lines_body_breaks hne hbody hbreaks (hrest.resolve_left hne)
    have hblank : Blank returns := by
      intro c hc
      rw [hreturns c hc]
      decide
    have hbehind : Bare (later ++ rest) := hbare.append fun c hc => hl c (hlater.subset hc)
    rw [lines_body_append hne hbody, htext, bindingsFrom_append, bindingsFrom_append,
      bindingsFrom_cons, bindingsFrom_cons, Binding.ofLine?_append_blank hblank,
      bindingsFrom_of_bare hmore, bindingsFrom_of_bare hbehind]

theorem assignmentOf_subset (line : List Char) : assignmentOf line ⊆ line := by
  intro c hc
  rw [assignmentOf] at hc
  have htrimmed := (List.rdropWhile_prefix _ _).subset hc
  have hrest := (List.dropWhile_suffix Text.isBlank).subset htrimmed
  exact List.mem_of_mem_drop hrest

theorem break_not_mem_assignment {b : Binding} (hb : b ∈ (analyze t text).bindings) :
    '\n' ∉ b.assignment.toList := by
  obtain ⟨i, line, hline, hof⟩ := mem_bindings_iff.mp hb
  obtain ⟨d, member, _, _, _, rfl⟩ := Binding.ofLine?_eq_some_iff.mp hof
  have hno := Text.not_mem_of_mem_lines (List.mem_of_getElem? hline)
  rw [String.toList_ofList]
  intro hm
  exact hno (assignmentOf_subset line hm)

end

/-- A rebound module has the bindings of the module before: the same members and assignments on the
same lines. -/
theorem bindings_rebind (t : Template) (text : String) (h : '\n' ∉ t.event.toList) :
    (analyze t (rebind t text)).bindings = (analyze t text).bindings := by
  by_cases hb : (analyze t text).bindings = []
  · rw [rebind, render_of_no_bindings hb]
  have hassignments : ∀ b ∈ (analyze t text).bindings, '\n' ∉ b.assignment.toList :=
    fun b => break_not_mem_assignment
  rw [bindings_analyze t (rebind t text), bindings_analyze t text, rebind]
  cases hend : (analyze t text).ending with
  | none =>
    have hmore := (bare_nil.block h hassignments).cons (c := '\n') (by decide)
    have hsame := bindingsFrom_behind t text.toList (Or.inr (Or.inr rfl)) bare_nil hmore
    rw [List.append_nil] at hsame
    rw [toList_render_of_none t text hb hend]
    simpa using hsame
  | some ending =>
    obtain ⟨before, line⟩ := ending
    obtain ⟨blanks, htext, hblanks, hret, hno, _, hbefore⟩ := cutReturn?_eq_some hend
    have hhead := head?_of_isReturn hret
    have hrest : Bare (line ++ blanks) :=
      (bare_blank hblanks).append_of_head? hhead (by decide) hno
    have hreturn : Bare (line ++ ['\n']) :=
      (bare_nil.cons (by decide)).append_of_head? hhead (by decide) hno
    have hmore := (hreturn.block h hassignments).cons (c := '\n') (by decide)
    have hlf := lineFeed_mem_breaks hbefore
    have hsame := bindingsFrom_behind t before (hlf.imp_right Or.inl) hrest hmore
    rw [← List.append_assoc before, ← htext] at hsame
    rw [toList_render_of_some t text hb hend]
    simpa using hsame

/-- A declaration in front of carriage returns, and a return. -/
theorem bindings_rebind_returns :
    '\n' ∉ ({} : Template).event.toList ∧
    (analyze {} "local a = ____PipeWrench.A;\r\r\n\nreturn a \n").bindings.length = 1 ∧
    (analyze {} (rebind {} "local a = ____PipeWrench.A;\r\r\n\nreturn a \n")).bindings =
      (analyze {} "local a = ____PipeWrench.A;\r\r\n\nreturn a \n").bindings :=
  ⟨by decide, by decide +kernel, bindings_rebind {} _ (by decide)⟩

end Plan

end ModBuild.Rebinding
