import ModBuild.Proofs.Rebinding.Rendering
import ModBuild.Proofs.Text.Bracket
import ModBuild.Settings.Schema

/-!
# Brackets of a rebound module

The boot block opens one bracket around the assignments and closes it behind them. A rebound module
is therefore nested exactly when its assignments, read where the block stands, leave open what they
found open. An assignment is one line of the module, so a declaration that goes on in the next line
is repeated in part and can break this.
-/

namespace ModBuild.Rebinding

set_option autoImplicit false

open Text (isBracket readBrackets Nested Plain)

theorem isBracket_cases {c : Char} (h : isBracket c = true) :
    c = '(' ∨ c = ')' ∨ c = '[' ∨ c = ']' ∨ c = '{' ∨ c = '}' := by
  by_contra hc
  simp only [not_or] at hc
  simp [isBracket, Text.closer?, Text.isCloser, hc] at h

theorem isBracket_of_isBlank {c : Char} (h : Text.isBlank c = true) : isBracket c = false := by
  rw [Bool.eq_false_iff]
  intro hb
  rcases isBracket_cases hb with rfl | rfl | rfl | rfl | rfl | rfl <;> exact absurd h (by decide)

theorem isBracket_of_isNameChar {c : Char} (h : Text.isNameChar c = true) : isBracket c = false := by
  rw [Bool.eq_false_iff]
  intro hb
  rcases isBracket_cases hb with rfl | rfl | rfl | rfl | rfl | rfl <;> exact absurd h (by decide)

theorem isBracket_of_isName {name : String} (h : Settings.isName name = true) :
    Plain name.toList := by
  unfold Settings.isName at h
  cases hn : name.toList with
  | nil => decide
  | cons x xs =>
    rw [hn] at h
    simp only [Bool.and_eq_true, List.all_eq_true] at h
    intro c hc
    apply isBracket_of_isNameChar
    rcases List.mem_cons.mp hc with rfl | hc
    · have hstart := h.1
      simp only [Text.isNameStart, Bool.or_eq_true] at hstart
      simp only [Text.isNameChar, Char.isAlphanum, Bool.or_eq_true]
      exact hstart.imp_left Or.inl
    · exact h.2 c hc

section
variable {a b : List Char} (s : List Char)

theorem readBrackets_plain_append (h : Plain a) :
    readBrackets s (a ++ b) = readBrackets s b := by
  rw [Text.readBrackets_append, Text.readBrackets_plain h, Option.bind_some]

theorem readBrackets_append_plain (h : Plain b) :
    readBrackets s (a ++ b) = readBrackets s a := by
  rw [Text.readBrackets_append]
  cases readBrackets s a with
  | none => rfl
  | some r => exact Text.readBrackets_plain h r

end

theorem readBrackets_assignmentOf {line : List Char} {d : Declaration}
    (h : Declaration.ofLine? line = some d) (s : List Char) :
    readBrackets s (assignmentOf line) = readBrackets s line := by
  obtain ⟨rest, rfl⟩ := Declaration.keyword_prefix h
  have hend := Text.dropEndWhile_append (fun c => Text.isBlank c || c = ';') (Text.trimStart rest)
  have hstart : rest.takeWhile Text.isBlank ++ Text.trimStart rest = rest :=
    List.takeWhile_append_dropWhile
  have hdropped : Plain ((Text.trimStart rest).rtakeWhile fun c => Text.isBlank c || c = ';') := by
    intro c hc
    have hp := List.mem_rtakeWhile_imp hc
    rcases Bool.or_eq_true_iff.mp hp with hblank | hsemi
    · exact isBracket_of_isBlank hblank
    · rw [decide_eq_true_iff] at hsemi
      subst c
      rfl
  unfold assignmentOf
  rw [List.drop_left]
  calc readBrackets s _ = readBrackets s (Text.trimStart rest) := by
        conv_rhs => rw [← hend]
        exact (readBrackets_append_plain s hdropped).symm
    _ = readBrackets s rest := by
        conv_rhs => rw [← hstart]
        exact (readBrackets_plain_append s fun c hc =>
          isBracket_of_isBlank (List.mem_takeWhile_imp hc)).symm
    _ = readBrackets s (Declaration.keyword ++ rest) :=
        (readBrackets_plain_append s (by decide)).symm

/-- The text of all assignments of a block. -/
def assignments (bs : List Binding) : List Char := bs.flatMap fun b => b.assignment.toList

theorem readBrackets_bindingLines (bs : List Binding) (s : List Char) :
    readBrackets s (bs.flatMap fun b => fullLine ("  " ++ b.assignment)) =
      readBrackets s (assignments bs) := by
  induction bs generalizing s with
  | nil => rfl
  | cons b bs ih =>
    have hline : readBrackets s (fullLine ("  " ++ b.assignment)) = readBrackets s b.assignment.toList := by
      unfold fullLine
      rw [readBrackets_append_plain s (by decide), String.toList_append,
        readBrackets_plain_append s (by decide)]
    simp only [assignments, List.flatMap_cons, Text.readBrackets_append, hline] at ih ⊢
    exact congrArg _ (funext ih)

/-- The block opens one bracket around the assignments and closes it behind them. -/
theorem readBrackets_blockText {t : Template} (ht : Settings.isName t.event = true) (bs : List Binding)
    (s : List Char) : readBrackets s (t.blockText bs) =
      (readBrackets (')' :: s) (assignments bs)).bind (Text.readBracket · ')') := by
  have hevent := isBracket_of_isName ht
  have hopen : readBrackets s (fullLine ("Events." ++ t.event ++ ".Add(function()")) =
      some (')' :: s) := by
    unfold fullLine
    rw [readBrackets_append_plain s (by decide), String.toList_append, String.toList_append,
      List.append_assoc, readBrackets_plain_append s (by decide), readBrackets_plain_append s hevent]
    rfl
  have hclose : ∀ p, readBrackets p (fullLine "end)") = Text.readBracket p ')' := by
    intro p
    unfold fullLine
    rw [readBrackets_append_plain p (by decide), show "end)".toList = "end".toList ++ [')'] by decide,
      readBrackets_plain_append p (by decide)]
    simp [readBrackets]
  unfold Template.blockText
  rw [readBrackets_append_plain s (by decide), List.append_assoc, List.append_assoc,
    readBrackets_plain_append s (by decide), Text.readBrackets_append, hopen, Option.bind_some,
    Text.readBrackets_append, readBrackets_bindingLines]
  exact congrArg _ (funext hclose)

theorem readBrackets_blockText_eq_iff {t : Template} (ht : Settings.isName t.event = true)
    (bs : List Binding) (s : List Char) : readBrackets s (t.blockText bs) = some s ↔
      readBrackets (')' :: s) (assignments bs) = some (')' :: s) := by
  have hclose : Text.readBracket (')' :: s) ')' = some s := rfl
  rw [readBrackets_blockText ht, Option.bind_eq_some_iff]
  constructor
  · rintro ⟨p, hp, hr⟩
    rw [hp, Text.readBracket_injective hr hclose]
  · exact fun h => ⟨_, h, hclose⟩

namespace Plan

/-- The part of a module that the block is put behind. -/
def upper (p : Plan) (text : List Char) : List Char :=
  match p.ending with
  | some (before, _) => before
  | none => text

/-- The assignments, read where the block stands, leave open what they found open. -/
def Fits (p : Plan) (text : List Char) : Prop :=
  ∃ s, readBrackets [] (p.upper text) = some s ∧
    readBrackets (')' :: s) (assignments p.bindings) = some (')' :: s)

theorem nested_output_iff {t : Template} {plan : Plan}
    {text output body breaks ret blanks tail : List Char} (ht : Settings.isName t.event = true)
    (h : Rebound t plan text output body breaks ret blanks tail) (htext : Nested text) :
    Nested output ↔ plan.Fits text := by
  have hbreaks : Plain breaks := by
    intro c hc
    rcases h.breaks_only c hc with rfl | rfl <;> rfl
  have hblanks : Plain blanks := fun c hc => isBracket_of_isBlank (h.blanks_only c hc)
  have hupper : plan.upper text = body ++ breaks := by
    rcases h.ending with ⟨hend, _⟩ | ⟨hend, rfl, rfl, _⟩
    · simp [upper, hend]
    · simpa [upper, hend] using h.text_eq
  have hkept : Nested (body ++ ret) := by
    have hn := htext
    rw [h.text_eq, Nested, readBrackets_append_plain [] hblanks, Text.readBrackets_append,
      readBrackets_append_plain [] hbreaks, ← Text.readBrackets_append] at hn
    exact hn
  have hout : Nested output ↔ Nested (body ++ t.blockText plan.bindings ++ ret) := by
    have htail : ∀ s, readBrackets s tail = readBrackets s ret := by
      intro s
      rcases h.ending with ⟨_, _, rfl, _⟩ | ⟨_, rfl, _, rfl⟩
      · exact readBrackets_append_plain s (by decide)
      · rfl
    unfold Nested
    rw [h.output_eq, Text.readBrackets_append, Text.readBrackets_append,
      readBrackets_append_plain [] (by decide), funext htail, ← Text.readBrackets_append,
      ← Text.readBrackets_append]
  rw [hout, Text.nested_insert_iff hkept, Fits, hupper, readBrackets_append_plain [] hbreaks]
  simp only [readBrackets_blockText_eq_iff ht]

theorem fits_of_nested {p : Plan} {text : List Char} {s : List Char}
    (htext : readBrackets [] (p.upper text) = some s)
    (h : ∀ b ∈ p.bindings, Nested b.assignment.toList) : p.Fits text := by
  have hall : ∀ bs : List Binding, (∀ b ∈ bs, Nested b.assignment.toList) → Nested (assignments bs) := by
    intro bs hbs
    induction bs with
    | nil => rfl
    | cons b bs ih =>
      rw [assignments, List.flatMap_cons, Nested, Text.readBrackets_append,
        hbs b List.mem_cons_self, Option.bind_some]
      exact ih fun x hx => hbs x (List.mem_cons_of_mem b hx)
  exact ⟨s, htext, (hall _ h).readBrackets _⟩

theorem exists_readBrackets_upper (t : Template) {text : String} (h : Nested text.toList) :
    ∃ s, readBrackets [] ((analyze t text).upper text.toList) = some s := by
  cases hend : (analyze t text).ending with
  | none =>
    refine ⟨[], ?_⟩
    rw [upper, hend]
    exact h
  | some ending =>
    obtain ⟨before, line⟩ := ending
    obtain ⟨blanks, htext, _⟩ := cutReturn?_eq_some hend
    rw [htext, List.append_assoc, Nested, Text.readBrackets_append] at h
    obtain ⟨s, hs, _⟩ := Option.bind_eq_some_iff.mp h
    exact ⟨s, by simpa [upper, hend] using hs⟩

theorem nested_assignment_iff {t : Template} {text : String} {b : Binding}
    (hb : b ∈ (analyze t text).bindings) : Nested b.assignment.toList ↔
      ∀ line ∈ (Text.lines text.toList)[b.line - 1]?, Nested line := by
  obtain ⟨i, line, hline, hof⟩ := mem_bindings_iff.mp hb
  obtain ⟨d, member, hd, _, _, rfl⟩ := Binding.ofLine?_eq_some_iff.mp hof
  simp only [Nat.add_sub_cancel, hline, Option.mem_some_iff, forall_eq']
  unfold Nested
  rw [String.toList_ofList, readBrackets_assignmentOf hd]

end Plan

/-- For a nested module: the rebound module is nested exactly when the assignments fit, and all of
them are nested as well exactly when every line with a binding is nested. -/
theorem rebind_nested_iff (t : Template) (text : String) (ht : Settings.isName t.event = true)
    (htext : Nested text.toList) :
    (Nested (rebind t text).toList ↔ (Plan.analyze t text).Fits text.toList) ∧
    ((Nested (rebind t text).toList ∧
        ∀ b ∈ (Plan.analyze t text).bindings, Nested b.assignment.toList) ↔
      ∀ b ∈ (Plan.analyze t text).bindings,
        ∀ line ∈ (Text.lines text.toList)[b.line - 1]?, Nested line) := by
  obtain ⟨s, hs⟩ := Plan.exists_readBrackets_upper t htext
  have hfits : Nested (rebind t text).toList ↔ (Plan.analyze t text).Fits text.toList := by
    unfold rebind
    by_cases hb : (Plan.analyze t text).bindings = []
    · rw [Plan.render_of_no_bindings hb]
      exact iff_of_true htext (Plan.fits_of_nested hs (by simp [hb]))
    · obtain ⟨_, _, _, _, _, h⟩ := Plan.exists_rebound hb
      exact Plan.nested_output_iff ht h htext
  refine ⟨hfits, ?_⟩
  rw [hfits]
  constructor
  · rintro ⟨_, hall⟩ b hb
    exact (Plan.nested_assignment_iff hb).mp (hall b hb)
  · intro hlines
    have hall : ∀ b ∈ (Plan.analyze t text).bindings, Nested b.assignment.toList :=
      fun b hb => (Plan.nested_assignment_iff hb).mpr (hlines b hb)
    exact ⟨Plan.fits_of_nested hs hall, hall⟩

theorem rebind_nested_iff_one_line :
    Settings.isName ({} : Template).event = true ∧
    Nested "local v = ____PipeWrench.f(a[1]);\nreturn v\n".toList ∧
    Nested (rebind {} "local v = ____PipeWrench.f(a[1]);\nreturn v\n").toList :=
  ⟨by decide, by decide, ((rebind_nested_iff {} "local v = ____PipeWrench.f(a[1]);\nreturn v\n"
    (by decide) (by decide)).2.mpr (by decide +kernel)).1⟩

/-- A nested module whose call goes on in the next line: only its first line is repeated, and the
bracket that it opens stays open. -/
theorem rebind_declaration_over_lines :
    Settings.isName ({} : Template).bridge = true ∧ Settings.isName ({} : Template).event = true ∧
    Nested "local v = ____PipeWrench.f(\n1)\nreturn v\n".toList ∧
    ¬ Nested (rebind {} "local v = ____PipeWrench.f(\n1)\nreturn v\n").toList :=
  ⟨by decide, by decide, by decide, by decide +kernel⟩

end ModBuild.Rebinding
