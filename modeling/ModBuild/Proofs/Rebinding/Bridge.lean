import ModBuild.Proofs.Rebinding.Declared
import ModBuild.Proofs.Text.Needle
import ModBuild.Settings.Schema

/-!
# Reading the bridge

A text reads the bridge where the name of the bridge stands as a name of its own with a dot behind it.
Scanning an initializer finds the first such place, also when the same characters end a longer name
before it (`exists_firstRead`, `not_readAt_of_none`). The bindings of a module are therefore those of
the lines that declare locals, none of them the bridge, and read the bridge.
-/

namespace ModBuild.Rebinding

set_option autoImplicit false

open Text (Blank)

/-- The bridge is read in `cs` between the texts `before` and `after`. -/
structure ReadAt (bridge cs before after : List Char) : Prop where
  split : cs = before ++ bridge ++ '.' :: after
  bounded : ∀ c ∈ before.getLast?, Text.isNameChar c = false

structure FirstRead (bridge cs before after : List Char) : Prop
    extends ReadAt bridge cs before after where
  first : ∀ before' after', ReadAt bridge cs before' after' → before.length ≤ before'.length

/-- The longest run of name characters and dots at the start of `after`, less the dots at its end. -/
def IsMember (after member : List Char) : Prop :=
  ∃ run rest, after = run ++ rest ∧ (∀ c ∈ run, Text.isNameChar c = true ∨ c = '.') ∧
    (∀ c ∈ rest.head?, Text.isNameChar c = false ∧ c ≠ '.') ∧ Text.CutEnd (· = '.') run member

theorem isMember_dropEndWhile (after : List Char) : IsMember after
    (Text.dropEndWhile (· = '.') (after.takeWhile fun c => Text.isNameChar c || c = '.')) := by
  refine ⟨after.takeWhile fun c => Text.isNameChar c || c = '.',
    after.dropWhile fun c => Text.isNameChar c || c = '.', ?_, ?_, ?_, Text.cutEnd_dropEndWhile _ _⟩
  · exact List.takeWhile_append_dropWhile.symm
  · intro c hc
    simpa using List.mem_takeWhile_imp hc
  · intro c hc
    have hnot := List.head?_dropWhile_not (fun c => Text.isNameChar c || c = '.') after
    rw [Option.mem_def.mp hc] at hnot
    simpa using hnot

section
variable {bridge cs before after a b z : List Char}

theorem getLast?_append_dot (a z : List Char) :
    ∀ c ∈ (a ++ bridge ++ '.' :: z).getLast?, c ∈ z.getLast? ∨ c = '.' := by
  intro c hc
  rw [List.getLast?_append_of_ne_nil _ (List.cons_ne_nil _ _), List.getLast?_cons] at hc
  cases hz : z.getLast? with
  | none =>
    rw [hz] at hc
    cases hc
    exact Or.inr rfl
  | some x =>
    rw [hz] at hc
    cases hc
    exact Or.inl rfl

theorem ReadAt.behind (h : ReadAt bridge b z after) (hcs : cs = a ++ bridge ++ '.' :: b) :
    ReadAt bridge cs (a ++ bridge ++ '.' :: z) after := by
  constructor
  · rw [hcs, h.split]
    simp
  · intro c hc
    rcases getLast?_append_dot a z c hc with hz | rfl
    · exact h.bounded c hz
    · decide

/-- A place is that of the first occurrence, or it lies behind it. -/
theorem ReadAt.cases_of_cut? (h : ReadAt bridge cs before after) (hdot : '.' ∉ bridge)
    (hcut : Text.cut? (bridge ++ ['.']) cs = some (a, b)) :
    (before = a ∧ after = b) ∨
      ∃ z, before = a ++ bridge ++ '.' :: z ∧ ReadAt bridge b z after := by
  rcases Text.eq_or_behind_of_cut? hdot hcut h.split with hfirst | ⟨z, rfl, hb⟩
  · exact Or.inl hfirst
  · refine Or.inr ⟨z, rfl, hb, fun c hc => h.bounded c ?_⟩
    obtain ⟨x, z, rfl⟩ : ∃ x z', z = x :: z' := by
      cases z with
      | nil => cases hc
      | cons x z => exact ⟨x, z, rfl⟩
    rw [List.getLast?_append_of_ne_nil _ (List.cons_ne_nil _ _), List.getLast?_cons_cons]
    exact hc

section
variable {last : Option Char} (hlast : ∀ c ∈ last, Text.isNameChar c = false)
include hlast

theorem bounded_iff (a : List Char) : (a.getLast?.or last).any Text.isNameChar = false ↔
    ∀ c ∈ a.getLast?, Text.isNameChar c = false := by
  cases a.getLast? with
  | some c => simp
  | none =>
    cases last with
    | none => simp
    | some c => simpa using hlast c rfl

theorem not_readAt_of_none (hdot : '.' ∉ bridge) (h : memberAfter? bridge last cs = none)
    (before after : List Char) : ¬ ReadAt bridge cs before after := by
  intro hread
  fun_induction memberAfter? bridge last cs generalizing before after with
  | case1 last cs hcut =>
    have hno := (Text.cut?_eq_none_iff (by simp)).mp hcut
    exact hno ⟨before, after, by rw [hread.split]; simp⟩
  | case2 last cs a b hcut hname ih =>
    rcases hread.cases_of_cut? hdot hcut with ⟨rfl, rfl⟩ | ⟨z, rfl, hz⟩
    · rw [(bounded_iff hlast before).mpr hread.bounded] at hname
      cases hname
    · exact ih (by simp; decide) h z after hz
  | case3 last cs a b hcut hname => cases h

theorem exists_firstRead {member : List Char} (hdot : '.' ∉ bridge)
    (h : memberAfter? bridge last cs = some member) :
    ∃ before after, FirstRead bridge cs before after ∧ IsMember after member := by
  fun_induction memberAfter? bridge last cs with
  | case1 last cs hcut => cases h
  | case2 last cs a b hcut hname ih =>
    have hcs : cs = a ++ bridge ++ '.' :: b := by simpa using Text.eq_of_cut? hcut
    obtain ⟨z, after, hz, hmember⟩ := ih (by simp; decide) h
    refine ⟨a ++ bridge ++ '.' :: z, after, ⟨hz.toReadAt.behind hcs, ?_⟩, hmember⟩
    intro before' after' hread
    rcases hread.cases_of_cut? hdot hcut with ⟨rfl, rfl⟩ | ⟨z', rfl, hz'⟩
    · rw [(bounded_iff hlast before').mpr hread.bounded] at hname
      cases hname
    · have hle := hz.first z' after' hz'
      simpa using hle
  | case3 last cs a b hcut hname =>
    have hcs : cs = a ++ bridge ++ '.' :: b := by simpa using Text.eq_of_cut? hcut
    have hbounded := (bounded_iff hlast a).mp (by simpa using hname)
    cases h
    refine ⟨a, b, ⟨⟨hcs, hbounded⟩, ?_⟩, isMember_dropEndWhile b⟩
    intro before' after' hread
    rcases hread.cases_of_cut? hdot hcut with ⟨rfl, _⟩ | ⟨z', rfl, _⟩
    · exact Nat.le_refl _
    · simp only [List.length_append]
      omega

end

theorem readAt_blank_append_iff (hname : IsName bridge) (ha : Blank a) :
    ReadAt bridge (a ++ cs) before after ↔ ∃ z, before = a ++ z ∧ ReadAt bridge cs z after := by
  constructor
  · intro h
    have hsplit : a ++ cs = before ++ (bridge ++ '.' :: after) := by
      rw [h.split, List.append_assoc]
    rcases List.append_eq_append_iff.mp hsplit with ⟨z, rfl, hcs⟩ | ⟨z, rfl, hbridge⟩
    · refine ⟨z, rfl, by rw [hcs, List.append_assoc], fun c hc => h.bounded c ?_⟩
      rw [List.getLast?_append, Option.mem_def.mp hc]
      rfl
    · cases z with
      | nil =>
        exact ⟨[], by simp, by simpa using hbridge.symm, by simp⟩
      | cons x z =>
        obtain ⟨c, name, hc, hstart, _⟩ := hname
        rw [hc] at hbridge
        have hx : c = x := (List.cons.inj hbridge).1
        have hblank := ha x (by simp)
        rw [← hx, not_isBlank_of_isNameChar (isNameChar_of_isNameStart hstart)] at hblank
        cases hblank
  · rintro ⟨z, rfl, h⟩
    refine ⟨by rw [h.split]; simp, fun c hc => ?_⟩
    rw [List.getLast?_append] at hc
    cases hz : z.getLast? with
    | some x =>
      rw [hz] at hc
      exact h.bounded c (hz ▸ hc)
    | none =>
      rw [hz] at hc
      exact not_isNameChar_of_isBlank (ha c (List.mem_of_getLast? hc))

theorem FirstRead.blank_append (hname : IsName bridge) (ha : Blank a)
    (h : FirstRead bridge cs before after) : FirstRead bridge (a ++ cs) (a ++ before) after := by
  refine ⟨(readAt_blank_append_iff hname ha).mpr ⟨before, rfl, h.toReadAt⟩, ?_⟩
  intro before' after' hread
  obtain ⟨z, rfl, hz⟩ := (readAt_blank_append_iff hname ha).mp hread
  have hle := h.first z after' hz
  simpa using hle

end

/-- A binding repeats the parts of the line that it comes from. -/
structure Binding.Spells (b : Binding) (bridge : List Char) {line : List Char} (d : Declared line) :
    Prop where
  identifier : b.identifier.toList = d.written
  assignment : Text.CutEnd (fun c => Text.isBlank c || c = ';') d.rest b.assignment.toList
  member : ∃ before after, FirstRead bridge d.initializer before after ∧
    IsMember after b.member.toList

section
variable {t : Template} {n : Nat} {line : List Char} {b : Binding}

theorem Declared.takeWhile_append_trimStart (d : Declared line) :
    d.initializer.takeWhile Text.isBlank ++ Text.trimStart d.initializer = d.initializer :=
  List.takeWhile_append_dropWhile

theorem isName_toList {name : String} (h : Settings.isName name = true) : IsName name.toList := by
  unfold Settings.isName at h
  cases hn : name.toList with
  | nil =>
    rw [hn] at h
    cases h
  | cons c cs =>
    rw [hn, Bool.and_eq_true, List.all_eq_true] at h
    exact ⟨c, cs, rfl, h.1, h.2⟩

theorem Declared.assignmentOf_eq (d : Declared line) :
    assignmentOf line = Text.dropEndWhile (fun c => Text.isBlank c || c = ';') d.rest := by
  rw [assignmentOf, d.trimStart_drop]

theorem exists_binding (hname : IsName t.bridge.toList) (d : Declared line)
    (hnames : t.bridge.toList ∉ d.names) {before after : List Char}
    (h : ReadAt t.bridge.toList d.initializer before after) (n : Nat) :
    ∃ b, Binding.ofLine? t n line = some b := by
  rw [← d.takeWhile_append_trimStart] at h
  obtain ⟨z, rfl, hz⟩ := (readAt_blank_append_iff hname (Text.blank_takeWhile _)).mp h
  have hne : Text.trimStart d.initializer ≠ [] := by
    intro hnil
    have hsplit := hz.split
    rw [hnil] at hsplit
    simp at hsplit
  have hscan : Declaration.ofLine? line = some ⟨d.written, Text.trimStart d.initializer⟩ := by
    rw [d.ofLine?_eq, if_neg (by simpa using hne)]
  have hdot : '.' ∉ t.bridge.toList := hname.not_mem (by decide)
  cases hmember : memberAfter? t.bridge.toList none (Text.trimStart d.initializer) with
  | none => exact absurd hz (not_readAt_of_none (by simp) hdot hmember z after)
  | some member =>
    refine ⟨_, Binding.ofLine?_eq_some_iff.mpr ⟨_, member, hscan, ?_, hmember, rfl⟩⟩
    rw [d.nameList_eq]
    exact hnames

/-- A binding comes from a declaration that reads the bridge, and it spells this declaration. -/
theorem spells_of_ofLine? (hname : IsName t.bridge.toList) (h : Binding.ofLine? t n line = some b) :
    b.line = n ∧ ∃ d : Declared line, t.bridge.toList ∉ d.names ∧ b.Spells t.bridge.toList d := by
  obtain ⟨s, member, hscan, hnames, hmember, rfl⟩ := Binding.ofLine?_eq_some_iff.mp h
  obtain ⟨d, rfl, _⟩ := exists_declared hscan
  rw [d.nameList_eq] at hnames
  obtain ⟨before, after, hfirst, hafter⟩ :=
    exists_firstRead (by simp) (hname.not_mem (by decide)) hmember
  refine ⟨rfl, d, hnames, ?_, ?_, ?_⟩
  · exact String.toList_ofList
  · rw [String.toList_ofList, d.assignmentOf_eq]
    exact Text.cutEnd_dropEndWhile _ _
  · have hread := hfirst.blank_append hname (Text.blank_takeWhile d.initializer)
    rw [d.takeWhile_append_trimStart] at hread
    refine ⟨_, after, hread, ?_⟩
    rw [String.toList_ofList]
    exact hafter

end

namespace Plan

/-- The bindings of a module, in the order of their lines: a line has one exactly when it declares
locals other than the bridge and reads the bridge, and the binding spells the line. -/
theorem bindings_iff_grammar (t : Template) (text : String) (h : Settings.isName t.bridge = true) :
    (analyze t text).bindings.Pairwise (fun a b => a.line < b.line) ∧
    (∀ i line, (Text.lines text.toList)[i]? = some line →
      ((∃ b ∈ (analyze t text).bindings, b.line = i + 1) ↔
        ∃ d : Declared line, t.bridge.toList ∉ d.names ∧
          ∃ before after, ReadAt t.bridge.toList d.initializer before after)) ∧
    ∀ b ∈ (analyze t text).bindings, ∃ i line, b.line = i + 1 ∧
      (Text.lines text.toList)[i]? = some line ∧
      ∀ d : Declared line, b.Spells t.bridge.toList d := by
  have hname := isName_toList h
  refine ⟨bindings_pairwise t text, ?_, ?_⟩
  · intro i line hline
    constructor
    · rintro ⟨b, hb, hnumber⟩
      obtain ⟨j, line', hline', hof⟩ := mem_bindings_iff.mp hb
      obtain ⟨hj, d, hnames, hd⟩ := spells_of_ofLine? hname hof
      obtain rfl : i = j := by omega
      obtain rfl : line = line' := Option.some.inj (hline.symm.trans hline')
      obtain ⟨before, after, hfirst, _⟩ := hd.member
      exact ⟨d, hnames, before, after, hfirst.toReadAt⟩
    · rintro ⟨d, hnames, before, after, hread⟩
      obtain ⟨b, hof⟩ := exists_binding hname d hnames hread (i + 1)
      exact ⟨b, mem_bindings_iff.mpr ⟨i, line, hline, hof⟩, (spells_of_ofLine? hname hof).1⟩
  · intro b hb
    obtain ⟨i, line, hline, hof⟩ := mem_bindings_iff.mp hb
    obtain ⟨hnumber, d, _, hd⟩ := spells_of_ofLine? hname hof
    refine ⟨i, line, hnumber, hline, ?_⟩
    intro d'
    rw [d'.unique d]
    exact hd

/-- Two names, and a bridge that is read inside of a call. -/
theorem bindings_iff_grammar_pair :
    Settings.isName ({} : Template).bridge = true ∧
    ∃ b ∈ (analyze {} "local x, y = unpack(____PipeWrench.pair);\nreturn x").bindings,
      b.line = 1 := by
  have hline : (Text.lines "local x, y = unpack(____PipeWrench.pair);\nreturn x".toList)[0]? =
      some "local x, y = unpack(____PipeWrench.pair);".toList := by decide +kernel
  have hx : IsName ['x'] := ⟨'x', [], rfl, by decide, by simp⟩
  have hy : IsName ['y'] := ⟨'y', [], rfl, by decide, by simp⟩
  have hspace : Blank [' '] := by simp [Blank, Text.isBlank]
  have hnames : NameList [['x'], ['y']] ['x', ',', ' ', 'y'] :=
    NameList.comma hx Text.blank_nil hspace (.single hy)
  have hforeign : ({} : Template).bridge.toList ∉ [['x'], ['y']] := by decide
  have hread : ReadAt "____PipeWrench".toList " unpack(____PipeWrench.pair);".toList
      " unpack(".toList "pair);".toList := ⟨by decide, by simp; decide⟩
  refine ⟨by decide, ?_⟩
  exact ((bindings_iff_grammar {} _ (by decide)).2.1 0 _ hline).mpr
    ⟨{ gap := [' ']
       names := [['x'], ['y']]
       written := ['x', ',', ' ', 'y']
       blanks := [' ']
       initializer := " unpack(____PipeWrench.pair);".toList
       line_eq := by decide
       gap_ne := by decide
       gap_blank := hspace
       names_written := hnames
       blanks_blank := hspace
       initializer_ne := by decide }, hforeign, _, _, hread⟩

end Plan

end ModBuild.Rebinding
