import Mathlib.Data.List.Forall2
import ModBuild.Proofs.Declarations.Closure
import ModBuild.Proofs.Text.Breaks

/-!
# Lines of the exported file

The exported file has the lines of its sources in their order, whatever their line breaks are. Only
empty lines of the compiler and the modules without exports are left out, and a line loses one scope
folder after each opening (`aggregate?_lines`).
-/

namespace ModBuild.Declarations

set_option autoImplicit false

/-- At most one scope folder after the opening is dropped. -/
inductive Drops (opening : String) : List Char → List Char → Prop
  | none (line : List Char) : Drops opening line line
  | folder {s : Scope} (before after : List Char) : s ∈ Scope.owners →
      Drops opening (before ++ (opening ++ s.label ++ "/").toList ++ after)
        (before ++ opening.toList ++ after)

/-- The line without its scope folders: one of a declared module, then one of a source. -/
def Unscoped (line line' : List Char) : Prop :=
  ∃ between, Drops "declare module \"" line between ∧ Drops "from \"" between line'

/-- The line declares a module and has empty braces. -/
def Hollow (line : List Char) : Prop :=
  "declare module ".toList <:+: line ∧ "\x7b \x7d".toList <:+: line

instance (line : List Char) : Decidable (Hollow line) := inferInstanceAs (Decidable (_ ∧ _))

section
variable {line line' : List Char}

theorem drops_dropScopeAfter (opening : String) (line : List Char) :
    Drops opening line (dropScopeAfter opening line) := by
  unfold dropScopeAfter
  dsimp only
  split
  · next found hfound =>
    obtain ⟨s, hs, rfl⟩ := List.mem_map.mp (List.mem_of_find?_eq_some hfound)
    have hcontains := List.find?_some hfound
    obtain ⟨⟨before, after⟩, hcut⟩ := Option.isSome_iff_exists.mp hcontains
    rw [Text.replaceFirst, hcut, Text.eq_of_cut? hcut]
    exact .folder before after hs
  · exact .none line

theorem unscoped_dropScopes (line : List Char) : Unscoped line (dropScopes line) :=
  ⟨_, drops_dropScopeAfter _ _, drops_dropScopeAfter _ _⟩

theorem Drops.subset {opening : String} (h : Drops opening line line') : line' ⊆ line := by
  cases h with
  | none => exact List.Subset.refl _
  | folder before after _ =>
    intro c hc
    simp only [String.toList_append, List.mem_append] at hc ⊢
    tauto

theorem Unscoped.subset (h : Unscoped line line') : line' ⊆ line := by
  obtain ⟨between, hdeclaration, hsource⟩ := h
  intro c hc
  exact hdeclaration.subset (hsource.subset hc)

theorem isEmptyModule_iff : isEmptyModule line = true ↔ Hollow line := by
  have hcontains {needle : List Char} (hne : needle ≠ []) :
      Text.contains needle line = true ↔ needle <:+: line := by
    rw [Text.contains, ← not_iff_not, Bool.not_eq_true, Option.isSome_eq_false_iff,
      Option.isNone_iff_eq_none, Text.cut?_eq_none_iff hne]
  rw [isEmptyModule, Bool.and_eq_true, hcontains (by decide), hcontains (by decide), Hollow]

end

section
variable {generated generated' out : String} {handwritten handwritten' : List (String × String)}

theorem keptLines_eq (generated : String) :
    keptLines generated =
      (Text.lines generated.toList).filter fun line => line ≠ [] ∧ ¬ Hollow line := by
  refine List.filter_congr fun line _ => ?_
  rw [Bool.eq_iff_iff]
  simp [← isEmptyModule_iff]

/-- The file depends on the lines of its sources alone. -/
theorem aggregate?_congr (hgenerated : Text.lines generated'.toList = Text.lines generated.toList)
    (hhandwritten : List.Forall₂ (fun file file' : String × String =>
      file'.1 = file.1 ∧ Text.lines file'.2.toList = Text.lines file.2.toList)
      handwritten handwritten') :
    aggregate? generated' handwritten' = aggregate? generated handwritten := by
  have hkept : keptLines generated' = keptLines generated := by
    rw [keptLines, hgenerated, keptLines]
  have hempty : handwritten'.isEmpty = handwritten.isEmpty := by
    cases hhandwritten <;> rfl
  have hfiles : (handwritten'.flatMap fun file =>
        (banner file.1).toList :: Text.lines file.2.toList) =
      handwritten.flatMap fun file => (banner file.1).toList :: Text.lines file.2.toList := by
    clear hempty
    induction hhandwritten with
    | nil => rfl
    | cons hfile _ ih => rw [List.flatMap_cons, List.flatMap_cons, ih, hfile.1, hfile.2]
  simp only [aggregate?, fileLines, hkept, hempty, hfiles]

theorem aggregate?_eq_none_iff :
    aggregate? generated handwritten = none ↔
      handwritten = [] ∧ ∀ line ∈ Text.lines generated.toList, line = [] ∨ Hollow line := by
  have hkept : keptLines generated = [] ↔
      ∀ line ∈ Text.lines generated.toList, line = [] ∨ Hollow line := by
    rw [keptLines_eq, List.filter_eq_nil_iff]
    simp only [ne_eq, decide_eq_true_eq, not_and_or, not_not]
  unfold aggregate?
  dsimp only
  split
  · next h =>
    rw [Bool.and_eq_true, List.isEmpty_iff, List.isEmpty_iff, hkept] at h
    exact iff_of_true rfl h.symm
  · next h =>
    rw [Bool.and_eq_true, List.isEmpty_iff, List.isEmpty_iff, hkept] at h
    exact iff_of_false (by simp) fun hnone => h hnone.symm

theorem not_mem_of_mem_fileLines (hgenerated : '\r' ∉ generated.toList)
    (hhandwritten : ∀ file ∈ handwritten,
      '\r' ∉ file.1.toList ∧ '\n' ∉ file.1.toList ∧ '\r' ∉ file.2.toList) :
    ∀ line ∈ fileLines (keptLines generated) handwritten, '\r' ∉ line ∧ '\n' ∉ line := by
  intro line hline
  have hread {text : List Char} (htext : '\r' ∉ text) (h : line ∈ Text.lines text) :
      '\r' ∉ line ∧ '\n' ∉ line :=
    ⟨fun hc => htext (Text.subset_of_mem_lines h hc), Text.not_mem_of_mem_lines h⟩
  simp only [fileLines, keptLines, List.cons_append, List.mem_cons, List.mem_append,
    List.mem_filter, List.mem_flatMap] at hline
  rcases hline with rfl | rfl | ⟨hline, -⟩ | rfl | ⟨file, hfile, rfl | hline⟩
  · decide
  · decide
  · exact hread hgenerated hline
  · decide
  · obtain ⟨hreturn, hfeed, -⟩ := hhandwritten file hfile
    simp [banner, hreturn, hfeed]
  · exact hread (hhandwritten file hfile).2.2 hline

/-- Carriage returns before the breaks of the sources change nothing. Nothing is exported when no line
is kept and no file is written by hand; otherwise every line of the sources is a line of the file, and
all breaks are a carriage return and a line feed. -/
theorem aggregate?_lines (generated : String) (handwritten : List (String × String))
    (hgenerated : '\r' ∉ generated.toList)
    (hhandwritten : ∀ file ∈ handwritten,
      '\r' ∉ file.1.toList ∧ '\n' ∉ file.1.toList ∧ '\r' ∉ file.2.toList) :
    (∀ generated' handwritten', Text.Returned generated.toList generated'.toList →
      List.Forall₂ (fun file file' : String × String =>
        file'.1 = file.1 ∧ Text.Returned file.2.toList file'.2.toList) handwritten handwritten' →
      aggregate? generated' handwritten' = aggregate? generated handwritten) ∧
    (aggregate? generated handwritten = none ↔
      handwritten = [] ∧ ∀ line ∈ Text.lines generated.toList, line = [] ∨ Hollow line) ∧
    ∀ out, aggregate? generated handwritten = some out →
      Text.Broken out.toList ∧
      ∃ ls, List.Forall₂ Unscoped
          ("/** @noResolution @noSelfInFile */".toList :: [] ::
            (Text.lines generated.toList).filter (fun line => line ≠ [] ∧ ¬ Hollow line) ++ [] ::
            handwritten.flatMap fun file =>
              ("/* File: " ++ file.1 ++ " */").toList :: Text.lines file.2.toList) ls ∧
        (∀ line ∈ ls, '\r' ∉ line ∧ '\n' ∉ line) ∧
        out.toList = ls.flatMap fun line => line ++ ['\r', '\n'] := by
  refine ⟨fun generated' handwritten' hgenerated' hhandwritten' => ?_, aggregate?_eq_none_iff,
    fun out hout => ?_⟩
  · have hfiles := (List.forall₂_and_left _ _).mpr ⟨hhandwritten, hhandwritten'⟩
    exact aggregate?_congr (hgenerated'.lines_eq hgenerated)
      (hfiles.imp fun file file' h => ⟨h.2.1, h.2.2.lines_eq h.1.2.2⟩)
  · have hplain := not_mem_of_mem_fileLines hgenerated hhandwritten
    have hls : ∀ line ∈ (fileLines (keptLines generated) handwritten).map dropScopes,
        '\r' ∉ line ∧ '\n' ∉ line := by
      intro line' hline'
      obtain ⟨line, hline, rfl⟩ := List.mem_map.mp hline'
      have hsubset := (unscoped_dropScopes line).subset
      exact ⟨fun hc => (hplain line hline).1 (hsubset hc),
        fun hc => (hplain line hline).2 (hsubset hc)⟩
    have htext := toList_out hout
    rw [fileText] at htext
    refine ⟨?_, _, ?_, hls, htext⟩
    · rw [htext]
      exact Text.broken_flatMap (by simp [fileLines]) hls
    · rw [← keptLines_eq, List.forall₂_map_right_iff]
      exact List.forall₂_same.mpr fun line _ => unscoped_dropScopes line

theorem aggregate?_lines_one_file :
    aggregate? "type A\r\n" [("src/client/b.d.ts", "type B\r\ntype C")] =
        aggregate? "type A\n" [("src/client/b.d.ts", "type B\ntype C")] ∧
      ∃ out, aggregate? "type A\n" [("src/client/b.d.ts", "type B\ntype C")] = some out ∧
        Text.Broken out.toList := by
  obtain ⟨hsame, hnone, hout⟩ := aggregate?_lines "type A\n"
    [("src/client/b.d.ts", "type B\ntype C")] (by decide) (by decide)
  refine ⟨hsame _ _ (Text.returned_flatMap _) (.cons ⟨rfl, Text.returned_flatMap _⟩ .nil), ?_⟩
  obtain ⟨out, hsome⟩ := Option.ne_none_iff_exists'.mp fun h => by simpa using (hnone.mp h).1
  exact ⟨out, hsome, (hout out hsome).1⟩

end

end ModBuild.Declarations
