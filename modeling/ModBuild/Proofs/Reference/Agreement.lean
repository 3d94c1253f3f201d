import ModBuild.Proofs.Layout.Placement
import ModBuild.Proofs.Reference.Grammar
import ModBuild.Proofs.Reference.ModulePath

/-!
# References and places

A module is placed by its declared path and referred to by its dotted name. For a module in a scope
folder the two agree: the call that stands for a reference names the file at the place of the
module. For a module in the external folder they agree only when that folder has the name of a
scope, because a place drops every folder up to the external one and a reference drops a scope folder
alone.
-/

namespace ModBuild

set_option autoImplicit false

open SlashPath

namespace Reference

/-- Wherever a text has the call of `dotted`, the rewritten text has the call of `path`. -/
def RewrittenTo (dotted path : String) : Prop :=
  ∀ (owner : Scope) (text file : String) (before after : List Piece),
    Piece.Factors (before ++ .call dotted.toList :: after) text.toList →
      (rewrite owner text file).text.toList =
        before.flatMap Piece.standIn ++ ("require('" ++ path ++ "')").toList ++
          after.flatMap Piece.standIn

theorem standIn_call (dotted : String) :
    Piece.standIn (.call dotted.toList) = ("require('" ++ (ofDotted dotted).path ++ "')").toList := by
  rw [← Piece.rewritten_eq_standIn]
  change (ofDotted (.ofList dotted.toList)).call.toList = _
  rw [String.ofList_toList, call]

theorem rewrittenTo_iff {dotted path : String} (h : '"' ∉ dotted.toList) :
    RewrittenTo dotted path ↔ path = (ofDotted dotted).path := by
  constructor
  · intro hpath
    have hfactors := Piece.Factors.call h .done
    have htext := hpath .none (.ofList (Piece.opening ++ dotted.toList ++ ['"', ')'] ++ [])) "" [] []
    rw [String.toList_ofList] at htext
    have hcall := htext hfactors
    rw [toList_text_rewrite .none "" (by rw [String.toList_ofList]; exact hfactors)] at hcall
    apply String.toList_injective
    simpa [standIn_call] using hcall.symm
  · rintro rfl owner text file before after hfactors
    rw [toList_text_rewrite owner file hfactors, List.flatMap_append, List.flatMap_cons, standIn_call,
      List.append_assoc]

end Reference

namespace ModulePath

variable (l : Layout) (m : ModulePath)

theorem foldl_join_fileParts (p : FilePath) :
    m.fileParts.foldl FilePath.join p = p.join (ofSegments m.below ++ ".lua") := by
  rw [ofSegments_below]
  exact FilePath.foldl_join_eq_join p m.fileParts_ne_nil m.isSegment_fileParts

theorem getLast?_parts_ne {top : String} (h : m.file ≠ Layout.bundleName) :
    (top :: m.fileParts).getLast? ≠ some Layout.bundleName := by
  rw [getLast?_fileParts]
  simpa using h

section Scoped

variable {l m} {s : Scope}

theorem ne_none_of_folder {name : String} (h : s.folder? = some name) : s ≠ .none := by
  rintro rfl
  cases h

theorem placeSegments_scoped (hs : s.folder? = some m.top)
    (hexternal : l.externalDir ∉ m.top :: m.fileParts) (hbundle : m.file ≠ Layout.bundleName) :
    l.placeSegments (m.top :: m.fileParts) = (m.declared, s, .scoped) := by
  have hclassify : Scope.classify (ofSegments (m.top :: m.fileParts)) = s := by
    unfold Scope.classify
    rw [segments_ofSegments m.isSegment_parts]
    exact Scope.ofFolder_folder hs
  rw [Layout.placeSegments_of_regular (m.getLast?_parts_ne hbundle) hexternal, hclassify,
    if_neg (ne_none_of_folder hs)]
  rfl

theorem path_place_scoped (hs : s.folder? = some m.top)
    (hexternal : l.externalDir ∉ m.top :: m.fileParts) (hbundle : m.file ≠ Layout.bundleName) :
    (l.place m.declared).path = (l.scopeDir s).join (ofSegments m.below ++ ".lua") := by
  rw [Layout.path_place, segments_declared, Layout.placedParts, if_neg (m.getLast?_parts_ne hbundle),
    if_neg hexternal, List.foldl_cons, foldl_join_fileParts, Layout.scopeDir_of_folder hs]

/-- A module in a scope folder stays there, and every reference to it is rewritten to a call that
names its file below that folder. -/
theorem reference_finds_scoped (hs : s.folder? = some m.top)
    (hexternal : l.externalDir ∉ segments (normalize m.declared))
    (hbundle : m.file ≠ Layout.bundleName) :
    (l.place m.declared).rule = .scoped ∧ (l.place m.declared).scope = s ∧
      (Reference.ofDotted m.dotted).scope = s ∧
      (l.scopeDir s).join ((Reference.ofDotted m.dotted).path ++ ".lua") =
        (l.place m.declared).path ∧
      Reference.RewrittenTo m.dotted (Reference.ofDotted m.dotted).path := by
  rw [segments_declared] at hexternal
  have hplace := placeSegments_scoped hs hexternal hbundle
  have hscope : Scope.ofFolder m.top = s := Scope.ofFolder_folder hs
  refine ⟨?_, ?_, ?_, ?_, (Reference.rewrittenTo_iff m.quote_not_mem_dotted).mpr rfl⟩
  · unfold Layout.place
    rw [segments_declared, hplace]
  · unfold Layout.place
    rw [segments_declared, hplace]
  · rw [ofDotted_dotted, hscope]
  · rw [path_place_scoped hs hexternal hbundle, ofDotted_dotted, hscope,
      if_neg (ne_none_of_folder hs)]

/-- The module `util.Strings` of the shared folder. -/
theorem reference_finds_scoped_strings :
    "node_modules" ∉ segments (normalize "shared/util/Strings.lua") ∧
      ((Layout.ofMod ⟨"/proj/dist"⟩ "MyFirst").place "shared/util/Strings.lua").rule = .scoped ∧
      ((Layout.ofMod ⟨"/proj/dist"⟩ "MyFirst").place "shared/util/Strings.lua").scope = .shared ∧
      (Reference.ofDotted "shared.util.Strings").scope = .shared ∧
      ((Layout.ofMod ⟨"/proj/dist"⟩ "MyFirst").scopeDir .shared).join "util/Strings.lua" =
        ((Layout.ofMod ⟨"/proj/dist"⟩ "MyFirst").place "shared/util/Strings.lua").path ∧
      Reference.RewrittenTo "shared.util.Strings" "util/Strings" := by
  have hexternal : "node_modules" ∉ segments (normalize "shared/util/Strings.lua") := by
    decide +kernel
  have hdeclared : declared ⟨"shared", ["util"], "Strings", by decide⟩ = "shared/util/Strings.lua" := by
    decide +kernel
  have hdotted : dotted ⟨"shared", ["util"], "Strings", by decide⟩ = "shared.util.Strings" := by
    decide +kernel
  have hpath : (Reference.ofDotted "shared.util.Strings").path = "util/Strings" := by
    decide +kernel
  have hfinds := reference_finds_scoped (l := Layout.ofMod ⟨"/proj/dist"⟩ "MyFirst")
    (m := ⟨"shared", ["util"], "Strings", by decide⟩) (s := .shared) rfl (hdeclared ▸ hexternal)
    (by decide)
  rw [hdeclared, hdotted, hpath] at hfinds
  exact ⟨hexternal, hfinds⟩

end Scoped

section External

variable {l m}

theorem path_place_external (htop : m.top = l.externalDir) (hbundle : m.file ≠ Layout.bundleName) :
    (l.place m.declared).path = m.fileParts.foldl FilePath.join (l.scopeDir .shared) := by
  rw [Layout.path_place, segments_declared, Layout.placedParts, if_neg (m.getLast?_parts_ne hbundle),
    if_pos (htop ▸ List.mem_cons_self), htop, List.dropWhile_cons_of_neg (by simp), List.tail_cons,
    List.foldl_cons, Layout.scopeDir_of_folder rfl]

/-- A reference to a module in the external folder is rewritten to a call that names its file
exactly when the folder has the name of a scope. -/
theorem reference_finds_external_iff (htop : m.top = l.externalDir)
    (hbundle : m.file ≠ Layout.bundleName) :
    (∃ path, Reference.RewrittenTo m.dotted path ∧
        ((l.scopeDir .shared).join (path ++ ".lua")).Same (l.place m.declared).path) ↔
      Scope.ofFolder l.externalDir ≠ .none := by
  simp only [Reference.rewrittenTo_iff m.quote_not_mem_dotted, exists_eq_left]
  rw [path_place_external htop hbundle, ofDotted_dotted, ← htop]
  by_cases hscope : Scope.ofFolder m.top = .none
  · refine iff_of_false ?_ (fun h => h hscope)
    rw [if_pos hscope, ofSegments_top_below, ← FilePath.foldl_join_eq_join _ (List.cons_ne_nil _ _)
      m.isSegment_parts, FilePath.foldl_join_same_iff _ m.isSegment_parts m.isSegment_fileParts]
    exact List.cons_ne_self _ _
  · refine iff_of_true ?_ hscope
    rw [if_neg hscope, foldl_join_fileParts]
    rfl

/-- An external folder named `client`. -/
theorem reference_finds_external_client :
    ∃ path, Reference.RewrittenTo "client.pkg.index" path ∧
      (((Layout.mk ⟨"/proj/dist/MyFirst"⟩ "client").scopeDir .shared).join (path ++ ".lua")).Same
        ((Layout.mk ⟨"/proj/dist/MyFirst"⟩ "client").place "client/pkg/index.lua").path :=
  (reference_finds_external_iff (l := ⟨⟨"/proj/dist/MyFirst"⟩, "client"⟩)
    (m := ⟨"client", ["pkg"], "index", by decide⟩) rfl (by decide)).mpr (by decide)

/-- The call for a module of `node_modules` keeps the folder, its file is written without it. -/
theorem reference_misses_node_modules :
    (Reference.rewrite .shared "require(\"node_modules.pkg.index\")" "shared/a.lua").text =
        "require('node_modules/pkg/index')" ∧
      ((Layout.ofMod ⟨"/proj/dist"⟩ "MyFirst").place "node_modules/pkg/index.lua").path.text =
        "/proj/dist/MyFirst/media/lua/shared/pkg/index.lua" ∧
      ¬(((Layout.ofMod ⟨"/proj/dist"⟩ "MyFirst").scopeDir .shared).join
          "node_modules/pkg/index.lua").Same
        ((Layout.ofMod ⟨"/proj/dist"⟩ "MyFirst").place "node_modules/pkg/index.lua").path := by
  decide +kernel

end External

end ModulePath

end ModBuild
