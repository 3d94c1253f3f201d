import ModBuild.Proofs.Disk.Location
import ModBuild.Proofs.Layout.Sharing
import ModBuild.Unit

/-!
# Places and scopes

The scope of a place is that of its path below the Lua root, whichever rule has made it. So a unit is
always placed below the folder of that scope, and a regular unit has the scope in which it was
declared. As long as no segment leads upwards, the place does not leave the Lua root.
-/

namespace ModBuild

set_option autoImplicit false

open Component SlashPath

namespace Scope

variable {first path : String} {rest : List String}

theorem classify_ofSegments_segments (path : String) :
    classify (ofSegments (segments path)) = classify path := by
  rw [classify_eq, classify_eq, segments_ofSegments fun part => isSegment_of_mem_segments]

theorem classify_ofSegments_cons (h : ∀ part ∈ first :: rest, IsSegment part) :
    classify (ofSegments (first :: rest)) = ofFolder first := by
  rw [classify_eq, segments_ofSegments h]
  rfl

theorem folder?_ofFolder (h : ofFolder first ≠ .none) : (ofFolder first).folder? = some first := by
  unfold ofFolder at h ⊢
  split
  · next heq => rw [heq]; rfl
  split
  · next heq => rw [heq]; rfl
  split
  · next heq => rw [heq]; rfl
  · simp_all

end Scope

namespace Layout

variable {l : Layout} {parts : List String} {declared : String}

theorem relative_place (l : Layout) (declared : String) :
    (l.place declared).relative = ofSegments (l.placedParts (declaredParts declared)) := by
  obtain ⟨placed, hplaced, hplace⟩ := l.place_eq declared
  rw [hplace, ← placeSegments_relative, declaredParts, hplaced]

theorem isSegment_declaredParts (declared : String) : ∀ part ∈ declaredParts declared, IsSegment part :=
  fun _ => isSegment_of_mem_segments

theorem scope_placeSegments (h : ∀ part ∈ parts, IsSegment part) :
    (l.placeSegments parts).2.1 = Scope.classify (l.placeSegments parts).1 := by
  have hshared : ∀ below, (∀ part ∈ below, IsSegment part) →
      Scope.classify (ofSegments ("shared" :: below)) = .shared := by
    intro below hbelow
    exact Scope.classify_ofSegments_cons (List.forall_mem_cons.mpr ⟨by decide, hbelow⟩)
  by_cases hlast : parts.getLast? = some bundleName
  · rw [placeSegments_of_bundle hlast, hshared [bundleName] (by decide)]
  by_cases hmem : l.externalDir ∈ parts
  · rw [placeSegments_of_external hlast hmem,
      hshared _ fun part hpart => h part ((l.tail_dropWhile_suffix parts).subset hpart)]
  · rw [placeSegments_of_regular hlast hmem]

theorem scope_place (l : Layout) (declared : String) :
    (l.place declared).scope = Scope.classify (l.place declared).relative := by
  obtain ⟨placed, hplaced, hplace⟩ := l.place_eq declared
  have hscope := scope_placeSegments (l := l) (isSegment_declaredParts declared)
  rw [declaredParts, hplaced] at hscope
  rw [hplace]
  exact hscope

theorem placeSegments_unscoped_iff (l : Layout) (parts : List String) :
    (l.placeSegments parts).2.1 = .none ↔ (l.placeSegments parts).2.2 = .unscoped := by
  by_cases hlast : parts.getLast? = some bundleName
  · simp [placeSegments_of_bundle hlast]
  by_cases hmem : l.externalDir ∈ parts
  · simp [placeSegments_of_external hlast hmem]
  · rw [placeSegments_of_regular hlast hmem]
    dsimp only
    split <;> simp_all

theorem scope_place_of_regular (h : Regular l declared) :
    (l.place declared).scope = Scope.classify (normalize declared) := by
  rw [scope_place, relative_place, placedParts_of_regular h, declaredParts,
    Scope.classify_ofSegments_segments]

/-- A path below the Lua root is one below the folder of its scope. -/
theorem exists_foldl_join_scopeDir (l : Layout) (h : ∀ part ∈ parts, IsName part) :
    ∃ names : List String, (∀ n ∈ names, IsName n) ∧ parts.foldl FilePath.join l.luaRoot =
      names.foldl FilePath.join (l.scopeDir (Scope.classify (ofSegments parts))) := by
  cases parts with
  | nil => exact ⟨[], h, rfl⟩
  | cons first rest =>
    rw [Scope.classify_ofSegments_cons fun part hpart => (h part hpart).1]
    by_cases hscope : Scope.ofFolder first = .none
    · rw [hscope]
      exact ⟨first :: rest, h, rfl⟩
    · rw [scopeDir_of_folder (Scope.folder?_ofFolder hscope)]
      exact ⟨rest, fun n hn => h n (List.mem_cons_of_mem first hn), rfl⟩

theorem isName_placedParts (hdots : ".." ∉ declaredParts declared) :
    ∀ part ∈ l.placedParts (declaredParts declared), IsName part := by
  intro part hpart
  refine ⟨isSegment_of_mem_placedParts (isSegment_declaredParts declared) part hpart, ?_⟩
  rintro rfl
  exact dots_not_mem_placedParts hdots hpart

/-- A unit is placed below the folder of the scope of its place, so a path without `..` does not leave
the Lua root. The place has no scope exactly when the unit is unscoped, and a regular unit keeps the
scope in which it was declared. -/
theorem place_in_scope (l : Layout) (hdots : ".." ∉ segments (normalize declared)) :
    (∃ names : List String, (∀ n ∈ names, IsName n) ∧
        (l.place declared).path.components =
          (l.scopeDir (l.place declared).scope).components ++ names.map .name) ∧
      (∀ d : Disk, d.target l.luaRoot <+: d.target (l.place declared).path) ∧
      ((l.place declared).scope = .none ↔ (l.place declared).rule = .unscoped) ∧
      ((l.place declared).rule = .scoped ∨ (l.place declared).rule = .unscoped →
        ∀ text, (CompiledUnit.ofPath declared text).scope = (l.place declared).scope) ∧
      (l.place declared).path = l.luaPath (l.place declared).relative := by
  have hnames := isName_placedParts (l := l) hdots
  refine ⟨?_, fun d => ?_, ?_, fun h text => ?_, ?_⟩
  · obtain ⟨names, hbelow, hjoin⟩ := l.exists_foldl_join_scopeDir hnames
    refine ⟨names, hbelow, ?_⟩
    rw [path_place, ← declaredParts, hjoin, scope_place, relative_place,
      FilePath.components_foldl_join _ fun n hn => (hbelow n hn).1,
      List.map_congr_left fun n hn => (hbelow n hn).ofSegment]
  · rw [path_place, ← declaredParts, d.target_foldl_join l.luaRoot fun n hn => (hnames n hn).1]
    · exact List.prefix_append _ _
    · exact dots_not_mem_placedParts hdots
  · obtain ⟨placed, hplaced, hplace⟩ := l.place_eq declared
    have hunscoped := l.placeSegments_unscoped_iff (declaredParts declared)
    rw [declaredParts, hplaced] at hunscoped
    rw [hplace]
    exact hunscoped
  · exact (scope_place_of_regular h).symm
  · obtain ⟨placed, -, hplace⟩ := l.place_eq declared
    rw [hplace]

/-- A path that looks absolute, with separators of both kinds and an external folder that is named
like a scope. -/
theorem place_in_scope_mixed :
    let l : Layout := { Layout.ofMod ⟨"/proj/dist"⟩ "M" with externalDir := "server" }
    let declared := "\\.\\client//server\\ui/./Panel.lua/"
    ".." ∉ segments (normalize declared) ∧ (l.place declared).scope = .shared ∧
      ∃ names : List String, (∀ n ∈ names, IsName n) ∧
        (l.place declared).path.components =
          (l.scopeDir .shared).components ++ names.map .name := by
  intro l declared
  have hdots : ".." ∉ segments (normalize declared) := by decide +kernel
  have hscope : (l.place declared).scope = .shared := by decide +kernel
  obtain ⟨hbelow, -⟩ := place_in_scope l hdots
  exact ⟨hdots, hscope, hscope ▸ hbelow⟩

end Layout

end ModBuild
