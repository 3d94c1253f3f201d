import ModBuild.Layout
import ModBuild.Proofs.Path.Components
import ModBuild.Proofs.Path.Normalize

/-!
# Places as lists of segments

A unit is placed by its segments alone: what `Layout.place` writes as a text and reads again is the
list `Layout.placedParts`. The bundle is told from every other unit by the last segment of its place,
so the two never share a file.
-/

namespace ModBuild

set_option autoImplicit false

open SlashPath

namespace Scope

variable {s : Scope} {folder rel : String}

theorem isSegment_of_folder (h : s.folder? = some folder) : IsSegment folder ∧ folder ≠ ".." := by
  cases s with
  | client => cases h; decide
  | server => cases h; decide
  | shared => cases h; decide
  | none => cases h

theorem text_join_ne (above : FilePath) (hs : s.folder? = some folder) :
    (above.join folder).text.toList ≠ [] := by
  obtain ⟨⟨-, hne, -⟩, -⟩ := isSegment_of_folder hs
  have hfolder : folder.toList ≠ [] := fun he => hne (String.toList_eq_nil_iff.mp he)
  unfold FilePath.join
  split
  · exact hfolder
  · split <;> simp [hfolder]

theorem components_join (above : FilePath) (hs : s.folder? = some folder)
    (hrel : rel.toList.head? ≠ some '/') :
    ((above.join folder).join rel).components =
      above.components ++ .name folder :: (segments rel).map Component.ofSegment := by
  obtain ⟨hsegment, hdots⟩ := isSegment_of_folder hs
  rw [FilePath.components_join_of_relative (text_join_ne above hs) hrel,
    FilePath.components_join above hsegment, Component.ofSegment_of_ne hdots,
    Component.ofText_eq_map_segments, List.append_assoc, List.singleton_append]

end Scope

namespace Layout

variable {l : Layout} {parts : List String} {declared : String}

/-- The segments below the Lua root at which a unit with these segments is placed. -/
def placedParts (l : Layout) (parts : List String) : List String :=
  if parts.getLast? = some bundleName then ["shared", bundleName]
  else if l.externalDir ∈ parts then "shared" :: (parts.dropWhile (· ≠ l.externalDir)).tail
  else parts

theorem tail_dropWhile_suffix (l : Layout) (parts : List String) :
    (parts.dropWhile (· ≠ l.externalDir)).tail <:+ parts :=
  (List.tail_suffix _).trans (List.dropWhile_suffix _)

theorem tail_dropWhile_of_not_mem {above below : List String} (h : l.externalDir ∉ above) :
    ((above ++ l.externalDir :: below).dropWhile (· ≠ l.externalDir)).tail = below := by
  have hskip : ∀ part ∈ above, decide (part ≠ l.externalDir) = true :=
    fun part hpart => decide_eq_true fun heq => h (heq ▸ hpart)
  rw [List.dropWhile_append_of_pos hskip, List.dropWhile_cons_of_neg (by simp), List.tail_cons]

theorem placedParts_eq_self_iff :
    l.placedParts parts = parts ↔
      if parts.getLast? = some bundleName then parts = ["shared", bundleName]
      else l.externalDir ∈ parts → l.externalDir = "shared" ∧ parts.head? = some "shared" := by
  unfold placedParts
  split
  · exact eq_comm
  split
  · next hmem =>
    obtain ⟨above, below, rfl, habove⟩ := List.eq_append_cons_of_mem hmem
    rw [tail_dropWhile_of_not_mem habove, imp_iff_right hmem]
    cases above with
    | nil => simp [eq_comm]
    | cons part above =>
      refine iff_of_false ?_ ?_
      · intro heq
        have hlength := congrArg List.length heq
        simp at hlength
        omega
      · rintro ⟨hshared, hpart⟩
        obtain rfl : part = "shared" := Option.some.inj hpart
        exact habove (hshared ▸ List.mem_cons_self)
  · next hmem => exact iff_of_true rfl fun h => absurd h hmem

theorem mem_placedParts {part : String} (h : part ∈ l.placedParts parts) :
    part = "shared" ∨ part = bundleName ∨ part ∈ parts := by
  unfold placedParts at h
  split at h
  · rcases List.mem_cons.mp h with h | h
    · exact Or.inl h
    · exact Or.inr (Or.inl (List.mem_singleton.mp h))
  split at h
  · rcases List.mem_cons.mp h with h | h
    · exact Or.inl h
    · exact Or.inr (Or.inr ((l.tail_dropWhile_suffix parts).subset h))
  · exact Or.inr (Or.inr h)

theorem isSegment_of_mem_placedParts (h : ∀ part ∈ parts, IsSegment part) :
    ∀ part ∈ l.placedParts parts, IsSegment part := by
  intro part hpart
  rcases mem_placedParts hpart with rfl | rfl | hpart
  · decide
  · decide
  · exact h part hpart

theorem dots_not_mem_placedParts (h : ".." ∉ parts) : ".." ∉ l.placedParts parts := by
  intro hdots
  rcases mem_placedParts hdots with hshared | hbundle | hparts
  · exact absurd hshared (by decide)
  · exact absurd hbundle (by decide)
  · exact h hparts

theorem getLast?_placedParts_iff :
    (l.placedParts parts).getLast? = some bundleName ↔ parts.getLast? = some bundleName := by
  unfold placedParts
  split
  · next h => exact iff_of_true rfl h
  · next h =>
    refine iff_of_false ?_ h
    split
    · cases hbelow : (parts.dropWhile (· ≠ l.externalDir)).tail using List.reverseRecOn with
      | nil => decide
      | append_singleton below last _ =>
        obtain ⟨above, habove⟩ := l.tail_dropWhile_suffix parts
        rw [hbelow] at habove
        rw [← habove, ← List.append_assoc, List.getLast?_concat] at h
        rw [← List.cons_append, List.getLast?_concat]
        exact h
    · exact h

theorem placeSegments_of_bundle (h : parts.getLast? = some bundleName) :
    l.placeSegments parts = (ofSegments ["shared", bundleName], .shared, .bundle) :=
  if_pos h

theorem placeSegments_of_external (hlast : parts.getLast? ≠ some bundleName)
    (hmem : l.externalDir ∈ parts) :
    l.placeSegments parts =
      (ofSegments ("shared" :: (parts.dropWhile (· ≠ l.externalDir)).tail), .shared, .external) := by
  unfold placeSegments
  rw [if_neg hlast, if_pos hmem]

theorem placeSegments_of_regular (hlast : parts.getLast? ≠ some bundleName)
    (hmem : l.externalDir ∉ parts) :
    l.placeSegments parts =
      (ofSegments parts, Scope.classify (ofSegments parts),
        if Scope.classify (ofSegments parts) = .none then .unscoped else .scoped) := by
  unfold placeSegments
  rw [if_neg hlast, if_neg hmem]
  dsimp only
  cases Scope.classify (ofSegments parts) <;> rfl

theorem placeSegments_rule_iff :
    (l.placeSegments parts).2.2 = .bundle ↔ parts.getLast? = some bundleName := by
  by_cases hlast : parts.getLast? = some bundleName
  · simp [placeSegments_of_bundle hlast, hlast]
  by_cases hmem : l.externalDir ∈ parts
  · simp [placeSegments_of_external hlast hmem, hlast]
  · rw [placeSegments_of_regular hlast hmem]
    refine iff_of_false ?_ hlast
    dsimp only
    split <;> simp

theorem placeSegments_relative (l : Layout) (parts : List String) :
    (l.placeSegments parts).1 = ofSegments (l.placedParts parts) := by
  unfold placedParts
  split
  · next hlast => rw [placeSegments_of_bundle hlast]
  · next hlast =>
    split
    · next hmem => rw [placeSegments_of_external hlast hmem]
    · next hmem => rw [placeSegments_of_regular hlast hmem]

theorem place_eq (l : Layout) (declared : String) :
    ∃ placed, l.placeSegments (segments (normalize declared)) = placed ∧
      l.place declared = ⟨placed.1, l.luaPath placed.1, placed.2.1, placed.2.2⟩ := by
  unfold place
  generalize l.placeSegments (segments (normalize declared)) = placed
  exact ⟨placed, rfl, rfl⟩

theorem scopeDir_of_folder {s : Scope} {folder : String} (h : s.folder? = some folder) :
    l.scopeDir s = l.luaRoot.join folder := by
  unfold scopeDir
  rw [h]

theorem rule_place_iff :
    (l.place declared).rule = .bundle ↔
      (segments (normalize declared)).getLast? = some bundleName := by
  obtain ⟨placed, hplaced, hplace⟩ := l.place_eq declared
  rw [hplace, ← placeSegments_rule_iff, hplaced]

theorem path_place (l : Layout) (declared : String) :
    (l.place declared).path =
      (l.placedParts (segments (normalize declared))).foldl FilePath.join l.luaRoot := by
  obtain ⟨placed, hplaced, hplace⟩ := l.place_eq declared
  rw [hplace, ← hplaced, placeSegments_relative, luaPath, segments_ofSegments]
  exact isSegment_of_mem_placedParts fun part hpart => isSegment_of_mem_segments hpart

theorem same_place_iff (l : Layout) (a b : String) :
    (l.place a).path.Same (l.place b).path ↔
      l.placedParts (segments (normalize a)) = l.placedParts (segments (normalize b)) := by
  rw [path_place, path_place, FilePath.foldl_join_same_iff]
  · exact isSegment_of_mem_placedParts fun part hpart => isSegment_of_mem_segments hpart
  · exact isSegment_of_mem_placedParts fun part hpart => isSegment_of_mem_segments hpart

theorem path_eq_of_same {a b : String} (h : (l.place a).path.Same (l.place b).path) :
    (l.place a).path = (l.place b).path := by
  rw [path_place, path_place, (same_place_iff l a b).mp h]

/-- A bundle shares its place with bundles alone. -/
theorem rule_bundle_iff_of_placedParts_eq {a b : String}
    (h : l.placedParts (segments (normalize a)) = l.placedParts (segments (normalize b))) :
    (l.place a).rule = .bundle ↔ (l.place b).rule = .bundle := by
  rw [rule_place_iff, rule_place_iff, ← getLast?_placedParts_iff (l := l), h,
    getLast?_placedParts_iff]

theorem path_place_bundle (h : (l.place declared).rule = .bundle) :
    (l.place declared).path = (l.luaRoot.join "shared").join bundleName := by
  rw [path_place, placedParts, if_pos (rule_place_iff.mp h), List.foldl_cons, List.foldl_cons,
    List.foldl_nil]

/-- The file named by the segments of the declared path is the place of the unit exactly when the
layout leaves these segments alone. -/
theorem same_place_of_scope_iff {s : Scope} {folder rel : String}
    (hs : s.folder? = some folder) (hrel : rel.toList.head? ≠ some '/')
    (hback : '\\' ∉ rel.toList) :
    ((l.scopeDir s).join rel).Same (l.place (folder ++ "/" ++ rel)).path ↔
      l.placedParts (folder :: segments rel) = folder :: segments rel := by
  obtain ⟨hsegment, hdots⟩ := Scope.isSegment_of_folder hs
  have hdeclared : '\\' ∉ (folder ++ "/" ++ rel).toList := by
    have hfolder : '\\' ∉ folder.toList := by
      cases s <;> cases hs <;> decide
    simp [hfolder, hback]
  have hparts : segments (normalize (folder ++ "/" ++ rel)) = folder :: segments rel := by
    rw [segments_normalize_of_not_mem hdeclared, segments_append_slash hsegment]
  have hall : ∀ part ∈ folder :: segments rel, IsSegment part := by
    intro part hpart
    rcases List.mem_cons.mp hpart with rfl | hpart
    · exact hsegment
    · exact isSegment_of_mem_segments hpart
  have hjoin : ((l.scopeDir s).join rel).Same
      ((folder :: segments rel).foldl FilePath.join l.luaRoot) := by
    rw [FilePath.Same, FilePath.components_foldl_join _ hall, scopeDir_of_folder hs,
      Scope.components_join _ hs hrel, List.map_cons, Component.ofSegment_of_ne hdots]
  rw [FilePath.Same, hjoin, ← FilePath.Same, path_place, hparts,
    FilePath.foldl_join_same_iff _ hall (isSegment_of_mem_placedParts hall)]
  exact eq_comm

end Layout

end ModBuild
