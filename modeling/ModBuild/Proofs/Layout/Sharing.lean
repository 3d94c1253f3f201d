import ModBuild.Proofs.Layout.Placement

/-!
# Units that share a place

A place is known by its segments, and each rule has its own way of making them from the segments of
the declared path. Bundles share one place. An external unit shares its place with the units whose
path goes on in the same way behind the external folder, and with the regular unit that stands at
that path in the shared folder. Regular units share a place only when their segments are the same.
-/

namespace ModBuild.Layout

set_option autoImplicit false

open SlashPath

variable {l : Layout} {a b declared : String} {below : List String}

/-- The segments of the path at which a unit is declared. -/
def declaredParts (declared : String) : List String := segments (normalize declared)

/-- The unit is external, and `below` stands behind the first external folder of its path. -/
def ExternalAt (l : Layout) (declared : String) (below : List String) : Prop :=
  (l.place declared).rule = .external ∧
    ∃ above, declaredParts declared = above ++ l.externalDir :: below ∧ l.externalDir ∉ above

/-- The unit is neither a bundle nor external. -/
def Regular (l : Layout) (declared : String) : Prop :=
  (l.place declared).rule = .scoped ∨ (l.place declared).rule = .unscoped

/-- The ways in which two units come to the same place. -/
inductive SharePlace (l : Layout) (a b : String) : Prop where
  | bundles : (l.place a).rule = .bundle → (l.place b).rule = .bundle → SharePlace l a b
  | externals (below : List String) : ExternalAt l a below → ExternalAt l b below → SharePlace l a b
  | externalRegular (below : List String) : ExternalAt l a below → Regular l b →
      declaredParts b = "shared" :: below → SharePlace l a b
  | regularExternal (below : List String) : Regular l a → ExternalAt l b below →
      declaredParts a = "shared" :: below → SharePlace l a b
  | regulars : Regular l a → Regular l b → declaredParts a = declaredParts b → SharePlace l a b

theorem rule_bundle_iff :
    (l.place declared).rule = .bundle ↔ (declaredParts declared).getLast? = some bundleName :=
  rule_place_iff

theorem rule_place_of_external (hlast : (declaredParts declared).getLast? ≠ some bundleName)
    (hmem : l.externalDir ∈ declaredParts declared) : (l.place declared).rule = .external := by
  obtain ⟨placed, hplaced, hplace⟩ := l.place_eq declared
  rw [hplace, ← hplaced, ← declaredParts, placeSegments_of_external hlast hmem]

theorem regular_of_not_mem (hlast : (declaredParts declared).getLast? ≠ some bundleName)
    (hmem : l.externalDir ∉ declaredParts declared) : Regular l declared := by
  obtain ⟨placed, hplaced, hplace⟩ := l.place_eq declared
  rw [← declaredParts, placeSegments_of_regular hlast hmem] at hplaced
  rw [Regular, hplace, ← hplaced]
  dsimp only
  split
  · exact Or.inr rfl
  · exact Or.inl rfl

theorem placedParts_of_bundle (h : (l.place declared).rule = .bundle) :
    l.placedParts (declaredParts declared) = ["shared", bundleName] :=
  if_pos (rule_bundle_iff.mp h)

theorem getLast?_ne_of_rule_ne (h : (l.place declared).rule ≠ .bundle) :
    (declaredParts declared).getLast? ≠ some bundleName :=
  fun hlast => h (rule_bundle_iff.mpr hlast)

theorem Regular.rule_ne (h : Regular l declared) :
    (l.place declared).rule ≠ .bundle ∧ (l.place declared).rule ≠ .external := by
  rcases h with h | h <;> simp [h]

theorem placedParts_of_externalAt (h : ExternalAt l declared below) :
    l.placedParts (declaredParts declared) = "shared" :: below := by
  obtain ⟨hrule, above, hparts, habove⟩ := h
  have hlast : (declaredParts declared).getLast? ≠ some bundleName :=
    getLast?_ne_of_rule_ne (l := l) (by simp [hrule])
  unfold placedParts
  rw [if_neg hlast, hparts, if_pos (by simp), tail_dropWhile_of_not_mem habove]

theorem placedParts_of_regular (h : Regular l declared) :
    l.placedParts (declaredParts declared) = declaredParts declared := by
  have hlast := getLast?_ne_of_rule_ne h.rule_ne.1
  unfold placedParts
  rw [if_neg hlast, if_neg fun hmem => h.rule_ne.2 (rule_place_of_external hlast hmem)]

theorem rule_cases (l : Layout) (declared : String) :
    (l.place declared).rule = .bundle ∨ (∃ below, ExternalAt l declared below) ∨
      Regular l declared := by
  by_cases hlast : (declaredParts declared).getLast? = some bundleName
  · exact Or.inl (rule_bundle_iff.mpr hlast)
  by_cases hmem : l.externalDir ∈ declaredParts declared
  · obtain ⟨above, below, hparts, habove⟩ := List.eq_append_cons_of_mem hmem
    exact Or.inr (Or.inl ⟨below, rule_place_of_external hlast hmem, above, hparts, habove⟩)
  · exact Or.inr (Or.inr (regular_of_not_mem hlast hmem))

theorem SharePlace.placedParts_eq (h : SharePlace l a b) :
    l.placedParts (declaredParts a) = l.placedParts (declaredParts b) := by
  cases h with
  | bundles ha hb => rw [placedParts_of_bundle ha, placedParts_of_bundle hb]
  | externals below ha hb => rw [placedParts_of_externalAt ha, placedParts_of_externalAt hb]
  | externalRegular below ha hb hparts =>
    rw [placedParts_of_externalAt ha, placedParts_of_regular hb, hparts]
  | regularExternal below ha hb hparts =>
    rw [placedParts_of_externalAt hb, placedParts_of_regular ha, hparts]
  | regulars ha hb hparts => rw [hparts]

theorem sharePlace_of_placedParts_eq
    (h : l.placedParts (declaredParts a) = l.placedParts (declaredParts b)) : SharePlace l a b := by
  have hbundle := rule_bundle_iff_of_placedParts_eq h
  rcases rule_cases l a with ha | ⟨below, ha⟩ | ha
  · exact .bundles ha (hbundle.mp ha)
  · rw [placedParts_of_externalAt ha] at h
    rcases rule_cases l b with hb | ⟨below', hb⟩ | hb
    · exact .bundles (hbundle.mpr hb) hb
    · rw [placedParts_of_externalAt hb] at h
      cases h
      exact .externals below ha hb
    · rw [placedParts_of_regular hb] at h
      exact .externalRegular below ha hb h.symm
  · rw [placedParts_of_regular ha] at h
    rcases rule_cases l b with hb | ⟨below, hb⟩ | hb
    · exact .bundles (hbundle.mpr hb) hb
    · rw [placedParts_of_externalAt hb] at h
      exact .regularExternal below ha hb h
    · rw [placedParts_of_regular hb] at h
      exact .regulars ha hb h

/-- Two units have one path exactly when they share a place in one of the known ways. What is
declared by the same segments is placed alike, and a bundle shares its path with bundles alone. -/
theorem same_path_iff_sharePlace (l : Layout) (a b : String) :
    ((l.place a).path.Same (l.place b).path ↔ SharePlace l a b) ∧
      ((l.place a).rule = .bundle ↔ (declaredParts a).getLast? = some "lualib_bundle.lua") ∧
      (declaredParts a = declaredParts b → l.place a = l.place b) ∧
      ((l.place a).rule = .bundle → (l.place b).rule ≠ .bundle →
        ¬(l.place a).path.Same (l.place b).path) := by
  have hsame := same_place_iff l a b
  refine ⟨?_, rule_bundle_iff, ?_, ?_⟩
  · rw [hsame]
    exact ⟨sharePlace_of_placedParts_eq, SharePlace.placedParts_eq⟩
  · intro hparts
    unfold place
    rw [← declaredParts, ← declaredParts, hparts]
  · intro ha hb hpath
    exact hb ((rule_bundle_iff_of_placedParts_eq (hsame.mp hpath)).mp ha)

end ModBuild.Layout
