import ModBuild.Pass.Loading
import ModBuild.Proofs.Disk.Run

/-!
# Names of folders in the settings

The schema refuses an empty text for a folder, and the defaults are not empty. A project that was
loaded therefore has a name for each of its folders with assets.
-/

namespace ModBuild

set_option autoImplicit false

namespace Settings

variable {s : Settings} {content file : String}

/-- Every folder with assets has a name. -/
def FoldersNamed (s : Settings) : Prop :=
  s.modelsDir ≠ "" ∧ s.texturesDir ≠ "" ∧ s.soundDir ≠ "" ∧ s.scriptsDir ≠ ""

instance (s : Settings) : Decidable s.FoldersNamed := inferInstanceAs (Decidable (_ ∧ _))

theorem eq_nil_of_violations {fields : List (String × Json)} {key : String} {shape : Shape}
    {value : Json} (h : violations (.object fields) = []) (hkey : (key, shape) ∈ schema)
    (hvalue : fields.lookup key = some value) : violationsOf [key] shape value = [] := by
  rw [violations, List.append_eq_nil_iff, List.flatMap_eq_nil_iff] at h
  have hknown := h.1 (key, shape) hkey
  simp only [keyViolations, hvalue] at hknown
  exact hknown

theorem ne_empty_of_violations {fields : List (String × Json)} {key default text : String}
    (h : violations (.object fields) = []) (hkey : (key, Shape.text) ∈ schema)
    (hdefault : default ≠ "") (hread : field? fields key textOf? default = some text) :
    text ≠ "" := by
  unfold field? at hread
  split at hread
  · next value hvalue =>
    have hnone := eq_nil_of_violations h hkey hvalue
    rintro rfl
    cases value with
    | string t =>
      cases hread
      cases hnone
    | _ => cases hread
  · cases hread
    exact hdefault

theorem foldersNamed_of_ofFields? {fields : List (String × Json)}
    (h : violations (.object fields) = []) (hs : ofFields? fields = some s) : s.FoldersNamed := by
  unfold ofFields? at hs
  dsimp only at hs
  split at hs
  · cases hs
  · simp only [Option.bind_eq_bind, Option.bind_eq_some_iff, Option.pure_def,
      Option.some.injEq] at hs
    obtain ⟨-, -, modelsDir, hmodels, texturesDir, htextures, soundDir, hsound,
      scriptsDir, hscripts, -, -, -, -, -, -, -, -, -, -, rfl⟩ := hs
    exact ⟨ne_empty_of_violations h (by decide) (by decide) hmodels,
      ne_empty_of_violations h (by decide) (by decide) htextures,
      ne_empty_of_violations h (by decide) (by decide) hsound,
      ne_empty_of_violations h (by decide) (by decide) hscripts⟩

theorem foldersNamed_of_parse (h : parse content file = .ok s) : s.FoldersNamed := by
  unfold parse at h
  split at h
  · cases h
  · next j _ =>
    split at h
    · next hviolations =>
      split at h
      · next s' hread =>
        cases h
        cases j with
        | object fields => exact foldersNamed_of_ofFields? hviolations hread
        | _ => cases hviolations
      · cases h
    · cases h

theorem foldersNamed_of_load {d : Disk} {path : FilePath} (h : load d path = .ok s) :
    s.FoldersNamed := by
  unfold load at h
  split at h
  · split at h
    · next content _ =>
      cases hparse : parse content path.text with
      | error e =>
        rw [hparse] at h
        cases h
      | ok s' =>
        rw [hparse] at h
        cases h
        exact foldersNamed_of_parse hparse
    · cases h
  · cases h
    decide

end Settings

theorem Project.foldersNamed_of_load {d : Disk} {root : FilePath} {p : Project}
    (h : Project.load d root = .ok p) : p.settings.FoldersNamed := by
  obtain ⟨settings, hsettings, hrest⟩ := bind_eq_ok_iff.mp h
  dsimp only at hrest
  split at hrest
  · obtain ⟨manifest, -, hproject⟩ := bind_eq_ok_iff.mp hrest
    cases hproject
    exact Settings.foldersNamed_of_load hsettings
  · cases hrest

end ModBuild
