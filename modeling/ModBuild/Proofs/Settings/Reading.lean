import ModBuild.Settings.Schema

/-!
# Reading settings

Settings can be read from fields with known keys and values of the right types, and then each key
has its value from the fields, or its default (`exists_ofFields?`).
-/

namespace ModBuild.Settings

set_option autoImplicit false

/-- The value of a key as it is written. -/
def value? (s : Settings) (key : String) : Option Json :=
  match s.toJson with
  | .object fields => fields.lookup key
  | _ => none

section
variable {fields : List (String × Json)} {key : String}

theorem mapM_textOf? (ts : List String) : (ts.map Json.string).mapM textOf? = some ts := by
  induction ts with
  | nil => rfl
  | cons t ts ih =>
    rw [List.map_cons, List.mapM_cons, ih]
    rfl

theorem field?_text (h : ∀ value ∈ fields.lookup key, ∃ t, value = .string t) (default : String) :
    ∃ t, field? fields key textOf? default = some t ∧
      some (.string t) = (fields.lookup key).or (some (.string default)) := by
  unfold field?
  cases hvalue : fields.lookup key with
  | none => exact ⟨default, rfl, rfl⟩
  | some value =>
    obtain ⟨t, rfl⟩ := h value hvalue
    exact ⟨t, rfl, rfl⟩

theorem field?_texts (default : List String)
    (h : ∀ value ∈ fields.lookup key, ∃ ts : List String, value = .array (ts.map .string)) :
    ∃ ts, field? fields key textsOf? default = some ts ∧
      some (.array (ts.map .string)) =
        (fields.lookup key).or (some (.array (default.map .string))) := by
  unfold field?
  cases hvalue : fields.lookup key with
  | none => exact ⟨default, rfl, rfl⟩
  | some value =>
    obtain ⟨ts, rfl⟩ := h value hvalue
    exact ⟨ts, mapM_textOf? ts, rfl⟩

theorem exists_ofFields? (hkeys : ∀ field ∈ fields, field.1 ∈ keys)
    (htext : ∀ key ∈ keys, key ≠ "runtimeLibraries" → ∀ value ∈ fields.lookup key,
      ∃ t, value = .string t)
    (htexts : ∀ value ∈ fields.lookup "runtimeLibraries",
      ∃ ts : List String, value = .array (ts.map .string)) :
    ∃ s, ofFields? fields = some s ∧
      ∀ key ∈ keys, s.value? key = (fields.lookup key).or (({} : Settings).value? key) := by
  have hread := fun (key : String) (default : Settings → String) (hkey : key ∈ keys)
      (hne : key ≠ "runtimeLibraries") => field?_text (htext key hkey hne) (default {})
  obtain ⟨outDir, h₁, e₁⟩ := hread "outDir" (·.outDir) (by decide) (by decide)
  obtain ⟨modelsDir, h₂, e₂⟩ := hread "modelsDir" (·.modelsDir) (by decide) (by decide)
  obtain ⟨texturesDir, h₃, e₃⟩ := hread "texturesDir" (·.texturesDir) (by decide) (by decide)
  obtain ⟨soundDir, h₄, e₄⟩ := hread "soundDir" (·.soundDir) (by decide) (by decide)
  obtain ⟨scriptsDir, h₅, e₅⟩ := hread "scriptsDir" (·.scriptsDir) (by decide) (by decide)
  obtain ⟨runtimeLibraries, h₆, e₆⟩ := field?_texts ({} : Settings).runtimeLibraries htexts
  obtain ⟨externalModuleDir, h₇, e₇⟩ := hread "externalModuleDir" (·.externalModuleDir)
    (by decide) (by decide)
  obtain ⟨compiler, h₈, e₈⟩ := hread "compiler" (·.compiler) (by decide) (by decide)
  obtain ⟨bridgeAlias, h₉, e₉⟩ := hread "bridgeAlias" (·.bridgeAlias) (by decide) (by decide)
  obtain ⟨bootEvent, h₁₀, e₁₀⟩ := hread "bootEvent" (·.bootEvent) (by decide) (by decide)
  refine ⟨⟨outDir, modelsDir, texturesDir, soundDir, scriptsDir, runtimeLibraries,
    externalModuleDir, compiler, bridgeAlias, bootEvent⟩, ?_, ?_⟩
  · simpa [ofFields?, h₁, h₂, h₃, h₄, h₅, h₆, h₇, h₈, h₉, h₁₀] using
      fun key value => hkeys (key, value)
  · simp only [keys, List.forall_mem_cons]
    exact ⟨e₁, e₂, e₃, e₄, e₅, e₆, e₇, e₈, e₉, e₁₀, by simp⟩

end

end ModBuild.Settings
