import ModBuild.Proofs.Json.Writing
import ModBuild.Proofs.Settings.Validation

/-!
# Settings read back

Settings can be written whatever they are, and the schema is looked at when they are read. What was
written is read back exactly when every field has a value that the schema allows; other settings are
refused, with one violation for each field and each library with a value it does not allow
(`parse_written`).
-/

namespace ModBuild.Settings

set_option autoImplicit false

variable {s : Settings}

/-- The fields that hold a text, and their keys. -/
def textFields (s : Settings) : List (String × String) := [
  ("outDir", s.outDir), ("modelsDir", s.modelsDir), ("texturesDir", s.texturesDir),
  ("soundDir", s.soundDir), ("scriptsDir", s.scriptsDir),
  ("externalModuleDir", s.externalModuleDir), ("compiler", s.compiler)]

/-- The fields that hold a name of the script language. -/
def nameFields (s : Settings) : List (String × String) := [
  ("bridgeAlias", s.bridgeAlias), ("bootEvent", s.bootEvent)]

/-- Every field has a value that the schema allows. -/
structure Valid (s : Settings) : Prop where
  texts : ∀ field ∈ s.textFields, field.2 ≠ ""
  names : ∀ field ∈ s.nameFields, IsIdentifier field.2
  libraries : ∀ library ∈ s.runtimeLibraries, library ≠ ""

/-- A field or a library with a value that the schema does not allow. -/
inductive Offends (s : Settings) : Violation → Prop
  | text {key : String} : (key, "") ∈ s.textFields → Offends s (.empty [key])
  | name {key text : String} : (key, text) ∈ s.nameFields → ¬ IsIdentifier text →
      Offends s (.noName [key] text)
  | library {i : Nat} : s.runtimeLibraries[i]? = some "" →
      Offends s (.empty ["runtimeLibraries", Text.decimal i])

theorem valid_iff : s.Valid ↔ ∀ v, ¬ s.Offends v := by
  constructor
  · rintro ⟨htexts, hnames, hlibraries⟩ v (h | ⟨h, hno⟩ | h)
    · exact htexts _ h rfl
    · exact hno (hnames _ h)
    · exact hlibraries _ (List.mem_of_getElem? h) rfl
  · intro h
    refine ⟨?_, ?_, ?_⟩
    · rintro ⟨key, text⟩ hfield rfl
      exact h _ (.text hfield)
    · rintro ⟨key, text⟩ hfield
      exact by_contra fun hno => h _ (.name hfield hno)
    · rintro library hlibrary rfl
      obtain ⟨i, hi⟩ := List.mem_iff_getElem?.mp hlibrary
      exact h _ (.library hi)

instance (text : String) : Decidable (IsIdentifier text) := decidable_of_iff _ isName_iff

theorem valid_default : ({} : Settings).Valid := ⟨by decide, by decide, by decide⟩

/-- A field of the settings with its shape and the value that is written for it. -/
inductive Field (s : Settings) : String → Shape → Json → Prop
  | text {key text : String} : (key, text) ∈ s.textFields → Field s key .text (.string text)
  | name {key text : String} : (key, text) ∈ s.nameFields → Field s key .name (.string text)
  | libraries : Field s "runtimeLibraries" .texts (.array (s.runtimeLibraries.map .string))

theorem field_iff {key : String} {shape : Shape} {value : Json} :
    s.Field key shape value ↔ (key, shape) ∈ schema ∧ s.value? key = some value := by
  constructor
  · rintro (h | h | _)
    · simp only [textFields, List.mem_cons, Prod.mk.injEq, List.not_mem_nil, or_false] at h
      rcases h with h | h | h | h | h | h | h <;> obtain ⟨rfl, rfl⟩ := h <;>
        exact ⟨by decide, rfl⟩
    · simp only [nameFields, List.mem_cons, Prod.mk.injEq, List.not_mem_nil, or_false] at h
      rcases h with h | h <;> obtain ⟨rfl, rfl⟩ := h <;> exact ⟨by decide, rfl⟩
    · exact ⟨by decide, rfl⟩
  · rintro ⟨h, hvalue⟩
    simp only [schema, List.mem_cons, Prod.mk.injEq, List.not_mem_nil, or_false] at h
    rcases h with h | h | h | h | h | h | h | h | h | h <;> obtain ⟨rfl, rfl⟩ := h <;>
      cases hvalue
    · exact .name (by simp [nameFields])
    · exact .name (by simp [nameFields])
    · exact .text (by simp [textFields])
    · exact .text (by simp [textFields])
    · exact .text (by simp [textFields])
    · exact .text (by simp [textFields])
    · exact .libraries
    · exact .text (by simp [textFields])
    · exact .text (by simp [textFields])
    · exact .text (by simp [textFields])

theorem exists_fields (s : Settings) :
    ∃ fields, s.toJson = .object fields ∧ fields.map (·.1) = keys ∧
      ∀ key ∈ keys, Json.last? key fields = s.value? key := by
  refine ⟨_, rfl, rfl, ?_⟩
  simp only [keys, List.forall_mem_cons]
  exact ⟨rfl, rfl, rfl, rfl, rfl, rfl, rfl, rfl, rfl, rfl, by simp⟩

theorem isSome_value? (s : Settings) : ∀ key ∈ keys, (s.value? key).isSome := by
  simp only [keys, List.forall_mem_cons]
  exact ⟨rfl, rfl, rfl, rfl, rfl, rfl, rfl, rfl, rfl, rfl, by simp⟩

theorem eq_of_value? {s' : Settings} (h : ∀ key ∈ keys, s'.value? key = s.value? key) :
    s' = s := by
  simp only [keys, List.forall_mem_cons] at h
  obtain ⟨h₁, h₂, h₃, h₄, h₅, h₆, h₇, h₈, h₉, h₁₀, -⟩ := h
  have htext : ∀ t t' : String, some (Json.string t) = some (.string t') → t = t' := by simp
  have hlist : some (Json.array (s'.runtimeLibraries.map .string)) =
      some (.array (s.runtimeLibraries.map .string)) := h₆
  have hlibraries : s'.runtimeLibraries = s.runtimeLibraries :=
    List.map_injective_iff.mpr (fun _ _ => Json.string.inj) (by simpa using hlist)
  cases s
  cases s'
  rw [Settings.mk.injEq]
  exact ⟨htext _ _ h₁, htext _ _ h₂, htext _ _ h₃, htext _ _ h₄, htext _ _ h₅, hlibraries,
    htext _ _ h₇, htext _ _ h₈, htext _ _ h₉, htext _ _ h₁₀⟩

theorem legible_toJson (s : Settings) : s.toJson.Legible := by
  refine .object fun field hfield => ?_
  have hlibraries : (Json.array (s.runtimeLibraries.map .string)).Legible := by
    refine .array fun item hitem => ?_
    obtain ⟨text, -, rfl⟩ := List.mem_map.mp hitem
    exact .string text
  simp only [List.mem_cons, List.not_mem_nil, or_false] at hfield
  rcases hfield with rfl | rfl | rfl | rfl | rfl | rfl | rfl | rfl | rfl | rfl
  all_goals first | exact .string _ | exact hlibraries

theorem itemsDepth_map_string (texts : List String) :
    Json.itemsDepth (texts.map .string) = 0 := by
  induction texts with
  | nil => rfl
  | cons text texts ih => simp [Json.itemsDepth, Json.depth, ih]

theorem depth_toJson (s : Settings) : s.toJson.depth = 2 := by
  simp [toJson, Json.depth, Json.fieldsDepth, itemsDepth_map_string]

theorem document_text (s : Settings) : Json.Document s.text s.toJson :=
  s.legible_toJson.document_pretty (by rw [depth_toJson]; decide)

theorem exists_refuses_iff_offends {v : Violation} :
    (∃ key shape value, s.Field key shape value ∧ shape.Refuses [key] value v) ↔ s.Offends v := by
  constructor
  · rintro ⟨key, shape, value, (h | h | _), hv⟩
    · cases hv with
      | noText _ hno => exact absurd rfl (hno _)
      | empty => exact .text h
    · cases hv with
      | noText _ hno => exact absurd rfl (hno _)
      | noName hno => exact .name h hno
    · cases hv with
      | noText hshape _ => exact absurd rfl hshape
      | noList hno => exact absurd rfl (hno _)
      | item hitem hv =>
        rw [List.getElem?_map, Option.map_eq_some_iff] at hitem
        obtain ⟨library, hlibrary, rfl⟩ := hitem
        cases hv with
        | noText _ hno => exact absurd rfl (hno _)
        | empty => exact .library hlibrary
  · rintro (h | ⟨h, hno⟩ | h)
    · exact ⟨_, _, _, .text h, .empty⟩
    · exact ⟨_, _, _, .name h, .noName hno⟩
    · exact ⟨_, _, _, .libraries, .item (by rw [List.getElem?_map, h]; rfl) .empty⟩

theorem breaks_iff_offends {fields : List (String × Json)} (hkeys : fields.map (·.1) = keys)
    (hvalues : ∀ key ∈ keys, Json.last? key fields = s.value? key) {v : Violation} :
    Breaks fields v ↔ s.Offends v := by
  rw [← exists_refuses_iff_offends]
  constructor
  · rintro (⟨hmem, hvalue, hv⟩ | ⟨hne, -, hunknown⟩)
    · rw [hvalues _ (mem_keys_iff.mpr ⟨_, hmem⟩)] at hvalue
      exact ⟨_, _, _, field_iff.mpr ⟨hmem, hvalue⟩, hv⟩
    · obtain ⟨key, unknown, rfl⟩ := List.exists_cons_of_ne_nil hne
      obtain ⟨hkey, hno⟩ := (hunknown key).mp List.mem_cons_self
      exact absurd (hkeys ▸ hkey) hno
  · rintro ⟨key, shape, value, hfield, hv⟩
    obtain ⟨hmem, hvalue⟩ := field_iff.mp hfield
    rw [← hvalues _ (mem_keys_iff.mpr ⟨_, hmem⟩)] at hvalue
    exact .value hmem hvalue hv

theorem conforms_iff_valid {fields : List (String × Json)} (hkeys : fields.map (·.1) = keys)
    (hvalues : ∀ key ∈ keys, Json.last? key fields = s.value? key) :
    Conforms (.object fields) ↔ s.Valid := by
  rw [conforms_object_iff, valid_iff]
  exact forall_congr' fun v => not_congr (breaks_iff_offends hkeys hvalues)

theorem parse_text_of_valid (hvalid : s.Valid) (file : String) : parse s.text file = .ok s := by
  obtain ⟨fields, hfields, hkeys, hvalues⟩ := s.exists_fields
  have hdocument := s.document_text
  rw [hfields] at hdocument
  obtain ⟨s', hs', htakes⟩ :=
    parse_of_conforms file hdocument ((conforms_iff_valid hkeys hvalues).mpr hvalid)
  obtain ⟨htakes⟩ := htakes
  have heq : s' = s := eq_of_value? fun key hkey => by
    rw [htakes key hkey, hvalues key hkey, Option.or_of_isSome (s.isSome_value? key hkey)]
  rw [hs', heq]

/-- Valid settings are read back as they were written. Other settings are refused, with a violation
for each field and each library that is wrong, every place named once. -/
theorem parse_written (s : Settings) (file : String) :
    (parse s.text file = .ok s ↔ s.Valid) ∧
      ((∃ vs, parse s.text file = .error (.invalid file vs) ∧ (∀ v, v ∈ vs ↔ s.Offends v) ∧
        (vs.map Violation.place).Nodup) ↔ ¬ s.Valid) := by
  have hrefused : ¬ s.Valid → ∃ vs, parse s.text file = .error (.invalid file vs) ∧
      (∀ v, v ∈ vs ↔ s.Offends v) ∧ (vs.map Violation.place).Nodup := by
    intro hvalid
    obtain ⟨fields, hfields, hkeys, hvalues⟩ := s.exists_fields
    have hdocument := s.document_text
    rw [hfields] at hdocument
    obtain ⟨vs, hvs, hreports⟩ :=
      parse_of_not_conforms file hdocument (mt (conforms_iff_valid hkeys hvalues).mp hvalid)
    cases hreports with
    | object hmem hnodup =>
      exact ⟨vs, hvs, fun v => (hmem v).trans (breaks_iff_offends hkeys hvalues), hnodup⟩
    | other hother => exact absurd rfl (hother fields)
  refine ⟨⟨fun h => ?_, fun hvalid => parse_text_of_valid hvalid file⟩, ⟨?_, hrefused⟩⟩
  · by_contra hvalid
    obtain ⟨vs, hvs, -⟩ := hrefused hvalid
    cases h.symm.trans hvs
  · rintro ⟨vs, hvs, -⟩ hvalid
    cases (parse_text_of_valid hvalid file).symm.trans hvs

end ModBuild.Settings
