import Mathlib.Data.List.Nodup
import Mathlib.Data.List.Sort
import ModBuild.Proofs.Json.Fields
import ModBuild.Proofs.Settings.Reading

/-!
# Validated settings

The schema and the reader describe the same documents. A document that conforms is read, and each
key has the value that stands last in the document or its default; any other document is refused
with one violation for each place that is wrong (`parse_outcome`).
-/

namespace ModBuild

set_option autoImplicit false

/-- A letter or underscore, and then letters, digits and underscores. -/
def Settings.IsIdentifier (text : String) : Prop :=
  ∃ c cs, text.toList = c :: cs ∧ (c.isAlpha ∨ c = '_') ∧ ∀ d ∈ cs, d.isAlphanum ∨ d = '_'

namespace Shape

/-- The values of a shape. -/
inductive Allows : Shape → Json → Prop
  | text {t : String} : t ≠ "" → Allows text (.string t)
  | name {t : String} : Settings.IsIdentifier t → Allows name (.string t)
  | texts {items : List Json} : (∀ item ∈ items, ∃ t, item = .string t ∧ t ≠ "") →
      Allows texts (.array items)

/-- What is wrong with a value at a place. A value is shown as it is read. -/
inductive Refuses : Shape → List String → Json → Violation → Prop
  | noText {shape : Shape} {place : List String} {j : Json} : shape ≠ texts → (∀ t, j ≠ .string t) →
      Refuses shape place j (.wrongType place j.settled "string")
  | empty {place : List String} : Refuses text place (.string "") (.empty place)
  | noName {place : List String} {t : String} : ¬ Settings.IsIdentifier t →
      Refuses name place (.string t) (.noName place t)
  | noList {place : List String} {j : Json} : (∀ items, j ≠ .array items) →
      Refuses texts place j (.wrongType place j.settled "array")
  | item {place : List String} {items : List Json} {i : Nat} {item : Json} {v : Violation} :
      items[i]? = some item → Refuses text (place ++ [Text.decimal i]) item v →
      Refuses texts place (.array items) v

end Shape

namespace Settings

/-- The document is an object with known keys alone, each with a value of its shape. -/
inductive Conforms : Json → Prop
  | object {fields : List (String × Json)} : (∀ field ∈ fields, field.1 ∈ keys) →
      (∀ key shape, (key, shape) ∈ schema → ∀ value ∈ Json.last? key fields, shape.Allows value) →
      Conforms (.object fields)

/-- What is wrong with an object: a value, or the keys that nobody knows. -/
inductive Breaks (fields : List (String × Json)) : Violation → Prop
  | value {key : String} {shape : Shape} {value : Json} {v : Violation} : (key, shape) ∈ schema →
      Json.last? key fields = some value → shape.Refuses [key] value v → Breaks fields v
  | unknown {unknown : List String} : unknown ≠ [] → unknown.Pairwise (· < ·) →
      (∀ key, key ∈ unknown ↔ key ∈ fields.map (·.1) ∧ key ∉ keys) →
      Breaks fields (.unknownKeys unknown)

end Settings

/-- The place that a violation names; unknown keys are named for the whole document. -/
def Violation.place : Violation → List String
  | wrongType place _ _ => place
  | empty place => place
  | noName place _ => place
  | unknownKeys _ => []

namespace Settings

/-- The violations of a document: everything that is wrong with it, each place named once. -/
inductive Reports : Json → List Violation → Prop
  | object {fields : List (String × Json)} {vs : List Violation} : (∀ v, v ∈ vs ↔ Breaks fields v) →
      (vs.map Violation.place).Nodup → Reports (.object fields) vs
  | other {j : Json} : (∀ fields, j ≠ .object fields) →
      Reports j [.wrongType [] j.settled "object"]

/-- Each key has its last value in the document, or its default. -/
inductive Takes (s : Settings) : Json → Prop
  | object {fields : List (String × Json)} :
      (∀ key ∈ keys, s.value? key = (Json.last? key fields).or (({} : Settings).value? key)) →
      Takes s (.object fields)

end Settings

namespace Shape

section
variable {place : List String} {j : Json}

theorem exists_string_of_not_refuses {shape : Shape} (hshape : shape ≠ .texts)
    (h : ∀ v, ¬ shape.Refuses place j v) : ∃ t, j = .string t := by
  by_contra hno
  exact h _ (.noText hshape (not_exists.mp hno))

theorem exists_text_of_not_refuses (h : ∀ v, ¬ text.Refuses place j v) :
    ∃ t, j = .string t ∧ t ≠ "" := by
  obtain ⟨t, rfl⟩ := exists_string_of_not_refuses (by decide) h
  refine ⟨t, rfl, ?_⟩
  rintro rfl
  exact h _ .empty

theorem allows_iff (place : List String) {shape : Shape} :
    shape.Allows j ↔ ∀ v, ¬ shape.Refuses place j v := by
  constructor
  · rintro (hne | hname | hitems) v h
    · cases h with
      | noText _ hno => exact hno _ rfl
      | empty => exact hne rfl
    · cases h with
      | noText _ hno => exact hno _ rfl
      | noName hno => exact hno hname
    · cases h with
      | noText hshape _ => exact hshape rfl
      | noList hno => exact hno _ rfl
      | item hitem h =>
        obtain ⟨t, rfl, hne⟩ := hitems _ (List.mem_of_getElem? hitem)
        cases h with
        | noText _ hno => exact hno _ rfl
        | empty => exact hne rfl
  · intro h
    cases shape with
    | text =>
      obtain ⟨t, rfl, hne⟩ := exists_text_of_not_refuses h
      exact .text hne
    | name =>
      obtain ⟨t, rfl⟩ := exists_string_of_not_refuses (by decide) h
      exact .name (by_contra fun hname => h _ (.noName hname))
    | texts =>
      obtain ⟨items, rfl⟩ : ∃ items, j = .array items :=
        by_contra fun hno => h _ (.noList (not_exists.mp hno))
      refine .texts fun item hmem => ?_
      obtain ⟨i, hitem⟩ := List.mem_iff_getElem?.mp hmem
      exact exists_text_of_not_refuses fun v hv => h v (.item hitem hv)

theorem Allows.settled_eq {shape : Shape} (h : shape.Allows j) : j.settled = j := by
  cases h with
  | text _ | name _ => rfl
  | @texts items hitems =>
    rw [Json.settled, Json.settledItems_eq_map]
    have hself : items.map Json.settled = items.map id := by
      refine List.map_congr_left fun item hitem => ?_
      obtain ⟨t, rfl, -⟩ := hitems item hitem
      rfl
    rw [hself, List.map_id]

end

end Shape

theorem Json.settled_eq_string_iff {j : Json} {t : String} :
    j.settled = .string t ↔ j = .string t := by
  cases j <;> simp [Json.settled]

theorem Text.decimal_injective {m n : Nat} (h : Text.decimal m = Text.decimal n) : m = n := by
  have hdigits : Nat.toDigits 10 m = Nat.toDigits 10 n := String.ofList_injective h
  rw [← Nat.ofDigitChars_ten_toDigits (n := m), hdigits, Nat.ofDigitChars_ten_toDigits]

namespace Settings

theorem isName_iff {t : String} : isName t = true ↔ IsIdentifier t := by
  unfold isName IsIdentifier
  cases ht : t.toList with
  | nil => simp
  | cons c cs => simp [Text.isNameStart, Text.isNameChar]

section
variable {place : List String} {j : Json} {v : Violation}

theorem mem_textViolations_iff :
    v ∈ textViolations place j.settled ↔ Shape.text.Refuses place j v := by
  constructor
  · intro h
    unfold textViolations at h
    split at h
    · next t ht =>
      split at h
      · next hempty =>
        rw [List.mem_singleton.mp h, Json.settled_eq_string_iff.mp ht, hempty]
        exact .empty
      · cases h
    · next hne =>
      rw [List.mem_singleton.mp h]
      exact .noText (by simp) fun t ht => hne t (Json.settled_eq_string_iff.mpr ht)
  · rintro (⟨-, hne⟩ | _)
    · unfold textViolations
      split
      · next t ht => exact absurd (Json.settled_eq_string_iff.mp ht) (hne t)
      · exact List.mem_singleton.mpr rfl
    · simp [Json.settled, textViolations]

theorem mem_nameViolations_iff :
    v ∈ nameViolations place j.settled ↔ Shape.name.Refuses place j v := by
  constructor
  · intro h
    unfold nameViolations at h
    split at h
    · next t ht =>
      split at h
      · cases h
      · next hname =>
        rw [List.mem_singleton.mp h, Json.settled_eq_string_iff.mp ht]
        exact .noName fun hn => hname (isName_iff.mpr hn)
    · next hne =>
      rw [List.mem_singleton.mp h]
      exact .noText (by simp) fun t ht => hne t (Json.settled_eq_string_iff.mpr ht)
  · rintro (⟨-, hne⟩ | _ | hname)
    · unfold nameViolations
      split
      · next t ht => exact absurd (Json.settled_eq_string_iff.mp ht) (hne t)
      · exact List.mem_singleton.mpr rfl
    · simp [Json.settled, nameViolations, isName_iff, hname]

theorem mem_violationsOf_iff {shape : Shape} :
    v ∈ violationsOf place shape j.settled ↔ shape.Refuses place j v := by
  cases shape with
  | text => exact mem_textViolations_iff
  | name => exact mem_nameViolations_iff
  | texts =>
    cases j with
    | array items =>
      have hitems : v ∈ violationsOf place .texts (Json.array items).settled ↔
          ∃ i item, items[i]? = some item ∧
            v ∈ textViolations (place ++ [Text.decimal i]) item.settled := by
        simp only [Json.settled, Json.settledItems_eq_map, violationsOf, List.mem_flatMap,
          Prod.exists, List.mk_mem_zipIdx_iff_getElem?, List.getElem?_map, Option.map_eq_some_iff]
        constructor
        · rintro ⟨_, i, ⟨item, hitem, rfl⟩, h⟩
          exact ⟨i, item, hitem, h⟩
        · rintro ⟨i, item, hitem, h⟩
          exact ⟨item.settled, i, ⟨item, hitem, rfl⟩, h⟩
      rw [hitems]
      constructor
      · rintro ⟨i, item, hitem, h⟩
        exact .item hitem (mem_textViolations_iff.mp h)
      · rintro (⟨hne, -⟩ | _ | _ | hno | ⟨hitem, h⟩)
        · exact absurd rfl hne
        · exact absurd rfl (hno items)
        · exact ⟨_, _, hitem, mem_textViolations_iff.mpr h⟩
    | _ =>
      simp only [Json.settled, violationsOf, List.mem_singleton]
      constructor
      · rintro rfl
        exact .noList (by simp)
      · rintro (⟨hne, -⟩ | _ | _ | _)
        · exact absurd rfl hne
        · rfl

end

section
variable {place : List String} {j : Json}

theorem places_textViolations : ((textViolations place j).map Violation.place).Sublist [place] := by
  unfold textViolations
  split
  · split <;> simp [Violation.place]
  · exact List.Sublist.refl _

theorem places_nameViolations : ((nameViolations place j).map Violation.place).Sublist [place] := by
  unfold nameViolations
  split
  · split <;> simp [Violation.place]
  · exact List.Sublist.refl _

theorem nodup_flatMap_places {α : Type} {l : List α} {f : α → List (List String)}
    {g : α → List String} (hplaces : ∀ a ∈ l, (f a).Nodup ∧ ∀ p ∈ f a, g a <+: p)
    (hlength : ∀ a b, (g a).length = (g b).length) (hapart : l.Pairwise fun a b => g a ≠ g b) :
    (l.flatMap f).Nodup := by
  rw [List.nodup_flatMap]
  refine ⟨fun a ha => (hplaces a ha).1, hapart.imp_of_mem fun {a b} ha hb hne p hp hp' => hne ?_⟩
  exact (List.prefix_of_prefix_length_le ((hplaces a ha).2 p hp) ((hplaces b hb).2 p hp')
    (hlength a b).le).eq_of_length (hlength a b)

theorem places_of_sublist {ps : List (List String)} (h : ps.Sublist [place]) :
    ps.Nodup ∧ ∀ p ∈ ps, place <+: p :=
  ⟨(List.nodup_singleton place).sublist h,
    fun _ hp => List.mem_singleton.mp (h.subset hp) ▸ List.prefix_refl place⟩

theorem places_violationsOf {shape : Shape} :
    ((violationsOf place shape j).map Violation.place).Nodup ∧
      ∀ p ∈ (violationsOf place shape j).map Violation.place, place <+: p := by
  cases shape with
  | text => exact places_of_sublist places_textViolations
  | name => exact places_of_sublist places_nameViolations
  | texts =>
    cases j with
    | array items =>
      rw [violationsOf, List.map_flatMap]
      constructor
      · refine nodup_flatMap_places (g := fun entry => place ++ [Text.decimal entry.2])
          (fun entry _ => places_of_sublist places_textViolations) (by simp) ?_
        have hindex : (items.zipIdx.map Prod.snd).Nodup := by
          rw [List.zipIdx_map_snd]
          exact List.nodup_range'
        refine (List.pairwise_map.mp hindex).imp fun hne h => hne ?_
        exact Text.decimal_injective (List.singleton_inj.mp (List.append_cancel_left h))
      · intro p hp
        obtain ⟨entry, -, hp⟩ := List.mem_flatMap.mp hp
        exact (List.prefix_append place _).trans ((places_of_sublist places_textViolations).2 p hp)
    | _ => exact places_of_sublist (List.Sublist.refl _)

end

section
variable {fields : List (String × Json)} {key : String} {v : Violation}

theorem mem_keys_iff : key ∈ keys ↔ ∃ shape, (key, shape) ∈ schema := by
  have hkeys : ∀ key ∈ keys, ∃ field ∈ schema, field.1 = key := by decide
  have hschema : ∀ field ∈ schema, field.1 ∈ keys := by decide
  constructor
  · intro h
    obtain ⟨⟨_, shape⟩, hmem, rfl⟩ := hkeys key h
    exact ⟨shape, hmem⟩
  · rintro ⟨shape, h⟩
    exact hschema (key, shape) h

theorem isNone_lookup_schema_iff : (schema.lookup key).isNone = true ↔ key ∉ keys := by
  rw [Option.isNone_iff_eq_none, List.lookup_eq_none_iff, mem_keys_iff, not_exists]
  constructor
  · rintro h shape hmem
    simpa using h (key, shape) hmem
  · rintro h ⟨key', shape⟩ hmem
    refine bne_iff_ne.mpr ?_
    rintro rfl
    exact h shape hmem

theorem lookup_settled :
    (Json.settledFields fields []).lookup key = (Json.last? key fields).map Json.settled := by
  simp [Json.lookup_settledFields]

theorem mem_keyViolations_iff {entry : String × Shape} :
    v ∈ keyViolations (Json.settledFields fields []) entry ↔
      ∃ value, Json.last? entry.1 fields = some value ∧ entry.2.Refuses [entry.1] value v := by
  unfold keyViolations
  rw [lookup_settled]
  cases Json.last? entry.1 fields with
  | none => simp
  | some value => simp [mem_violationsOf_iff]

theorem mem_unknownKeys_settled :
    key ∈ unknownKeys (Json.settledFields fields []) ↔ key ∈ fields.map (·.1) ∧ key ∉ keys := by
  rw [unknownKeys, List.mem_filter, isNone_lookup_schema_iff, Json.mem_keys_settledFields]
  simp

theorem pairwise_unknownKeys_settled :
    (unknownKeys (Json.settledFields fields [])).Pairwise (· < ·) :=
  (Json.pairwise_settledFields .nil).filter _

theorem mem_violations_iff :
    v ∈ violations (Json.object fields).settled ↔ Breaks fields v := by
  rw [Json.settled, violations, List.mem_append]
  constructor
  · rintro (hv | hv)
    · obtain ⟨⟨key, shape⟩, hmem, hv⟩ := List.mem_flatMap.mp hv
      obtain ⟨value, hvalue, hv⟩ := mem_keyViolations_iff.mp hv
      exact .value hmem hvalue hv
    · split at hv
      · cases hv
      · next hne =>
        rw [List.mem_singleton.mp hv]
        exact .unknown (by simpa using hne) pairwise_unknownKeys_settled
          fun key => mem_unknownKeys_settled
  · rintro (⟨hmem, hvalue, hv⟩ | ⟨hne, hsorted, hunknown⟩)
    · exact Or.inl (List.mem_flatMap.mpr ⟨_, hmem, mem_keyViolations_iff.mpr ⟨_, hvalue, hv⟩⟩)
    · have heq := hsorted.eq_of_mem_iff pairwise_unknownKeys_settled
        fun key => (hunknown key).trans mem_unknownKeys_settled.symm
      rw [← heq]
      exact Or.inr (by simp [hne])

theorem nodup_violations (j : Json) : ((violations j).map Violation.place).Nodup := by
  unfold violations
  split
  · next fields =>
    have hkeys : schema.Pairwise fun a b => [a.1] ≠ [b.1] := by decide
    have hplaces : ∀ entry ∈ schema, ((keyViolations fields entry).map Violation.place).Nodup ∧
        ∀ p ∈ (keyViolations fields entry).map Violation.place, [entry.1] <+: p := by
      intro entry _
      unfold keyViolations
      split
      · exact places_violationsOf
      · simp
    dsimp only
    rw [List.map_append, List.map_flatMap, List.nodup_append]
    refine ⟨nodup_flatMap_places hplaces (fun _ _ => rfl) hkeys, ?_, ?_⟩
    · split <;> simp
    · intro p hp p' hp'
      obtain ⟨entry, hentry, hp⟩ := List.mem_flatMap.mp hp
      obtain ⟨rest, rfl⟩ := (hplaces entry hentry).2 p hp
      split at hp'
      · cases hp'
      · rw [List.map_singleton, List.mem_singleton] at hp'
        subst hp'
        exact List.cons_ne_nil _ _
  · simp

end

theorem reports_violations (j : Json) : Reports j (violations j.settled) := by
  by_cases hobject : ∃ fields, j = .object fields
  · obtain ⟨fields, rfl⟩ := hobject
    exact .object (fun v => mem_violations_iff) (nodup_violations _)
  · have hother : violations j.settled = [.wrongType [] j.settled "object"] := by
      cases j with
      | object fields => exact absurd ⟨fields, rfl⟩ hobject
      | _ => rfl
    rw [hother]
    exact .other (not_exists.mp hobject)

theorem conforms_object_iff {fields : List (String × Json)} :
    Conforms (.object fields) ↔ ∀ v, ¬ Breaks fields v := by
  constructor
  · rintro ⟨hkeys, hallows⟩ v (⟨hmem, hvalue, hv⟩ | ⟨hne, -, hunknown⟩)
    · exact (Shape.allows_iff [_]).mp (hallows _ _ hmem _ hvalue) v hv
    · obtain ⟨key, unknown, rfl⟩ := List.exists_cons_of_ne_nil hne
      obtain ⟨hwritten, hno⟩ := (hunknown key).mp List.mem_cons_self
      obtain ⟨field, hfield, rfl⟩ := List.mem_map.mp hwritten
      exact hno (hkeys field hfield)
  · intro h
    refine .object (fun field hfield => ?_) fun key shape hmem value hvalue => ?_
    · by_contra hno
      have hunknown : field.1 ∈ unknownKeys (Json.settledFields fields []) :=
        mem_unknownKeys_settled.mpr ⟨List.mem_map.mpr ⟨field, hfield, rfl⟩, hno⟩
      exact h _ (.unknown (List.ne_nil_of_mem hunknown) pairwise_unknownKeys_settled
        fun key => mem_unknownKeys_settled)
    · exact (Shape.allows_iff [key]).mpr fun v hv => h v (.value hmem hvalue hv)

/-- The documents without violations. -/
theorem conforms_iff (j : Json) : Conforms j ↔ violations j.settled = [] := by
  cases j with
  | object fields =>
    rw [conforms_object_iff, List.eq_nil_iff_forall_not_mem]
    exact forall_congr' fun v => not_congr mem_violations_iff.symm
  | _ => constructor <;> intro h <;> cases h

theorem exists_string_of_allows {key : String} {shape : Shape} {value : Json}
    (hmem : (key, shape) ∈ schema) (hne : key ≠ "runtimeLibraries") (h : shape.Allows value) :
    ∃ t, value = .string t := by
  have hschema : ∀ entry ∈ schema, entry.1 ≠ "runtimeLibraries" → entry.2 ≠ .texts := by decide
  cases h with
  | text _ | name _ => exact ⟨_, rfl⟩
  | texts _ => exact absurd rfl (hschema _ hmem hne)

theorem exists_strings_of_allows {value : Json} (h : Shape.texts.Allows value) :
    ∃ ts : List String, value = .array (ts.map .string) := by
  cases h with
  | @texts items hitems =>
  induction items with
  | nil => exact ⟨[], rfl⟩
  | cons item items ih =>
    obtain ⟨t, rfl, -⟩ := hitems item List.mem_cons_self
    obtain ⟨ts, hts⟩ := ih fun next hnext => hitems next (List.mem_cons_of_mem _ hnext)
    cases hts
    exact ⟨t :: ts, rfl⟩

theorem lookup_settled_of_conforms {fields : List (String × Json)} (h : Conforms (.object fields))
    {key : String} (hkey : key ∈ keys) :
    (Json.settledFields fields []).lookup key = Json.last? key fields ∧
      ∀ value ∈ Json.last? key fields, ∃ shape, (key, shape) ∈ schema ∧ shape.Allows value := by
  obtain ⟨-, hallows⟩ := h
  obtain ⟨shape, hmem⟩ := mem_keys_iff.mp hkey
  have hallowed := hallows key shape hmem
  rw [lookup_settled]
  cases hlast : Json.last? key fields with
  | none => exact ⟨rfl, fun value hvalue => nomatch hvalue⟩
  | some value =>
    have hvalue := hallowed value hlast
    refine ⟨by rw [Option.map_some, hvalue.settled_eq], fun _ h => ?_⟩
    cases h
    exact ⟨shape, hmem, hvalue⟩

theorem exists_ofJson? {j : Json} (h : Conforms j) :
    ∃ s, ofJson? j.settled = some s ∧ s.Takes j := by
  cases j with
  | object fields =>
    have hlookup := fun (key : String) (hkey : key ∈ keys) => lookup_settled_of_conforms h hkey
    have hkeys : ∀ field ∈ Json.settledFields fields [], field.1 ∈ keys := by
      intro field hfield
      obtain ⟨hknown, -⟩ := h
      have hmem := Json.mem_keys_settledFields.mp (List.mem_map.mpr ⟨field, hfield, rfl⟩)
      obtain ⟨written, hwritten, hsame⟩ := List.mem_map.mp (hmem.resolve_right (by simp))
      exact hsame ▸ hknown written hwritten
    have htext : ∀ key ∈ keys, key ≠ "runtimeLibraries" →
        ∀ value ∈ (Json.settledFields fields []).lookup key, ∃ t, value = .string t := by
      intro key hkey hne value hvalue
      rw [(hlookup key hkey).1] at hvalue
      obtain ⟨shape, hmem, hallows⟩ := (hlookup key hkey).2 value hvalue
      exact exists_string_of_allows hmem hne hallows
    have htexts : ∀ value ∈ (Json.settledFields fields []).lookup "runtimeLibraries",
        ∃ ts : List String, value = .array (ts.map .string) := by
      intro value hvalue
      rw [(hlookup _ (by decide)).1] at hvalue
      obtain ⟨-, hallows⟩ := h
      exact exists_strings_of_allows (hallows _ .texts (by decide) value hvalue)
    obtain ⟨s, hs, hvalues⟩ := exists_ofFields? hkeys htext htexts
    refine ⟨s, hs, .object fun key hkey => ?_⟩
    rw [hvalues key hkey, (hlookup key hkey).1]
  | _ => cases h

section
variable {content : String} {j : Json} (file : String)

theorem parse_of_no_document (h : ¬ ∃ j, Json.Document content j) :
    parse content file = .error (.notJson file) := by
  rw [parse, Json.parse?_eq_none_iff.mpr h]

theorem parse_of_conforms (hj : Json.Document content j) (h : Conforms j) :
    ∃ s, parse content file = .ok s ∧ s.Takes j := by
  obtain ⟨s, hs, htakes⟩ := exists_ofJson? h
  refine ⟨s, ?_, htakes⟩
  rw [parse, Json.parse?_eq_some_iff.mpr ⟨j, hj, rfl⟩]
  simp only [(conforms_iff j).mp h, hs]

theorem parse_of_not_conforms (hj : Json.Document content j) (h : ¬ Conforms j) :
    ∃ vs, parse content file = .error (.invalid file vs) ∧ Reports j vs := by
  refine ⟨violations j.settled, ?_, reports_violations j⟩
  rw [parse, Json.parse?_eq_some_iff.mpr ⟨j, hj, rfl⟩]
  dsimp only
  split
  · next hnone => exact absurd ((conforms_iff j).mpr hnone) h
  · rfl

end

/-- A text that is no document is no settings file. A document is taken when it conforms, and it is
refused with its violations when it does not. -/
theorem parse_outcome (content file : String) :
    (parse content file = .error (.notJson file) ↔ ¬ ∃ j, Json.Document content j) ∧
      ∀ j, Json.Document content j →
        ((∃ s, parse content file = .ok s ∧ s.Takes j) ↔ Conforms j) ∧
        ((∃ vs, parse content file = .error (.invalid file vs) ∧ Reports j vs) ↔ ¬ Conforms j) := by
  refine ⟨⟨fun h hdocument => ?_, parse_of_no_document file⟩,
    fun j hj => ⟨⟨fun hok => ?_, ?_⟩, ?_, ?_⟩⟩
  · obtain ⟨j, hj⟩ := hdocument
    by_cases hconforms : Conforms j
    · obtain ⟨s, hs, -⟩ := parse_of_conforms file hj hconforms
      cases h.symm.trans hs
    · obtain ⟨vs, hvs, -⟩ := parse_of_not_conforms file hj hconforms
      cases h.symm.trans hvs
  · obtain ⟨s, hs, -⟩ := hok
    by_contra hconforms
    obtain ⟨vs, hvs, -⟩ := parse_of_not_conforms file hj hconforms
    cases hs.symm.trans hvs
  · exact parse_of_conforms file hj
  · rintro ⟨vs, hvs, -⟩ hconforms
    obtain ⟨s, hs, -⟩ := parse_of_conforms file hj hconforms
    cases hs.symm.trans hvs
  · exact parse_of_not_conforms file hj

end Settings

end ModBuild
