import Mathlib.Data.String.Basic
import ModBuild.Proofs.Json.Document

/-!
# Fields of a document

Fields are put into an object one after the other, each at the place of its key. The keys end up in
strict order (`pairwise_settledFields`), and each key has the last value that is written for it
(`lookup_settledFields`).
-/

namespace ModBuild.Json

set_option autoImplicit false

/-- The last value that is written for a key. -/
def last? (key : String) (fields : List (String × Json)) : Option Json := fields.reverse.lookup key

section
variable {key k : String} {value : Json} {fields done : List (String × Json)}

theorem lookup_cons_eq {field : String × Json} :
    (field :: fields).lookup key = if key = field.1 then some field.2 else fields.lookup key := by
  rw [List.lookup_cons]
  by_cases h : key = field.1
  · rw [if_pos h, beq_iff_eq.mpr h]
  · rw [if_neg h, beq_false_of_ne h]

theorem lookup_insertField :
    (insertField k value done).lookup key = if key = k then some value else done.lookup key := by
  induction done with
  | nil => simp [insertField, lookup_cons_eq]
  | cons field done ih =>
    obtain ⟨k', v'⟩ := field
    rw [insertField]
    by_cases hlt : k < k'
    · rw [if_pos hlt, lookup_cons_eq]
    · rw [if_neg hlt]
      by_cases heq : k = k'
      · subst heq
        rw [if_pos rfl, lookup_cons_eq, lookup_cons_eq]
        split <;> rfl
      · rw [if_neg heq, lookup_cons_eq, lookup_cons_eq, ih]
        by_cases hkey : key = k'
        · rw [if_pos hkey, if_neg fun h => heq (h.symm.trans hkey), if_pos hkey]
        · rw [if_neg hkey, if_neg hkey]

theorem mem_keys_insertField :
    key ∈ (insertField k value done).map (·.1) ↔ key = k ∨ key ∈ done.map (·.1) := by
  induction done with
  | nil => simp [insertField]
  | cons field done ih =>
    obtain ⟨k', v'⟩ := field
    rw [insertField]
    by_cases hlt : k < k'
    · rw [if_pos hlt]
      exact List.mem_cons
    · rw [if_neg hlt]
      by_cases heq : k = k'
      · simp [heq]
      · rw [if_neg heq, List.map_cons, List.mem_cons, ih, List.map_cons, List.mem_cons]
        exact or_left_comm

theorem pairwise_insertField (h : (done.map (·.1)).Pairwise (· < ·)) :
    ((insertField k value done).map (·.1)).Pairwise (· < ·) := by
  induction done with
  | nil => exact List.pairwise_singleton _ _
  | cons field done ih =>
    obtain ⟨k', v'⟩ := field
    obtain ⟨hfirst, hrest⟩ := List.pairwise_cons.mp h
    rw [insertField]
    by_cases hlt : k < k'
    · rw [if_pos hlt, List.map_cons, List.pairwise_cons]
      refine ⟨fun x hx => ?_, h⟩
      rcases List.mem_cons.mp hx with rfl | hx
      · exact hlt
      · exact lt_trans hlt (hfirst x hx)
    · rw [if_neg hlt]
      by_cases heq : k = k'
      · rw [if_pos heq, heq]
        exact h
      · rw [if_neg heq, List.map_cons, List.pairwise_cons]
        refine ⟨fun x hx => ?_, ih hrest⟩
        rcases mem_keys_insertField.mp hx with rfl | hx
        · exact lt_of_le_of_ne (not_lt.mp hlt) (Ne.symm heq)
        · exact hfirst x hx

theorem last?_cons {field : String × Json} :
    last? key (field :: fields) =
      (last? key fields).or (if key = field.1 then some field.2 else none) := by
  rw [last?, List.reverse_cons, List.lookup_append, lookup_cons_eq]
  rfl

theorem lookup_settledFields :
    (settledFields fields done).lookup key =
      ((last? key fields).map settled).or (done.lookup key) := by
  induction fields generalizing done with
  | nil => simp [settledFields, last?]
  | cons field fields ih =>
    obtain ⟨k, v⟩ := field
    rw [settledFields, ih, lookup_insertField, last?_cons]
    cases last? key fields with
    | some value => simp
    | none => by_cases hkey : key = k <;> simp [hkey]

theorem mem_keys_settledFields :
    key ∈ (settledFields fields done).map (·.1) ↔
      key ∈ fields.map (·.1) ∨ key ∈ done.map (·.1) := by
  induction fields generalizing done with
  | nil => simp [settledFields]
  | cons field fields ih =>
    obtain ⟨k, v⟩ := field
    rw [settledFields, ih, mem_keys_insertField, List.map_cons, List.mem_cons, or_assoc]
    exact or_left_comm

theorem pairwise_settledFields (h : (done.map (·.1)).Pairwise (· < ·)) :
    ((settledFields fields done).map (·.1)).Pairwise (· < ·) := by
  induction fields generalizing done with
  | nil => exact h
  | cons field fields ih => exact ih (pairwise_insertField h)

end

theorem settledItems_eq_map (items : List Json) : settledItems items = items.map settled := by
  induction items with
  | nil => rfl
  | cons item items ih => rw [settledItems, ih, List.map_cons]

end ModBuild.Json
