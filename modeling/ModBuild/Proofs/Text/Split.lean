import ModBuild.Text.Basic

/-!
# Splitting at a separator

At a separator a text falls into two texts that are split apart from each other (`split_append_sep`),
and no part holds a separator. Parts without a separator survive being joined and split again.
-/

namespace ModBuild.Text

set_option autoImplicit false

theorem split_append_sep (sep : Char) (a b : List Char) :
    split sep (a ++ sep :: b) = split sep a ++ split sep b := by
  induction a with
  | nil => simp [split]
  | cons c a ih =>
    by_cases hc : c = sep
    · simp [split, hc, ih]
    · simp only [List.cons_append, split, if_neg hc, ih]
      cases h : split sep a with
      | nil => exact absurd h (split_ne_nil sep a)
      | cons part parts => rfl

theorem split_of_not_mem {sep : Char} {cs : List Char} (h : sep ∉ cs) : split sep cs = [cs] := by
  induction cs with
  | nil => rfl
  | cons c cs ih =>
    have hc : c ≠ sep := fun hc => h (hc ▸ List.mem_cons_self)
    simp only [split, if_neg hc, ih fun hm => h (List.mem_cons_of_mem c hm)]

theorem not_mem_of_mem_split {sep : Char} {cs part : List Char} (h : part ∈ split sep cs) :
    sep ∉ part := by
  induction cs generalizing part with
  | nil =>
    rw [split, List.mem_singleton] at h
    simp [h]
  | cons c cs ih =>
    by_cases hc : c = sep
    · rw [split, if_pos hc, List.mem_cons] at h
      rcases h with rfl | h
      · simp
      · exact ih h
    · rw [split, if_neg hc] at h
      cases hs : split sep cs with
      | nil => exact absurd hs (split_ne_nil sep cs)
      | cons first parts =>
        rw [hs] at h ih
        rcases List.mem_cons.mp h with rfl | h
        · simpa [Ne.symm hc] using ih List.mem_cons_self
        · exact ih (List.mem_cons_of_mem first h)

theorem joinWith_cons_cons (sep part next : List Char) (parts : List (List Char)) :
    joinWith sep (part :: next :: parts) = part ++ sep ++ joinWith sep (next :: parts) := rfl

theorem split_joinWith {sep : Char} {parts : List (List Char)} (hne : parts ≠ [])
    (h : ∀ part ∈ parts, sep ∉ part) : split sep (joinWith [sep] parts) = parts := by
  induction parts with
  | nil => exact absurd rfl hne
  | cons part parts ih =>
    have hpart := split_of_not_mem (h part List.mem_cons_self)
    cases parts with
    | nil => exact hpart
    | cons next parts =>
      have hrest := ih (by simp) fun q hq => h q (List.mem_cons_of_mem part hq)
      rw [joinWith_cons_cons, List.append_assoc, List.singleton_append, split_append_sep, hpart, hrest,
        List.singleton_append]

theorem joinWith_eq_intercalate (sep : List Char) (parts : List (List Char)) :
    joinWith sep parts = sep.intercalate parts := by
  induction parts with
  | nil => rfl
  | cons part parts ih =>
    cases parts with
    | nil => rw [joinWith, List.intercalate_singleton]
    | cons next parts => rw [joinWith_cons_cons, List.intercalate_cons_cons, ih]

theorem mem_joinWith {sep : List Char} {parts : List (List Char)} {c : Char}
    (h : c ∈ joinWith sep parts) : c ∈ sep ∨ ∃ part ∈ parts, c ∈ part := by
  induction parts with
  | nil => cases h
  | cons part parts ih =>
    cases parts with
    | nil => exact Or.inr ⟨part, List.mem_cons_self, h⟩
    | cons next parts =>
      rw [joinWith_cons_cons, List.mem_append, List.mem_append] at h
      rcases h with (h | h) | h
      · exact Or.inr ⟨part, List.mem_cons_self, h⟩
      · exact Or.inl h
      · rcases ih h with hsep | ⟨q, hq, hc⟩
        · exact Or.inl hsep
        · exact Or.inr ⟨q, List.mem_cons_of_mem part hq, hc⟩

theorem subset_joinWith {sep part : List Char} {parts : List (List Char)} (h : part ∈ parts) :
    part ⊆ joinWith sep parts := by
  induction parts with
  | nil => cases h
  | cons first parts ih =>
    cases parts with
    | nil =>
      rw [List.mem_singleton.mp h]
      exact List.Subset.refl first
    | cons next parts =>
      rw [joinWith_cons_cons]
      rcases List.mem_cons.mp h with rfl | h
      · exact fun c hc => List.mem_append_left _ (List.mem_append_left _ hc)
      · exact fun c hc => List.mem_append_right _ (ih h hc)

theorem subset_of_mem_split {sep : Char} {cs part : List Char} (h : part ∈ split sep cs) :
    part ⊆ cs := by
  have hsubset : part ⊆ joinWith [sep] (split sep cs) := subset_joinWith h
  rwa [joinWith_split] at hsubset

theorem map_joinWith {f : Char → Char} {parts : List (List Char)}
    (h : ∀ part ∈ parts, ∀ c ∈ part, f c = c) (sep : List Char) :
    (joinWith sep parts).map f = joinWith (sep.map f) parts := by
  induction parts with
  | nil => rfl
  | cons part parts ih =>
    have hpart : part.map f = part := by
      simpa using List.map_congr_left (g := id) (h part List.mem_cons_self)
    have hrest := ih fun q hq => h q (List.mem_cons_of_mem part hq)
    cases parts with
    | nil => exact hpart
    | cons next parts =>
      rw [joinWith_cons_cons, joinWith_cons_cons, List.map_append, List.map_append, hpart, hrest]

theorem exists_split_append (sep : Char) (a : List Char) :
    ∃ init last, split sep a = init ++ [last] ∧
      ∀ b, sep ∉ b → split sep (a ++ b) = init ++ [last ++ b] := by
  induction a with
  | nil => exact ⟨[], [], rfl, fun b h => split_of_not_mem h⟩
  | cons c a ih =>
    obtain ⟨init, last, ha, hab⟩ := ih
    by_cases hc : c = sep
    · refine ⟨[] :: init, last, ?_, fun b h => ?_⟩
      · rw [split, if_pos hc, ha, List.cons_append]
      · rw [List.cons_append, split, if_pos hc, hab b h, List.cons_append]
    · cases init with
      | nil =>
        exact ⟨[], c :: last, by simp [split, hc, ha], fun b h => by simp [split, hc, hab b h]⟩
      | cons part init =>
        exact ⟨(c :: part) :: init, last, by simp [split, hc, ha],
          fun b h => by simp [split, hc, hab b h]⟩

theorem head?_split_append_sep (sep : Char) (a b : List Char) :
    (split sep (a ++ sep :: b)).head? = (split sep a).head? := by
  obtain ⟨part, parts, h⟩ := List.exists_cons_of_ne_nil (split_ne_nil sep a)
  rw [split_append_sep, h, List.cons_append, List.head?_cons, List.head?_cons]

end ModBuild.Text
