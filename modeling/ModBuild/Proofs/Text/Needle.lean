import ModBuild.Proofs.Text.Cut
import ModBuild.Proofs.Text.Infix

/-!
# Needles that end in a character of their own

A needle `w ++ [q]` cannot end in text without `q`, so such text behind the needle changes nothing
about it. If `q` is nowhere else in the needle, two places of the needle do not overlap.
-/

namespace ModBuild.Text

set_option autoImplicit false

variable {w cs a b r : List Char} {q : Char}

/-- What has not the last character of a needle cannot take part in it. -/
theorem prefix_append_iff_of_not_mem (h : q ∉ r) : w ++ [q] <+: a ++ r ↔ w ++ [q] <+: a := by
  constructor
  · intro hw
    rcases List.prefix_or_prefix_of_prefix hw (List.prefix_append a r) with hp | ⟨t, ht⟩
    · exact hp
    · rw [← ht, List.prefix_append_right_inj] at hw
      cases t using List.reverseRecOn with
      | nil =>
        rw [← ht, List.append_nil]
      | append_singleton t c _ =>
        rw [← List.append_assoc] at ht
        have hc : c = q := List.singleton_inj.mp (List.append_inj' ht rfl).2
        subst c
        exact absurd (hw.subset (by simp)) h
  · intro hw
    exact hw.trans (List.prefix_append a r)

theorem infix_append_iff_of_not_mem (h : q ∉ r) : w ++ [q] <:+: a ++ r ↔ w ++ [q] <:+: a := by
  induction a with
  | nil =>
    have hr : ¬ w ++ [q] <:+: r := fun hw => h (hw.subset (by simp))
    simp [hr]
  | cons c a ih =>
    rw [List.cons_append, List.infix_cons_iff, List.infix_cons_iff, ih, ← List.cons_append,
      prefix_append_iff_of_not_mem h]

/-- A needle with a last character of its own stands where it is found first, or it stands behind that
place and does not reach back into it. -/
theorem eq_or_behind_of_cut? {before after : List Char} (h : q ∉ w)
    (hcut : cut? (w ++ [q]) cs = some (a, b)) (hcs : cs = before ++ w ++ q :: after) :
    (before = a ∧ after = b) ∨ ∃ z, before = a ++ w ++ q :: z ∧ b = z ++ w ++ q :: after := by
  have hno := not_infix_of_cut? (by simp) hcut
  have hsame : (a ++ w) ++ q :: b = (before ++ w) ++ q :: after := by
    rw [← hcs, eq_of_cut? hcut]
    simp
  have hends : ∀ x y e : List Char, x ++ w = y ++ w ++ q :: e →
      ∃ z, e = z ++ w ∧ x = y ++ w ++ q :: z := by
    intro x y e he
    have hsuffix : w <:+ y ++ w ++ q :: e := ⟨x, he⟩
    obtain ⟨z, rfl⟩ := (suffix_append_cons_iff h).mp hsuffix
    refine ⟨z, rfl, ?_⟩
    have hwhole : x ++ w = y ++ w ++ q :: z ++ w := by simpa using he
    exact List.append_cancel_right hwhole
  rcases List.append_eq_append_iff.mp hsame with ⟨c, hc, hrest⟩ | ⟨c, hc, hrest⟩
  · cases c with
    | nil =>
      rw [List.append_nil] at hc
      exact Or.inl ⟨List.append_cancel_right hc, (List.cons_inj_right q).mp hrest.symm⟩
    | cons x e =>
      obtain ⟨rfl, rfl⟩ := List.cons.inj hrest
      obtain ⟨z, rfl, rfl⟩ := hends before a e hc
      exact Or.inr ⟨z, rfl, rfl⟩
  · cases c with
    | nil =>
      rw [List.append_nil] at hc
      exact Or.inl ⟨(List.append_cancel_right hc).symm, (List.cons_inj_right q).mp hrest⟩
    | cons x e =>
      obtain ⟨rfl, rfl⟩ := List.cons.inj hrest
      obtain ⟨z, rfl, rfl⟩ := hends a before e hc
      exact absurd ⟨before, z, by simp⟩ hno

theorem cut?_append_of_not_mem (h : q ∉ r) (cs : List Char) :
    cut? (w ++ [q]) (cs ++ r) = (cut? (w ++ [q]) cs).map fun x => (x.1, x.2 ++ r) := by
  induction cs with
  | nil =>
    have hr : ¬ w ++ [q] <:+: r := fun hw => h (hw.subset (by simp))
    rw [List.nil_append, (cut?_eq_none_iff (by simp)).mpr hr]
    simp [cut?]
  | cons c cs ih =>
    have hstart : (w ++ [q]).isPrefixOf (c :: cs ++ r) = (w ++ [q]).isPrefixOf (c :: cs) := by
      rw [Bool.eq_iff_iff, List.isPrefixOf_iff_prefix, List.isPrefixOf_iff_prefix,
        prefix_append_iff_of_not_mem h]
    rw [List.cons_append] at hstart
    rw [List.cons_append, cut?, cut?, hstart, ih]
    split
    · next hp =>
      have hlength := (List.isPrefixOf_iff_prefix.mp hp).length_le
      rw [← List.cons_append, List.drop_append_of_le_length hlength]
      rfl
    · cases cut? (w ++ [q]) cs <;> rfl

end ModBuild.Text
