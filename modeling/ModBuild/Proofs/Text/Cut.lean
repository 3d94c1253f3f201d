import Mathlib.Data.List.Infix
import ModBuild.Text.Basic

/-!
# The first occurrence

`Text.cut?` cuts at the first occurrence of its needle, and it finds one as soon as there is one.
A needle whose last character stands nowhere else in it cannot overlap itself, so a text without the
needle, followed by the needle, is cut exactly between the two.
-/

namespace ModBuild.Text

set_option autoImplicit false

theorem cut?_eq_none_iff {needle cs : List Char} (hn : needle ≠ []) :
    cut? needle cs = none ↔ ¬ needle <:+: cs := by
  induction cs with
  | nil => simp [cut?, hn]
  | cons c cs ih =>
    simp only [cut?, List.infix_cons_iff]
    by_cases hp : needle <+: c :: cs
    · simp [List.isPrefixOf_iff_prefix.mpr hp, hp]
    · have hb : ¬ needle.isPrefixOf (c :: cs) = true := fun h => hp (List.isPrefixOf_iff_prefix.mp h)
      simp [hb, hp, ih]

theorem cut?_singleton_eq_none_iff {x : Char} {cs : List Char} :
    cut? [x] cs = none ↔ x ∉ cs := by
  rw [cut?_eq_none_iff (by simp), List.singleton_infix_iff]

theorem cut?_self_append {needle : List Char} (hn : needle ≠ []) (rest : List Char) :
    cut? needle (needle ++ rest) = some ([], rest) := by
  obtain ⟨c, w, rfl⟩ := List.exists_cons_of_ne_nil hn
  simp [cut?]

/-- The last character of a needle cannot stand inside the part of it that overlaps the text before. -/
theorem not_prefix_of_not_infix {w t r : List Char} {q : Char} (hq : q ∉ w) (ht : t ≠ [])
    (hn : ¬ w ++ [q] <:+: t) : ¬ w ++ [q] <+: t ++ (w ++ [q] ++ r) := by
  intro hp
  rcases Nat.lt_or_ge w.length t.length with hl | hl
  · have hpt : w ++ [q] <+: t :=
      List.prefix_of_prefix_length_le hp (List.prefix_append t _) (by simp; omega)
    exact hn hpt.isInfix
  · have hpos := List.length_pos_iff.mpr ht
    have hlast : (t ++ (w ++ [q] ++ r))[w.length]? = some q := by
      obtain ⟨s, hs⟩ := hp
      rw [← hs]
      simp
    rw [List.getElem?_append_right hl, List.append_assoc,
      List.getElem?_append_left (by omega)] at hlast
    exact hq (List.mem_of_getElem? hlast)

theorem cut?_append {w t r : List Char} {q : Char} (hq : q ∉ w) (hn : ¬ w ++ [q] <:+: t) :
    cut? (w ++ [q]) (t ++ (w ++ [q] ++ r)) = some (t, r) := by
  induction t with
  | nil =>
    cases w with
    | nil => simp [cut?]
    | cons a w =>
      simp [cut?]
  | cons c t ih =>
    have hp := not_prefix_of_not_infix (r := r) hq (List.cons_ne_nil c t) hn
    have hb : ¬ (w ++ [q]).isPrefixOf (c :: (t ++ (w ++ [q] ++ r))) = true :=
      fun h => hp (List.isPrefixOf_iff_prefix.mp h)
    have ht : ¬ w ++ [q] <:+: t := fun h => hn (List.infix_cons h)
    rw [List.cons_append, cut?, if_neg hb, ih ht]
    rfl

theorem cut?_singleton_append {x : Char} {t r : List Char} (h : x ∉ t) :
    cut? [x] (t ++ x :: r) = some (t, r) := by
  have hn : ¬ [] ++ [x] <:+: t := fun hi => h ((List.singleton_infix_iff _ _).mp hi)
  simpa using cut?_append (w := []) (r := r) (by simp) hn

theorem not_infix_of_cut? {needle cs a b : List Char} (hn : needle ≠ [])
    (h : cut? needle cs = some (a, b)) : ¬ needle <:+: a := by
  induction cs generalizing a b with
  | nil => simp [cut?, hn] at h
  | cons c cs ih =>
    simp only [cut?] at h
    split at h
    · cases h
      simpa using hn
    · next hp =>
      obtain ⟨⟨a', b'⟩, h', hab⟩ := Option.map_eq_some_iff.mp h
      cases hab
      rw [List.infix_cons_iff]
      rintro (hpre | hinf)
      · have hcs : c :: a' <+: c :: cs := ⟨needle ++ b', by simp [eq_of_cut? h']⟩
        exact hp (List.isPrefixOf_iff_prefix.mpr (hpre.trans hcs))
      · exact ih h' hinf

theorem not_mem_of_cut?_singleton {x : Char} {cs a b : List Char} (h : cut? [x] cs = some (a, b)) :
    x ∉ a :=
  fun hx => not_infix_of_cut? (by simp) h ((List.singleton_infix_iff x a).mpr hx)

end ModBuild.Text
