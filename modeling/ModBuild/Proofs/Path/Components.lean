import Mathlib.Data.List.Induction
import ModBuild.Path.Basic
import ModBuild.Proofs.Path.Segment

/-!
# Components of joined paths

Joining a segment below a path adds one component, whatever the path ends with. A path that was
built by joining is therefore known by its components, and two such paths below one folder are the
same only when their segments are.
-/

namespace ModBuild

set_option autoImplicit false

open SlashPath

namespace Component

/-- The component that a segment stands for. -/
def ofSegment (part : String) : Component := if part = ".." then .parent else .name part

/-- What a relative path adds to the components of a folder above it. -/
def ofText (cs : List Char) : List Component := (Text.split '/' cs).filterMap ofPart?

theorem ofPart?_of_isTrivial {part : List Char} (h : isTrivial part = true) : ofPart? part = none :=
  if_pos h

theorem ofPart?_of_not_isTrivial {part : List Char} (h : isTrivial part = false) :
    ofPart? part = some (ofSegment (.ofList part)) := by
  have hdots : String.ofList part = ".." ↔ part = ['.', '.'] :=
    ⟨fun he => by simpa using congrArg String.toList he, fun he => congrArg String.ofList he⟩
  unfold ofPart? ofSegment
  rw [if_neg (by simp [h])]
  split
  · next he => rw [if_pos (hdots.mpr he)]
  · next he => rw [if_neg fun hs => he (hdots.mp hs)]

theorem isTrivial_eq_false_of_isSegment {part : String} (h : IsSegment part) :
    isTrivial part.toList = false := by
  obtain ⟨-, hne, hdot⟩ := h
  have hne' : part.toList ≠ [] := fun he => hne (String.toList_eq_nil_iff.mp he)
  have hdot' : part.toList ≠ ".".toList := fun he => hdot (String.toList_injective he)
  simp_all [isTrivial]

theorem ofPart?_toList {part : String} (h : IsSegment part) :
    ofPart? part.toList = some (ofSegment part) := by
  rw [ofPart?_of_not_isTrivial (isTrivial_eq_false_of_isSegment h), String.ofList_toList]

theorem ofText_of_isSegment {part : String} (h : IsSegment part) :
    ofText part.toList = [ofSegment part] := by
  rw [ofText, Text.split_of_not_mem h.1]
  exact List.filterMap_cons_some (ofPart?_toList h)

theorem ofText_eq_map_segments (path : String) :
    ofText path.toList = (segments path).map ofSegment := by
  unfold ofText segments segmentsOfChars
  induction Text.split '/' path.toList with
  | nil => rfl
  | cons part parts ih =>
    cases htrivial : isTrivial part with
    | true =>
      rw [List.filterMap_cons_none (ofPart?_of_isTrivial htrivial), List.filter_cons_of_neg, ih]
      simpa [isTrivial, or_iff_not_imp_left] using htrivial
    | false =>
      rw [List.filterMap_cons_some (ofPart?_of_not_isTrivial htrivial), List.filter_cons_of_pos, ih]
      · rfl
      · simpa [isTrivial] using htrivial

theorem ofSegment_of_ne {part : String} (h : part ≠ "..") : ofSegment part = .name part :=
  if_neg h

/-- A text that a path uses to name something below a folder. -/
def IsName (part : String) : Prop := IsSegment part ∧ part ≠ ".."

instance (part : String) : Decidable (IsName part) := inferInstanceAs (Decidable (_ ∧ _))

theorem IsName.ofSegment {part : String} (h : IsName part) : Component.ofSegment part = .name part :=
  ofSegment_of_ne h.2

theorem ofPart?_eq_some {part : List Char} {c : Component} (hslash : '/' ∉ part)
    (h : ofPart? part = some c) : c = .parent ∨ ∃ n, IsName n ∧ c = .name n := by
  unfold ofPart? at h
  split at h
  · cases h
  · next htrivial =>
    split at h
    · cases h
      exact Or.inl rfl
    · next hdots =>
      cases h
      simp only [isTrivial, Bool.or_eq_true, List.isEmpty_iff, decide_eq_true_eq, not_or] at htrivial
      refine Or.inr ⟨.ofList part, ⟨⟨by simpa using hslash, ?_, ?_⟩, ?_⟩, rfl⟩
      · exact fun he => htrivial.1 (by simpa using congrArg String.toList he)
      · exact fun he => htrivial.2 (by simpa using congrArg String.toList he)
      · exact fun he => hdots (by simpa using congrArg String.toList he)

theorem ofSegment_injective : Function.Injective ofSegment := by
  intro a b h
  by_cases ha : a = ".." <;> by_cases hb : b = ".." <;> simp_all [ofSegment]

end Component

namespace FilePath

theorem components_append {p q : FilePath} {cs : List Component}
    (habsolute : q.isAbsolute = p.isAbsolute) (hhead : q.parts.head? = p.parts.head?)
    (hbody : q.parts.filterMap Component.ofPart? = p.parts.filterMap Component.ofPart? ++ cs) :
    q.components = p.components ++ cs := by
  simp only [components, habsolute, hhead, hbody]
  split
  · rfl
  · split
    · rfl
    · rfl

theorem toList_join (p : FilePath) {rel : String} (h : rel.toList.head? ≠ some '/') :
    (p.text.toList = [] ∧ (p.join rel).text.toList = rel.toList) ∨
      ∃ cs, (p.text.toList = cs ++ ['/'] ∨ p.text.toList = cs ∧ cs ≠ [])
        ∧ (p.join rel).text.toList = cs ++ '/' :: rel.toList := by
  unfold join
  rw [if_neg h]
  cases hp : p.text.toList using List.reverseRecOn with
  | nil => exact Or.inl ⟨rfl, by simp [hp]⟩
  | append_singleton cs last _ =>
    right
    by_cases hlast : last = '/'
    · subst last
      exact ⟨cs, Or.inl rfl, by simp [hp]⟩
    · exact ⟨cs ++ [last], Or.inr ⟨rfl, by simp⟩, by simp [hp, hlast]⟩

theorem components_join_of_relative {p : FilePath} (hne : p.text.toList ≠ []) {rel : String}
    (h : rel.toList.head? ≠ some '/') :
    (p.join rel).components = p.components ++ Component.ofText rel.toList := by
  have hempty : Component.ofPart? [] = none := rfl
  rcases toList_join p h with ⟨hp, -⟩ | ⟨cs, hp, hjoin⟩
  · exact absurd hp hne
  apply components_append
  · rcases hp with hp | ⟨hp, hcs⟩
    · cases cs <;> simp [isAbsolute, hp, hjoin]
    · cases cs <;> simp_all [isAbsolute]
  · rcases hp with hp | ⟨hp, -⟩
    · rw [parts, parts, hp, hjoin, Text.head?_split_append_sep, Text.head?_split_append_sep]
    · rw [parts, parts, hp, hjoin, Text.head?_split_append_sep]
  · rcases hp with hp | ⟨hp, -⟩
    · simp [parts, Component.ofText, hp, hjoin, Text.split_append_sep, Text.split, hempty]
    · simp [parts, Component.ofText, hp, hjoin, Text.split_append_sep]

theorem components_join (p : FilePath) {part : String} (h : IsSegment part) :
    (p.join part).components = p.components ++ [Component.ofSegment part] := by
  have hslash : part.toList.head? ≠ some '/' := fun he => h.1 (List.mem_of_mem_head? he)
  by_cases hp : p.text.toList = []
  · have hne : part.toList ≠ [] := fun he => h.2.1 (String.toList_eq_nil_iff.mp he)
    have hdot : part.toList ≠ ['.'] := fun he => h.2.2 (String.toList_injective he)
    have hempty : Component.ofPart? [] = none := rfl
    have hjoin : (p.join part).text.toList = part.toList := by
      rcases toList_join p hslash with ⟨-, hjoin⟩ | ⟨cs, hcs | ⟨rfl, hcs⟩, -⟩
      · exact hjoin
      · simp [hp] at hcs
      · exact absurd hp hcs
    simp [components, isAbsolute, parts, hp, hjoin, Text.split_of_not_mem h.1,
      Component.ofPart?_toList h, hslash, hdot, hempty, Text.split]
  · rw [components_join_of_relative hp hslash, Component.ofText_of_isSegment h]

theorem components_foldl_join (p : FilePath) {parts : List String} (h : ∀ part ∈ parts, IsSegment part) :
    (parts.foldl join p).components = p.components ++ parts.map Component.ofSegment := by
  induction parts generalizing p with
  | nil => simp
  | cons part parts ih =>
    rw [List.foldl_cons, ih _ fun q hq => h q (List.mem_cons_of_mem part hq),
      components_join p (h part List.mem_cons_self), List.map_cons, List.append_assoc,
      List.singleton_append]

theorem join_of_relative (p : FilePath) {rel : String} (h : rel.toList.head? ≠ some '/') :
    p.join rel =
      if p.text.toList.getLast? = none ∨ p.text.toList.getLast? = some '/' then ⟨p.text ++ rel⟩
      else ⟨p.text ++ "/" ++ rel⟩ := by
  unfold join
  rw [if_neg h]
  simp

theorem join_join (p : FilePath) {part rel : String} (hpart : IsSegment part)
    (hrel : rel.toList.head? ≠ some '/') :
    (p.join part).join rel = p.join (part ++ "/" ++ rel) := by
  obtain ⟨c, cs, hhead, hc⟩ := hpart.exists_cons
  obtain ⟨ds, d, hlast, hd⟩ := hpart.exists_concat
  have hrelative : part.toList.head? ≠ some '/' := by simpa [hhead] using hc
  have hwhole : (part ++ "/" ++ rel).toList.head? ≠ some '/' := by simpa [hhead] using hc
  have hbelow : ∀ text : String,
      (FilePath.mk (text ++ part)).join rel = ⟨text ++ part ++ "/" ++ rel⟩ := by
    intro text
    rw [join_of_relative _ hrel, if_neg]
    simpa [hlast] using hd
  rw [join_of_relative p hrelative, join_of_relative p hwhole]
  split
  · rw [hbelow]
    simp only [String.append_assoc]
  · rw [hbelow]
    simp only [String.append_assoc]

theorem foldl_join_eq_join (p : FilePath) {parts : List String} (hne : parts ≠ [])
    (h : ∀ part ∈ parts, IsSegment part) : parts.foldl join p = p.join (ofSegments parts) := by
  induction parts generalizing p with
  | nil => exact absurd rfl hne
  | cons part parts ih =>
    have hrest : ∀ q ∈ parts, IsSegment q := fun q hq => h q (List.mem_cons_of_mem part hq)
    cases parts with
    | nil =>
      rw [ofSegments_singleton]
      rfl
    | cons next parts =>
      rw [List.foldl_cons, ih _ (by simp) hrest, join_join p (h part List.mem_cons_self),
        ofSegments_cons_cons]
      exact head?_ofSegments (hrest next List.mem_cons_self) parts

theorem foldl_join_same_iff (p : FilePath) {a b : List String} (ha : ∀ part ∈ a, IsSegment part)
    (hb : ∀ part ∈ b, IsSegment part) :
    (a.foldl join p).Same (b.foldl join p) ↔ a = b := by
  unfold Same
  rw [components_foldl_join p ha, components_foldl_join p hb, List.append_cancel_left_eq]
  exact (List.map_injective_iff.mpr Component.ofSegment_injective).eq_iff

end FilePath

end ModBuild
