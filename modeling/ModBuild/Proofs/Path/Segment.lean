import Mathlib.Data.List.Induction
import Mathlib.Data.String.Basic
import ModBuild.Path.Slash
import ModBuild.Proofs.Text.Split

/-!
# Segments

The segments of a slash path are exactly the texts that can stand between two slashes and name
something. Such texts survive being written as a path and read again, so a path can be reasoned
about as the list of its segments.
-/

namespace ModBuild.SlashPath

set_option autoImplicit false

def IsSegment (part : String) : Prop := '/' ∉ part.toList ∧ part ≠ "" ∧ part ≠ "."

instance (part : String) : Decidable (IsSegment part) :=
  inferInstanceAs (Decidable (_ ∧ _))

theorem IsSegment.exists_cons {part : String} (h : IsSegment part) :
    ∃ c cs, part.toList = c :: cs ∧ c ≠ '/' := by
  obtain ⟨hslash, hne, -⟩ := h
  cases hpart : part.toList with
  | nil => exact absurd (String.toList_eq_nil_iff.mp hpart) hne
  | cons c cs =>
    refine ⟨c, cs, rfl, ?_⟩
    rintro rfl
    exact hslash (hpart ▸ List.mem_cons_self)

theorem IsSegment.exists_concat {part : String} (h : IsSegment part) :
    ∃ cs c, part.toList = cs ++ [c] ∧ c ≠ '/' := by
  obtain ⟨hslash, hne, -⟩ := h
  cases hpart : part.toList using List.reverseRecOn with
  | nil => exact absurd (String.toList_eq_nil_iff.mp hpart) hne
  | append_singleton cs c _ =>
    refine ⟨cs, c, rfl, ?_⟩
    rintro rfl
    exact hslash (hpart ▸ List.mem_append_right cs List.mem_cons_self)

theorem isSegment_of_mem_segments {path part : String} (h : part ∈ segments path) :
    IsSegment part := by
  obtain ⟨cs, hcs, rfl⟩ := List.mem_map.mp h
  obtain ⟨hmem, hkeep⟩ := List.mem_filter.mp hcs
  simp only [Bool.and_eq_true, Bool.not_eq_true', List.isEmpty_eq_false_iff, decide_eq_true_eq] at hkeep
  refine ⟨?_, ?_, ?_⟩
  · rw [String.toList_ofList]
    exact Text.not_mem_of_mem_split hmem
  · intro he
    exact hkeep.1 (by simpa using congrArg String.toList he)
  · intro he
    exact hkeep.2 (by simpa using congrArg String.toList he)

/-- The text behind the last slash. -/
def lastName (path : String) : String :=
  .ofList ((Text.split '/' path.toList).getLast (Text.split_ne_nil '/' path.toList))

theorem lastName_not_slash (path : String) : '/' ∉ (lastName path).toList := by
  rw [lastName, String.toList_ofList]
  exact Text.not_mem_of_mem_split (List.getLast_mem _)

theorem isSegment_lastName_append {rel ending : String} (hname : lastName rel ≠ "")
    (hslash : '/' ∉ ending.toList) (hending : ending ≠ "") : IsSegment (lastName rel ++ ending) := by
  obtain ⟨c, name, hc⟩ :=
    List.exists_cons_of_ne_nil fun he => hname (String.toList_eq_nil_iff.mp he)
  obtain ⟨e, rest, he⟩ :=
    List.exists_cons_of_ne_nil fun he => hending (String.toList_eq_nil_iff.mp he)
  refine ⟨?_, ?_, ?_⟩
  · rw [String.toList_append, List.mem_append]
    exact fun h => h.elim (lastName_not_slash rel) hslash
  · intro heq
    have hlist := congrArg String.toList heq
    rw [String.toList_append, hc] at hlist
    cases hlist
  · intro heq
    have hlist := congrArg List.length (congrArg String.toList heq)
    simp [hc, he] at hlist

theorem head?_append_ne_slash {rel ending : String} (hrel : rel.toList.head? ≠ some '/')
    (hending : ending.toList.head? ≠ some '/') : (rel ++ ending).toList.head? ≠ some '/' := by
  rw [String.toList_append]
  cases h : rel.toList with
  | nil => exact hending
  | cons c name => simpa [h] using hrel

theorem segmentsOfChars_append_cons (cs : List Char) (rest : List Char) :
    segmentsOfChars (cs ++ '/' :: rest) = segmentsOfChars cs ++ segmentsOfChars rest := by
  unfold segmentsOfChars
  rw [Text.split_append_sep, List.filter_append]

theorem filter_segment {part : String} (h : IsSegment part) :
    [part.toList].filter (fun cs => !cs.isEmpty && cs ≠ ['.']) = [part.toList] := by
  obtain ⟨-, hne, hdot⟩ := h
  have hdot' : part.toList ≠ ".".toList := fun he => hdot (String.toList_injective he)
  simp_all

theorem segments_of_isSegment {part : String} (h : IsSegment part) : segments part = [part] := by
  unfold segments segmentsOfChars
  rw [Text.split_of_not_mem h.1, filter_segment h, List.map_singleton, String.ofList_toList]

theorem segments_append_slash {part : String} (h : IsSegment part) (rel : String) :
    segments (part ++ "/" ++ rel) = part :: segments rel := by
  have hpart := segments_of_isSegment h
  unfold segments at hpart ⊢
  have hslash : "/".toList = ['/'] := rfl
  rw [String.toList_append, String.toList_append, hslash, List.append_assoc, List.singleton_append,
    segmentsOfChars_append_cons, List.map_append, hpart, List.singleton_append]

/-- What is written after a path continues its last name and leaves the segments above alone. -/
theorem exists_segments_append (path : String) :
    ∃ above : List String, ∀ ending : String, IsSegment (lastName path ++ ending) →
      segments (path ++ ending) = above ++ [lastName path ++ ending] := by
  obtain ⟨init, last, hpath, hending⟩ := Text.exists_split_append '/' path.toList
  have hlast : lastName path = .ofList last := by
    simp only [lastName, hpath, List.getLast_append_singleton]
  refine ⟨(init.filter fun part => !part.isEmpty && part ≠ ['.']).map String.ofList, ?_⟩
  intro ending h
  have hslash : '/' ∉ ending.toList := fun hm => h.1 (by simp [hm])
  have hname : (lastName path ++ ending).toList = last ++ ending.toList := by
    rw [hlast, String.toList_append, String.toList_ofList]
  unfold segments segmentsOfChars
  rw [String.toList_append, hending _ hslash, ← hname, List.filter_append, filter_segment h,
    List.map_append, List.map_singleton, String.ofList_toList]

theorem toList_ofSegments (parts : List String) :
    (ofSegments parts).toList = Text.joinWith ['/'] (parts.map String.toList) := by
  unfold ofSegments
  rw [String.toList_intercalate, Text.joinWith_eq_intercalate]
  rfl

theorem ofSegments_singleton (part : String) : ofSegments [part] = part := by
  apply String.toList_injective
  rw [toList_ofSegments]
  rfl

theorem ofSegments_cons_cons (part next : String) (parts : List String) :
    ofSegments (part :: next :: parts) = part ++ "/" ++ ofSegments (next :: parts) := by
  apply String.toList_injective
  rw [String.toList_append, String.toList_append, toList_ofSegments, toList_ofSegments]
  rfl

theorem ofSegments_concat_append (parts : List String) (last ending : String) :
    ofSegments (parts ++ [last]) ++ ending = ofSegments (parts ++ [last ++ ending]) := by
  induction parts with
  | nil => rw [List.nil_append, List.nil_append, ofSegments_singleton, ofSegments_singleton]
  | cons part parts ih =>
    cases parts with
    | nil =>
      simp only [List.cons_append, List.nil_append, ofSegments_cons_cons, ofSegments_singleton,
        String.append_assoc]
    | cons next parts =>
      simp only [List.cons_append, ofSegments_cons_cons, String.append_assoc] at ih ⊢
      rw [ih]

theorem head?_ofSegments {part : String} (h : IsSegment part) (parts : List String) :
    (ofSegments (part :: parts)).toList.head? ≠ some '/' := by
  obtain ⟨c, cs, hpart, hc⟩ := h.exists_cons
  cases parts with
  | nil => simpa [ofSegments_singleton, hpart] using hc
  | cons next parts => simpa [ofSegments_cons_cons, hpart] using hc

theorem segments_ofSegments {parts : List String} (h : ∀ part ∈ parts, IsSegment part) :
    segments (ofSegments parts) = parts := by
  unfold segments segmentsOfChars
  rw [toList_ofSegments]
  cases parts with
  | nil => rfl
  | cons part parts =>
    rw [Text.split_joinWith (by simp)]
    · rw [List.filter_eq_self.mpr, List.map_map]
      · simp
      · intro cs hcs
        obtain ⟨q, hq, rfl⟩ := List.mem_map.mp hcs
        obtain ⟨-, hne, hdot⟩ := h q hq
        have hdot' : q.toList ≠ ".".toList := fun he => hdot (String.toList_injective he)
        simp_all
    · intro cs hcs
      obtain ⟨q, hq, rfl⟩ := List.mem_map.mp hcs
      exact (h q hq).1

end ModBuild.SlashPath
