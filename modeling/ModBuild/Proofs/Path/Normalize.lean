import Mathlib.Data.List.DropRight
import ModBuild.Proofs.Path.Segment

/-!
# Segments of a normalized path

Normalizing drops the slashes at the end of a path one after the other
(`dropTrailingSlashes_induction`), and none of them adds a segment. The segments of a normalized path
are therefore those of the path with slashes for backslashes, and a path that was written from
segments is read back as these segments.
-/

namespace ModBuild.SlashPath

set_option autoImplicit false

variable {path : String} {cs : List Char} {c : Char}

/-- No slash is left to drop. -/
def Ended (cs : List Char) : Prop := cs.getLast? = some '/' → cs = ['/']

theorem ended_of_getLast? (h : cs.getLast? = some c) (hc : c ≠ '/') : Ended cs := by
  intro hslash
  rw [h] at hslash
  exact absurd (Option.some.inj hslash) hc

theorem dropTrailingSlashes_of_ended (h : Ended cs) : dropTrailingSlashes cs = cs := by
  cases cs using List.reverseRecOn with
  | nil => rfl
  | append_singleton init last _ =>
    by_cases hlast : last = '/'
    · rw [h (by rw [hlast, List.getLast?_concat])]
      rfl
    cases init with
    | nil => rfl
    | cons first init =>
      change first :: (init ++ [last]).rdropWhile (· = '/') = _
      rw [List.rdropWhile_concat_neg _ _ _ (by simpa using hlast)]
      rfl

theorem dropTrailingSlashes_append_slash (h : cs ≠ []) :
    dropTrailingSlashes (cs ++ ['/']) = dropTrailingSlashes cs := by
  cases cs with
  | nil => exact absurd rfl h
  | cons c cs =>
    change c :: (cs ++ ['/']).rdropWhile (· = '/') = c :: cs.rdropWhile (· = '/')
    rw [List.rdropWhile_concat_pos _ _ _ (by simp)]

/-- What relates a text that has ended to itself, and is kept when one more slash is dropped, relates
every text to what is left of it. -/
theorem dropTrailingSlashes_induction {motive : List Char → List Char → Prop}
    (stop : ∀ cs, Ended cs → motive cs cs)
    (drop : ∀ cs left, cs ≠ [] → motive cs left → motive (cs ++ ['/']) left) (cs : List Char) :
    motive cs (dropTrailingSlashes cs) := by
  induction cs using List.reverseRecOn with
  | nil => exact stop [] fun h => by cases h
  | append_singleton cs last ih =>
    by_cases hlast : last = '/'
    · subst hlast
      by_cases hcs : cs = []
      · subst hcs
        exact stop ['/'] fun _ => rfl
      · rw [dropTrailingSlashes_append_slash hcs]
        exact drop cs _ hcs ih
    · have hended : Ended (cs ++ [last]) := ended_of_getLast? List.getLast?_concat hlast
      rw [dropTrailingSlashes_of_ended hended]
      exact stop _ hended

theorem segmentsOfChars_append_slash (cs : List Char) :
    segmentsOfChars (cs ++ ['/']) = segmentsOfChars cs := by
  rw [segmentsOfChars_append_cons]
  exact List.append_nil _

theorem segmentsOfChars_dropTrailingSlashes (cs : List Char) :
    segmentsOfChars (dropTrailingSlashes cs) = segmentsOfChars cs := by
  induction cs using dropTrailingSlashes_induction with
  | stop cs _ => rfl
  | drop cs left _ ih => rw [ih, segmentsOfChars_append_slash]

/-- The path with slashes for backslashes. -/
def withSlashes (path : String) : String := path.map fun c => if c = '\\' then '/' else c

theorem toList_normalize (path : String) :
    (normalize path).toList = dropTrailingSlashes (withSlashes path).toList := by
  unfold normalize normalizeChars withSlashes
  rw [String.toList_ofList, String.toList_map]

theorem withSlashes_of_not_mem (h : '\\' ∉ path.toList) : withSlashes path = path := by
  have hkeep : ∀ c ∈ path.toList, (if c = '\\' then '/' else c) = id c := by
    rintro c hc
    refine if_neg ?_
    rintro rfl
    exact h hc
  apply String.toList_injective
  rw [withSlashes, String.toList_map, List.map_congr_left hkeep, List.map_id]

theorem segments_normalize (path : String) :
    segments (normalize path) = segments (withSlashes path) := by
  unfold segments
  rw [toList_normalize, segmentsOfChars_dropTrailingSlashes]

theorem segments_normalize_of_not_mem (h : '\\' ∉ path.toList) :
    segments (normalize path) = segments path := by
  rw [segments_normalize, withSlashes_of_not_mem h]

section
variable {parts : List String} (h : ∀ part ∈ parts, IsSegment part)
variable (hback : ∀ part ∈ parts, '\\' ∉ part.toList)
include hback

theorem backslash_not_mem_ofSegments : '\\' ∉ (ofSegments parts).toList := by
  rw [toList_ofSegments]
  intro hmem
  rcases Text.mem_joinWith hmem with hsep | ⟨cs, hcs, hc⟩
  · simp at hsep
  · obtain ⟨part, hpart, rfl⟩ := List.mem_map.mp hcs
    exact hback part hpart hc

include h

theorem segments_normalize_ofSegments : segments (normalize (ofSegments parts)) = parts := by
  rw [segments_normalize_of_not_mem (backslash_not_mem_ofSegments hback), segments_ofSegments h]

theorem normalize_ofSegments : normalize (ofSegments parts) = ofSegments parts := by
  apply String.toList_injective
  rw [toList_normalize, withSlashes_of_not_mem (backslash_not_mem_ofSegments hback)]
  cases parts using List.reverseRecOn with
  | nil => rfl
  | append_singleton parts last _ =>
    obtain ⟨cs, c, hlast, hc⟩ := (h last (List.mem_append_right parts List.mem_cons_self)).exists_concat
    have hend : (ofSegments (parts ++ [last])).toList.getLast? = some c := by
      have hwritten := ofSegments_concat_append parts "" last
      rw [String.empty_append] at hwritten
      rw [← hwritten, String.toList_append, hlast, ← List.append_assoc, List.getLast?_concat]
    exact dropTrailingSlashes_of_ended (ended_of_getLast? hend hc)

end

end ModBuild.SlashPath
