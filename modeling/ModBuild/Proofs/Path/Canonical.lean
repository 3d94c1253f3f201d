import ModBuild.Proofs.Path.Normalize
import ModBuild.Unit

/-!
# Canonical paths

A path is canonical when it has no backslash and ends in a slash only as the root. Every path has
exactly one canonical form, and normalizing finds it (`normalize_eq_iff`). The form has the segments
of the path, and a compiled unit has the scope that the first of them names (`normalize_canonical`).
-/

namespace ModBuild.SlashPath

set_option autoImplicit false

variable {path normal : String} {cs : List Char}

/-- `normal` is `path` with slashes for backslashes and without the slashes at its end. Of a path that
is made of separators alone, one slash stays. -/
structure Canonical (path normal : String) : Prop where
  backslash : '\\' ∉ normal.toList
  ending : normal.toList.getLast? = some '/' → normal = "/"
  dropped : ∃ n, withSlashes path = normal ++ .ofList (List.replicate n '/')
  empty : normal = "" → path = ""

theorem exists_dropTrailingSlashes_append (cs : List Char) :
    ∃ n, cs = dropTrailingSlashes cs ++ List.replicate n '/' := by
  induction cs using dropTrailingSlashes_induction with
  | stop cs _ => exact ⟨0, (List.append_nil cs).symm⟩
  | drop cs left _ ih =>
    obtain ⟨n, hn⟩ := ih
    refine ⟨n + 1, ?_⟩
    rw [List.replicate_succ', ← List.append_assoc, ← hn]

theorem ended_dropTrailingSlashes (cs : List Char) : Ended (dropTrailingSlashes cs) := by
  induction cs using dropTrailingSlashes_induction with
  | stop _ hended => exact hended
  | drop _ _ _ ih => exact ih

theorem dropTrailingSlashes_eq_nil_iff : dropTrailingSlashes cs = [] ↔ cs = [] := by
  induction cs using dropTrailingSlashes_induction with
  | stop _ _ => exact Iff.rfl
  | drop cs left hcs ih => simp [ih, hcs]

theorem dropTrailingSlashes_append_replicate (h : cs ≠ []) (n : Nat) :
    dropTrailingSlashes (cs ++ List.replicate n '/') = dropTrailingSlashes cs := by
  induction n with
  | zero => rw [List.replicate_zero, List.append_nil]
  | succ n ih =>
    have hne : cs ++ List.replicate n '/' ≠ [] := by simp [h]
    rw [List.replicate_succ', ← List.append_assoc, dropTrailingSlashes_append_slash hne, ih]

theorem backslash_not_mem_withSlashes (path : String) : '\\' ∉ (withSlashes path).toList := by
  rw [withSlashes, String.toList_map]
  intro hmem
  obtain ⟨c, -, hc⟩ := List.mem_map.mp hmem
  by_cases hback : c = '\\'
  · rw [if_pos hback] at hc
    exact absurd hc (by decide)
  · rw [if_neg hback] at hc
    exact hback hc

theorem withSlashes_eq_empty_iff : withSlashes path = "" ↔ path = "" := by
  rw [← String.toList_eq_nil_iff, withSlashes, String.toList_map, List.map_eq_nil_iff,
    String.toList_eq_nil_iff]

theorem canonical_normalize (path : String) : Canonical path (normalize path) := by
  obtain ⟨n, hn⟩ := exists_dropTrailingSlashes_append (withSlashes path).toList
  rw [← toList_normalize] at hn
  refine ⟨?_, ?_, ⟨n, ?_⟩, ?_⟩
  · intro hmem
    refine backslash_not_mem_withSlashes path ?_
    rw [hn]
    exact List.mem_append_left _ hmem
  · intro hend
    apply String.toList_injective
    rw [toList_normalize] at hend ⊢
    exact ended_dropTrailingSlashes _ hend
  · apply String.toList_injective
    rw [String.toList_append, String.toList_ofList]
    exact hn
  · intro hempty
    rwa [← String.toList_eq_nil_iff, toList_normalize, dropTrailingSlashes_eq_nil_iff,
      String.toList_eq_nil_iff, withSlashes_eq_empty_iff] at hempty

theorem normalize_eq_iff : normalize path = normal ↔ Canonical path normal := by
  constructor
  · rintro rfl
    exact canonical_normalize path
  · rintro ⟨-, hending, ⟨n, hn⟩, hempty⟩
    by_cases hnil : normal = ""
    · rw [hnil, hempty hnil]
      rfl
    have hne : normal.toList ≠ [] := fun h => hnil (String.toList_eq_nil_iff.mp h)
    have hended : Ended normal.toList := fun h => by rw [hending h]; rfl
    apply String.toList_injective
    rw [toList_normalize, hn, String.toList_append, String.toList_ofList,
      dropTrailingSlashes_append_replicate hne, dropTrailingSlashes_of_ended hended]

theorem Canonical.self (h : Canonical path normal) : Canonical normal normal where
  backslash := h.backslash
  ending := h.ending
  dropped := ⟨0, (withSlashes_of_not_mem h.backslash).trans (String.append_empty).symm⟩
  empty := id

/-- Normalizing finds the canonical form of a path and stops there. The form has the segments of the
path, a unit declared at the path has the scope of the first of them, and written with one slash
between neighbours they are read again. -/
theorem normalize_canonical (path : String) :
    Canonical path (normalize path) ∧
      segments (normalize path) = segments (withSlashes path) ∧
      normalize (normalize path) = normalize path ∧
      (∀ text, (CompiledUnit.ofPath path text).scope =
        ((segments (withSlashes path)).head?.map Scope.ofFolder).getD .none) ∧
      segments (ofSegments (segments (normalize path))) = segments (normalize path) := by
  have hcanonical := canonical_normalize path
  have hsegments := segments_normalize path
  refine ⟨hcanonical, hsegments, ?_, fun text => ?_, ?_⟩
  · exact normalize_eq_iff.mpr hcanonical.self
  · rw [CompiledUnit.scope, Scope.classify_eq, CompiledUnit.ofPath, hsegments]
  · exact segments_ofSegments fun part => isSegment_of_mem_segments

example : normalize "\\/\\" = "/" ∧ normalize ".\\client//ui\\/" = "./client//ui" := by decide

end ModBuild.SlashPath
