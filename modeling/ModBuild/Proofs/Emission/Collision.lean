import Mathlib.Data.List.Pairwise
import ModBuild.Proofs.Layout.Placement
import ModBuild.Unit

/-!
# Batches without a collision

The search goes through a batch once and keeps the places it has seen. It finds nothing exactly when
the units that claim a place of their own have different places. Bundles claim none: they are kept
apart from the others by their name.
-/

namespace ModBuild

set_option autoImplicit false

namespace CompiledUnit

/-- The unit has a text, and its path does not end in `.d.ts`, in letters of any case. -/
def Kept (u : CompiledUnit) : Prop :=
  u.text ≠ "" ∧
    ¬∃ stem ending, u.path.toList = stem ++ ending ∧ ending.map Char.toLower = ".d.ts".toList

theorem skip?_eq_none_iff (u : CompiledUnit) : u.skip? = none ↔ u.Kept := by
  have hdeclaration : u.isDeclaration = true ↔
      ∃ stem ending, u.path.toList = stem ++ ending ∧ ending.map Char.toLower = ".d.ts".toList := by
    unfold isDeclaration Text.lower
    rw [List.isSuffixOf_iff_suffix]
    constructor
    · rintro ⟨stem, h⟩
      obtain ⟨stem', ending, hpath, -, hending⟩ := List.map_eq_append_iff.mp h.symm
      exact ⟨stem', ending, hpath, hending⟩
    · rintro ⟨stem, ending, hpath, hending⟩
      rw [hpath, List.map_append, hending]
      exact List.suffix_append _ _
  unfold Kept skip?
  rw [← hdeclaration]
  by_cases htext : u.text = "" <;> by_cases h : u.isDeclaration = true <;> simp [htext, h]

instance : DecidablePred Kept := fun u => decidable_of_iff _ u.skip?_eq_none_iff

end CompiledUnit

namespace Collision

variable {l : Layout} {u v : CompiledUnit} {us : List CompiledUnit}

/-- The unit is written, and to a place that no other unit may have. -/
def Claims (l : Layout) (u : CompiledUnit) : Prop :=
  u.Kept ∧ (l.place u.path).rule ≠ .bundle

instance : DecidablePred (Claims l) := fun _ => inferInstanceAs (Decidable (_ ∧ _))

/-- Both units claim the same place. -/
def Clash (l : Layout) (u v : CompiledUnit) : Prop :=
  Claims l u ∧ Claims l v ∧ (l.place u.path).path.Same (l.place v.path).path

theorem Clash.symm (h : Clash l u v) : Clash l v u := ⟨h.2.1, h.1, h.2.2.symm⟩

theorem search_cons (l : Layout) (claimed : List (FilePath × String)) (u : CompiledUnit)
    (us : List CompiledUnit) :
    search l claimed (u :: us) =
      if Claims l u then
        match claimed.find? fun c => c.1.Same (l.place u.path).path with
        | some (_, first) => some ⟨(l.place u.path).path, first, u.path⟩
        | none => search l (((l.place u.path).path, u.path) :: claimed) us
      else search l claimed us := by
  have hiff : (u.skip?.isSome || (l.place u.path).rule = .bundle) = true ↔ ¬Claims l u := by
    unfold Claims
    rw [← u.skip?_eq_none_iff]
    cases u.skip? <;> simp
  rw [search]
  by_cases h : Claims l u
  · rw [if_pos h]
    exact if_neg fun hskip => hiff.mp hskip h
  · rw [if_neg h, if_pos (hiff.mpr h)]

theorem search_eq_none_iff {claimed : List (FilePath × String)} :
    search l claimed us = none ↔
      (∀ c ∈ claimed, ∀ u ∈ us, Claims l u → ¬c.1.Same (l.place u.path).path) ∧
        us.Pairwise fun u v => ¬Clash l u v := by
  induction us generalizing claimed with
  | nil => simp [search]
  | cons u us ih =>
    rw [search_cons, List.pairwise_cons]
    by_cases h : Claims l u
    · rw [if_pos h]
      cases hfind : claimed.find? fun c => c.1.Same (l.place u.path).path with
      | some c =>
        have hmem := List.mem_of_find?_eq_some hfind
        have hsame : c.1.Same (l.place u.path).path := by simpa using List.find?_some hfind
        refine iff_of_false (by simp) ?_
        rintro ⟨hclaimed, -⟩
        exact hclaimed c hmem u List.mem_cons_self h hsame
      | none =>
        have hfree : ∀ c ∈ claimed, ¬c.1.Same (l.place u.path).path := by
          intro c hc hsame
          exact List.find?_eq_none.mp hfind c hc (decide_eq_true hsame)
        dsimp only
        rw [ih]
        simp only [List.forall_mem_cons]
        constructor
        · rintro ⟨⟨hu, hclaimed⟩, hpairs⟩
          refine ⟨fun c hc => ⟨fun _ => hfree c hc, hclaimed c hc⟩, ?_, hpairs⟩
          rintro v hv ⟨-, hcv, hsame⟩
          exact hu v hv hcv hsame
        · rintro ⟨hclaimed, hu, hpairs⟩
          refine ⟨⟨?_, fun c hc => (hclaimed c hc).2⟩, hpairs⟩
          intro v hv hcv hsame
          exact hu v hv ⟨h, hcv, hsame⟩
    · rw [if_neg h, ih]
      simp [h, Clash]

theorem find?_eq_none_iff : find? l us = none ↔ us.Pairwise fun u v => ¬Clash l u v := by
  unfold find?
  rw [search_eq_none_iff]
  simp

theorem eq_of_clash (h : find? l us = none) (hu : u ∈ us) (hv : v ∈ us) (hclash : Clash l u v) :
    u = v := by
  have : Std.Symm fun u v => ¬Clash l u v := ⟨fun _ _ hab hba => hab hba.symm⟩
  by_contra hne
  exact (find?_eq_none_iff.mp h).forall hu hv hne hclash

end Collision

end ModBuild
