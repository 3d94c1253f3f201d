import Mathlib.Data.String.Basic
import ModBuild.Proofs.Text.Cut
import ModBuild.Reference.Basic

/-!
# The path of a reference

The path in the rewritten call is the dotted target with slashes for dots, from which one leading
scope folder is gone. The folder counts only together with the slash behind it.
-/

namespace ModBuild.Reference

set_option autoImplicit false

/-- A slash path without the scope folder that it starts with. -/
def dropScopeFolder (path : List Char) : List Char :=
  match ["client/", "server/", "shared/"].find? fun folder => folder.toList.isPrefixOf path with
  | some folder => path.drop folder.toList.length
  | none => path

/-- The path by which the game finds the module that the compiler names by `target`. -/
def gamePath (target : List Char) : List Char :=
  dropScopeFolder (target.map fun c => if c = '.' then '/' else c)

theorem folder_prefix_iff {name first rest : List Char} (hn : '/' ∉ name) (hf : '/' ∉ first) :
    name ++ ['/'] <+: first ++ '/' :: rest ↔ name = first := by
  constructor
  · rintro ⟨s, hs⟩
    have hname := Text.cut?_singleton_append (r := s) hn
    have hfirst := Text.cut?_singleton_append (r := rest) hf
    rw [show name ++ '/' :: s = first ++ '/' :: rest by simpa using hs, hfirst] at hname
    cases hname
    rfl
  · rintro rfl
    exact ⟨rest, by simp⟩

theorem dropScopeFolder_of_not_mem {path : List Char} (h : '/' ∉ path) :
    dropScopeFolder path = path := by
  have hno : ∀ name : List Char, (name ++ ['/']).isPrefixOf path = false := by
    intro name
    rw [Bool.eq_false_iff]
    intro hp
    exact h ((List.isPrefixOf_iff_prefix.mp hp).subset (by simp))
  have hclient := hno "client".toList
  have hserver := hno "server".toList
  have hshared := hno "shared".toList
  simp_all [dropScopeFolder, List.find?]

theorem dropScopeFolder_append {first rest : List Char} (hf : '/' ∉ first) :
    dropScopeFolder (first ++ '/' :: rest) =
      if Scope.ofFolder (.ofList first) = .none then first ++ '/' :: rest else rest := by
  have hiff : ∀ name : List Char, '/' ∉ name →
      ((name ++ ['/']).isPrefixOf (first ++ '/' :: rest) = true ↔ name = first) := by
    intro name hn
    rw [List.isPrefixOf_iff_prefix, folder_prefix_iff hn hf]
  have hclient := hiff "client".toList (by decide)
  have hserver := hiff "server".toList (by decide)
  have hshared := hiff "shared".toList (by decide)
  let starts := fun folder : String => folder.toList.isPrefixOf (first ++ '/' :: rest)
  change (match ["client/", "server/", "shared/"].find? starts with
    | some folder => (first ++ '/' :: rest).drop folder.toList.length
    | none => first ++ '/' :: rest) = _
  by_cases h₁ : first = "client".toList
  · have hfind : ["client/", "server/", "shared/"].find? starts = some "client/" :=
      List.find?_cons_of_pos (hclient.mpr h₁.symm)
    rw [hfind, h₁, if_neg (by decide)]
    rfl
  have hno₁ : ¬starts "client/" = true := fun h => h₁ (hclient.mp h).symm
  by_cases h₂ : first = "server".toList
  · have hfind : ["client/", "server/", "shared/"].find? starts = some "server/" := by
      rw [List.find?_cons_of_neg hno₁]
      exact List.find?_cons_of_pos (hserver.mpr h₂.symm)
    rw [hfind, h₂, if_neg (by decide)]
    rfl
  have hno₂ : ¬starts "server/" = true := fun h => h₂ (hserver.mp h).symm
  by_cases h₃ : first = "shared".toList
  · have hfind : ["client/", "server/", "shared/"].find? starts = some "shared/" := by
      rw [List.find?_cons_of_neg hno₁, List.find?_cons_of_neg hno₂]
      exact List.find?_cons_of_pos (hshared.mpr h₃.symm)
    rw [hfind, h₃, if_neg (by decide)]
    rfl
  have hno₃ : ¬starts "shared/" = true := fun h => h₃ (hshared.mp h).symm
  have hfind : ["client/", "server/", "shared/"].find? starts = none := by
    rw [List.find?_cons_of_neg hno₁, List.find?_cons_of_neg hno₂, List.find?_cons_of_neg hno₃]
    rfl
  have hnone : Scope.ofFolder (.ofList first) = .none := by
    simp only [Scope.ofFolder, String.ofList_eq, h₁, h₂, h₃, if_false]
  rw [hfind, if_pos hnone]

theorem dropScopeFolder_cases (path : List Char) : dropScopeFolder path = path ∨
    ∃ folder ∈ ["client/", "server/", "shared/"], path = folder.toList ++ dropScopeFolder path := by
  unfold dropScopeFolder
  split
  · next folder hfind =>
    have hp := (List.find?_eq_some_iff_append.mp hfind).1
    exact Or.inr ⟨folder, List.mem_of_find?_eq_some hfind,
      List.prefix_append_drop (List.isPrefixOf_iff_prefix.mp hp)⟩
  · exact Or.inl rfl

/-- A path has the characters of its target, as far as these are in no scope folder and no dots. -/
theorem mem_gamePath_iff {c : Char} (hdot : c ≠ '.')
    (hfolder : ∀ folder ∈ ["client/", "server/", "shared/"], c ∉ folder.toList) {target : List Char} :
    c ∈ gamePath target ↔ c ∈ target := by
  have hslash : c ≠ '/' := by
    rintro rfl
    exact hfolder "client/" (by simp) (by decide)
  have hslashed : c ∈ (target.map fun c => if c = '.' then '/' else c) ↔ c ∈ target := by
    rw [List.mem_map]
    constructor
    · rintro ⟨x, hx, hxc⟩
      split at hxc
      · exact absurd hxc.symm hslash
      · exact hxc ▸ hx
    · intro hc
      exact ⟨c, hc, if_neg hdot⟩
  rw [gamePath, ← hslashed]
  generalize (target.map fun c => if c = '.' then '/' else c) = path
  rcases dropScopeFolder_cases path with h | ⟨folder, hmem, h⟩
  · rw [h]
  · generalize dropScopeFolder path = rest at h ⊢
    rw [h, List.mem_append, or_iff_right (hfolder folder hmem)]

theorem ofDotted_of_slashed {dotted : String} {first rest : List Char}
    (h : slashed dotted.toList = first ++ '/' :: rest) (hf : '/' ∉ first) :
    ofDotted dotted =
      ⟨dotted, Scope.ofFolder (.ofList first),
        .ofList (if Scope.ofFolder (.ofList first) = .none then first ++ '/' :: rest else rest)⟩ := by
  have hcut := Text.cut?_singleton_append (r := rest) hf
  unfold ofDotted
  rw [h]
  simp only [hcut]
  cases Scope.ofFolder (.ofList first) <;> rfl

theorem toList_path_ofDotted (dotted : String) :
    (ofDotted dotted).path.toList = gamePath dotted.toList := by
  change _ = dropScopeFolder (slashed dotted.toList)
  rcases h : Text.cut? ['/'] (slashed dotted.toList) with _ | ⟨first, rest⟩
  · rw [dropScopeFolder_of_not_mem (Text.cut?_singleton_eq_none_iff.mp h)]
    simp only [ofDotted, h, String.toList_ofList]
  · have hs : slashed dotted.toList = first ++ '/' :: rest := by simpa using Text.eq_of_cut? h
    have hfirst := Text.not_mem_of_cut?_singleton h
    rw [ofDotted_of_slashed hs hfirst, hs, dropScopeFolder_append hfirst, String.toList_ofList]

theorem toList_call_ofDotted (dotted : String) :
    (ofDotted dotted).call.toList =
      "require('".toList ++ gamePath dotted.toList ++ "')".toList := by
  simp [call, toList_path_ofDotted]

end ModBuild.Reference
