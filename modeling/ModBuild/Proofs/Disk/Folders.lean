import ModBuild.Proofs.Disk.Tree

/-!
# Folders that are made

A folder that was made with all its parents is there (`isFolder_of_makeFolders_ok`), and nothing has
changed but where its path passes (`passes_makeFolders`). A path without `..` passes nothing but the
folders above the place to which it leads. So when something is there on a tree, the path leads to it
from the start, and making folders opens no new way to it (`locate_of_straight`).
-/

namespace ModBuild

set_option autoImplicit false

open Component

/-- The path never steps to a parent. -/
def FilePath.Straight (p : FilePath) : Prop := .parent ∉ p.components

instance (p : FilePath) : Decidable p.Straight := inferInstanceAs (Decidable (_ ∉ _))

theorem FilePath.Straight.join {p : FilePath} (h : p.Straight) {n : String} (hn : IsName n) :
    (p.join n).Straight := by
  rw [Straight, p.components_join hn.1, hn.ofSegment]
  exact fun hmem => h (by simpa using hmem)

namespace Disk

variable {d d' : Disk} {p q : FilePath} {l m : Location} {name : String} {slashed : Bool}

theorem foldlM_step_of_empty {parts : List (List Char)} (hfolder : d.get? l = some .folder)
    (h : ∀ part ∈ parts, part.isEmpty = true) : parts.foldlM d.step l = .ok l := by
  induction parts with
  | nil => rfl
  | cons part parts ih =>
    have htrivial : isTrivial part = true := by
      rw [isTrivial, h part List.mem_cons_self, Bool.true_or]
    have hstep : d.step l part = .ok l := by
      unfold step
      rw [hfolder]
      exact if_pos htrivial
    rw [List.foldlM_cons, hstep]
    exact ih fun part' hpart' => h part' (List.mem_cons_of_mem part hpart')

theorem locate_of_slot (h : d.slot p = .ok ⟨l, some name, slashed⟩)
    (hfolder : d.get? (l ++ [name]) = some .folder) : d.locate p = .ok (l ++ [name]) := by
  obtain ⟨⟨k, parts⟩, hstart, hslot⟩ := bind_eq_ok_iff.mp h
  refine locate_eq_ok_iff.mpr ⟨k, parts, hstart, ?_⟩
  have hparts := List.rdropWhile_append_rtakeWhile (p := List.isEmpty) (l := parts)
  have hempty : ∀ part ∈ parts.rtakeWhile List.isEmpty, part.isEmpty = true :=
    fun part hpart => List.mem_rtakeWhile_imp hpart
  unfold List.rdropWhile at hparts
  dsimp only at hslot
  generalize (parts.reverse.dropWhile List.isEmpty).reverse = kept at hslot hparts
  split at hslot
  · cases hslot
  · next last above hreverse =>
    obtain ⟨folder, habove, hslot⟩ := bind_eq_ok_iff.mp hslot
    obtain ⟨here, hhere, hslot⟩ := bind_eq_ok_iff.mp hslot
    split at hslot
    · next hlast =>
      simp only [Except.ok.injEq, Slot.mk.injEq, Option.some.injEq] at hslot
      obtain ⟨rfl, rfl, -⟩ := hslot
      obtain ⟨-, rfl⟩ := step_ok hhere
      rw [hlast] at hhere
      have hkept : kept = above.reverse ++ [last] := by
        rw [← List.reverse_reverse kept, hreverse, List.reverse_cons]
      rw [← hparts, hkept, List.append_assoc, List.foldlM_append, bind_eq_ok_iff]
      refine ⟨folder, habove, ?_⟩
      rw [List.singleton_append, List.foldlM_cons, bind_eq_ok_iff]
      exact ⟨_, hhere, foldlM_step_of_empty hfolder hempty⟩
    · cases hslot

theorem target_isPrefix (hq : q.components ≠ []) (habove : q.components <+: p.components)
    (hp : p.Straight) : d.target q <+: d.target p := by
  obtain ⟨rest, hrest⟩ := habove
  have hdots : .parent ∉ rest := fun h => hp (hrest ▸ List.mem_append_right _ h)
  obtain ⟨names, -, rfl⟩ := FilePath.exists_names_below hq hrest.symm hdots
  rw [target_of_names hrest.symm]
  exact List.prefix_append _ _

theorem isPrefix_of_step_ok {part : List Char} (h : d.step l part = .ok m)
    (hpart : ofPart? part ≠ some .parent) : l <+: m := by
  obtain ⟨-, rfl⟩ := step_ok h
  unfold ofPart? at hpart ⊢
  split
  · next c hc =>
    split at hc
    · cases hc
    · split at hc
      · next hdots => simp_all
      · cases hc
        exact List.prefix_append l _
  · exact List.prefix_refl l

/-- What was there before tells the folders above it from those that are new. -/
theorem Grows.folder_of_isPrefix {e : Entry} (h : Grows d d') (htree : d.IsTree) (hlm : l <+: m)
    (he : d.get? m = some e) (hl : d'.get? l = some .folder) : d.get? l = some .folder := by
  obtain ⟨below, rfl⟩ := hlm
  rcases eq_or_ne below [] with rfl | hne
  · rw [List.append_nil] at he
    obtain ⟨e', he', hkind⟩ := h.entry l e he
    cases hl.symm.trans he'
    cases e with
    | folder => exact he
    | file content => cases hkind
  · exact htree.folder hne he

/-- The folders on the way are those above the place to which the parts lead. -/
theorem foldlM_step_of_straight {parts : List (List Char)} {e : Entry} (hgrows : Grows d d')
    (htree : d.IsTree) (hparts : .parent ∉ parts.filterMap ofPart?)
    (h : parts.foldlM d'.step l = .ok m) (he : d.get? m = some e) :
    l <+: m ∧ parts.foldlM d.step l = .ok m := by
  induction parts generalizing l with
  | nil =>
    cases h
    exact ⟨List.prefix_refl _, rfl⟩
  | cons part parts ih =>
    rw [List.foldlM_cons, bind_eq_ok_iff] at h
    obtain ⟨k, hstep, hrest⟩ := h
    have hpart : ofPart? part ≠ some .parent :=
      fun hpart => hparts (List.mem_filterMap.mpr ⟨part, List.mem_cons_self, hpart⟩)
    have hlater : .parent ∉ parts.filterMap ofPart? := by
      intro hmem
      obtain ⟨part', hpart', hof⟩ := List.mem_filterMap.mp hmem
      exact hparts (List.mem_filterMap.mpr ⟨part', List.mem_cons_of_mem part hpart', hof⟩)
    obtain ⟨hkm, hwalk⟩ := ih hlater hrest
    have hlm := (isPrefix_of_step_ok hstep hpart).trans hkm
    have hfolder := hgrows.folder_of_isPrefix htree hlm he (step_ok hstep).1
    exact ⟨hlm, by rw [List.foldlM_cons, step_of_folder hfolder hstep]; exact hwalk⟩

theorem locate_of_straight {e : Entry} (hgrows : Grows d d') (htree : d.IsTree) (hp : p.Straight)
    (h : d'.locate p = .ok l) (he : d.get? l = some e) : d.locate p = .ok l := by
  obtain ⟨k, parts, hstart, hwalk⟩ := locate_eq_ok_iff.mp h
  rw [start_of_workingDir hgrows.workingDir] at hstart
  obtain ⟨lead, hcomponents, -, -⟩ := start_ok hstart
  have hparts : .parent ∉ parts.filterMap ofPart? :=
    fun hmem => hp (hcomponents ▸ List.mem_append_right lead hmem)
  exact locate_eq_ok_iff.mpr ⟨k, parts, hstart, (foldlM_step_of_straight hgrows htree hparts hwalk he).2⟩

/-- From `d` to `d'` nothing has changed but where the path passes. -/
structure Passes (p : FilePath) (d d' : Disk) : Prop where
  workingDir : d'.workingDir = d.workingDir
  same : ∀ l, (∀ q : FilePath, q.components ≠ [] → q.components <+: p.components → l ≠ d.target q) →
    d'.get? l = d.get? l

namespace Passes

variable {d₁ d₂ d₃ : Disk}

theorem refl (p : FilePath) (d : Disk) : Passes p d d := ⟨rfl, fun _ _ => rfl⟩

theorem trans (h₁ : Passes p d₁ d₂) (h₂ : Passes p d₂ d₃) : Passes p d₁ d₃ := by
  refine ⟨h₂.workingDir.trans h₁.workingDir, fun l hl => ?_⟩
  rw [h₂.same l fun q hq habove => ?_, h₁.same l hl]
  rw [target_of_workingDir h₁.workingDir]
  exact hl q hq habove

instance (p : FilePath) : IsPreorder Disk (Passes p) where
  refl := refl p
  trans _ _ _ := trans

theorem get?_eq (h : Passes p d d') (hp : p.Straight) (hl : ¬l <+: d.target p) :
    d'.get? l = d.get? l := by
  refine h.same l fun q hq habove heq => hl ?_
  rw [heq]
  exact target_isPrefix hq habove hp

end Passes

/-- The path leads to what was there before. -/
structure SameAt (p : FilePath) (d d' : Disk) : Prop where
  workingDir : d'.workingDir = d.workingDir
  same : d'.get? (d.target p) = d.get? (d.target p)

instance (p : FilePath) : IsPreorder Disk (SameAt p) where
  refl _ := ⟨rfl, rfl⟩
  trans _ _ _ h₁ h₂ :=
    ⟨h₂.workingDir.trans h₁.workingDir, by
      rw [← h₁.same, ← target_of_workingDir h₁.workingDir, h₂.same]⟩

end Disk

namespace Change

open Disk (Passes SameAt)

variable {p q : FilePath} {d d' : Disk} {n : Nat}

theorem makeFolder_ok (h : makeFolder p d = (.ok (), d')) : d'.isFolder p = true := by
  rcases ofDisk_cases _ d with ⟨f, -, hrun⟩ | ⟨d₁, hd₁, hrun⟩
  · cases h.symm.trans hrun
  · cases h.symm.trans hrun
    obtain ⟨slot, hslot, hmake⟩ := bind_eq_ok_iff.mp hd₁
    split at hmake
    · next l name slashed =>
      have hne : l ++ [name] ≠ [] := List.append_ne_nil_of_right_ne_nil l (List.cons_ne_nil name [])
      dsimp only at hmake
      split at hmake
      · cases hmake
      · next hfree =>
        cases hmake
        have hwrites := Disk.Writes.put_folder hne (by simpa using hfree)
        have hput : (d.put (l ++ [name]) .folder).get? (l ++ [name]) = some .folder := by
          rw [Disk.get?_put hne, if_pos rfl]
        have hslot' := Disk.slot_of_folders hwrites.workingDir hwrites.folder hslot
        exact Disk.isFolder_iff.mpr ⟨_, Disk.locate_of_slot hslot' hput, hput⟩
    · cases hmake

theorem isFolder_of_makeChain_ok {above : List FilePath} (hp : p.components ≠ [])
    (h : makeChain (p :: above) d = (.ok (), d')) : d'.isFolder p = true := by
  unfold makeChain at h
  rw [if_neg hp] at h
  split at h
  · split at h
    · split at h
      · split at h
        · next hfolder =>
          cases h
          exact hfolder
        · cases h
      · exact makeFolder_ok h
    · next hfailed => exact absurd h (hfailed () d')
  · split at h
    · next hfolder =>
      cases h
      exact hfolder
    · cases h
  · exact makeFolder_ok h

theorem isFolder_of_makeFolders_ok (hp : p.components ≠ []) (h : makeFolders p d = (.ok (), d')) :
    d'.isFolder p = true := isFolder_of_makeChain_ok hp h

theorem components_isPrefix_of_mem_chain (h : q ∈ chain n p) : q.components <+: p.components := by
  induction n generalizing p with
  | zero => cases h
  | succ n ih =>
    rw [chain] at h
    rcases List.mem_cons.mp h with rfl | h
    · exact List.prefix_refl _
    · cases hparent : p.parent? with
      | none =>
        rw [hparent] at h
        cases h
      | some above =>
        rw [hparent] at h
        obtain ⟨c, hc⟩ := FilePath.exists_component_of_parent? hparent
        exact (ih h).trans ⟨[c], hc.symm⟩

theorem passes_makeFolder (h : q.components <+: p.components) : Respects (Passes p) (makeFolder q) := by
  intro d
  rcases makeFolder_cases q d with ⟨f, hrun⟩ | ⟨hl, -, -, hrun⟩
  · rw [hrun]
    exact .refl p d
  · have hq : q.components ≠ [] := by
      obtain ⟨l, hlocate, -⟩ := Disk.isFolder_iff.mp (makeFolder_ok hrun)
      exact mt FilePath.components_eq_nil_iff.mp (Disk.text_ne_of_locate hlocate)
    rw [hrun]
    refine ⟨rfl, fun l hl' => ?_⟩
    rw [Disk.get?_put hl, if_neg (hl' q hq h)]

theorem passes_makeFolders (p : FilePath) : Respects (Passes p) (makeFolders p) :=
  respects_makeChain_of fun _ hq => passes_makeFolder (components_isPrefix_of_mem_chain hq)

theorem sameAt_makeFolders (hq : q.Straight) (h : ∀ d : Disk, ¬d.target p <+: d.target q) :
    Respects (SameAt p) (makeFolders q) := by
  intro d
  have hpasses := passes_makeFolders q d
  exact ⟨hpasses.workingDir, hpasses.get?_eq hq (h d)⟩

end Change

end ModBuild
