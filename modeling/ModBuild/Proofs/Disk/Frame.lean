import Mathlib.Data.Set.Insert
import ModBuild.Proofs.Disk.Location

/-!
# What changes leave alone

Making folders and writing files never takes a folder away, and only the written files change. This
is the relation `Disk.Writes`. It holds between the disks before and after, whether the change
succeeds or stops on its way. A removal takes away what its path leads to, or nothing.
-/

namespace ModBuild

set_option autoImplicit false

/-- From `d` to `d'` folders may be new, and files differ at most where `paths` lead. -/
structure Disk.Writes (paths : Set FilePath) (d d' : Disk) : Prop where
  workingDir : d'.workingDir = d.workingDir
  folder : ∀ l, d.get? l = some .folder → d'.get? l = some .folder
  file : ∀ l, (∀ p ∈ paths, l ≠ d.target p) →
    ∀ content, d'.get? l = some (.file content) ↔ d.get? l = some (.file content)

namespace Disk.Writes

variable {s t : Set FilePath} {d d' d₁ d₂ d₃ : Disk} {p : FilePath} {l : Location}

theorem refl (s : Set FilePath) (d : Disk) : Writes s d d :=
  ⟨rfl, fun _ h => h, fun _ _ _ => Iff.rfl⟩

theorem target (h : Writes s d d') (p : FilePath) : d'.target p = d.target p :=
  target_of_workingDir h.workingDir p

theorem trans (h₁ : Writes s d₁ d₂) (h₂ : Writes s d₂ d₃) : Writes s d₁ d₃ := by
  refine ⟨h₂.workingDir.trans h₁.workingDir, fun l h => h₂.folder l (h₁.folder l h), ?_⟩
  intro l hl content
  have hl' : ∀ p ∈ s, l ≠ d₂.target p := by
    intro p hp
    rw [h₁.target]
    exact hl p hp
  exact (h₂.file l hl' content).trans (h₁.file l hl content)

instance (s : Set FilePath) : IsPreorder Disk (Writes s) where
  refl := refl s
  trans _ _ _ := trans

theorem mono (h : Writes s d d') (hst : s ⊆ t) : Writes t d d' :=
  ⟨h.workingDir, h.folder, fun l hl => h.file l fun p hp => hl p (hst hp)⟩

theorem locate (h : Writes s d d') (hl : d.locate p = .ok l) : d'.locate p = .ok l :=
  locate_of_folders h.workingDir h.folder hl

theorem read (h : Writes s d d') (hother : ∀ q ∈ s, d.target p ≠ d.target q) {content : ByteArray}
    (hread : d.read p = .ok content) : d'.read p = .ok content := by
  rw [read_eq_ok_iff] at hread ⊢
  obtain ⟨hlocate, hfile⟩ := hread
  rw [h.target]
  exact ⟨h.locate hlocate, (h.file _ hother content).mpr hfile⟩

theorem put_folder (hl : l ≠ []) (hfree : d.get? l = none) : Writes ∅ d (d.put l .folder) := by
  refine ⟨rfl, ?_, ?_⟩
  · intro m hm
    rw [get?_put hl]
    split
    · rfl
    · exact hm
  · intro m _ content
    rw [get?_put hl]
    split
    · next heq =>
      subst heq
      simp [hfree]
    · exact Iff.rfl

theorem put_file (hl : d.target p ≠ []) (hfolder : d.get? (d.target p) ≠ some .folder)
    (content : ByteArray) : Writes {p} d (d.put (d.target p) (.file content)) := by
  refine ⟨rfl, ?_, ?_⟩
  · intro m hm
    rw [get?_put hl, if_neg]
    · exact hm
    · rintro rfl
      exact hfolder hm
  · intro m hm c
    rw [get?_put hl, if_neg (hm p (Set.mem_singleton p))]

end Disk.Writes

namespace Disk

variable {d d' : Disk} {p : FilePath}

theorem put_put (d : Disk) (l : Location) (e e' : Entry) : (d.put l e).put l e' = d.put l e' := by
  unfold put
  simp [List.filter_filter]

/-- Nothing keeps a file from being written to the path. -/
def CanWrite (d : Disk) (p : FilePath) : Prop :=
  ∃ l name, d.slot p = .ok ⟨l, some name, false⟩ ∧ d.refused.lookup (l ++ [name]) = none ∧
    d.get? (l ++ [name]) ≠ some .folder

namespace CanWrite

theorem locate (h : d.CanWrite p) : d.locate p = .ok (d.target p) := by
  obtain ⟨l, name, hslot, -, -⟩ := h
  rw [slot_ok hslot, slot_eq_target hslot]

theorem target_ne_nil (h : d.CanWrite p) : d.target p ≠ [] := by
  obtain ⟨l, name, hslot, -, -⟩ := h
  rw [← slot_eq_target hslot]
  exact List.append_ne_nil_of_right_ne_nil l (List.cons_ne_nil name [])

theorem parent (h : d.CanWrite p) : d.get? (d.target p).dropLast = some .folder := by
  obtain ⟨l, name, hslot, -, -⟩ := h
  rw [← slot_eq_target hslot, List.dropLast_concat]
  exact slot_folder hslot

theorem not_folder (h : d.CanWrite p) : d.get? (d.target p) ≠ some .folder := by
  obtain ⟨l, name, hslot, -, hfolder⟩ := h
  rwa [← slot_eq_target hslot]

theorem put_file (h : d.CanWrite p) (content : ByteArray) :
    (d.put (d.target p) (.file content)).CanWrite p := by
  have hwrites := Writes.put_file h.target_ne_nil h.not_folder content
  have hne := h.target_ne_nil
  obtain ⟨l, name, hslot, hrefused, -⟩ := h
  rw [← slot_eq_target hslot] at hwrites hne ⊢
  refine ⟨l, name, slot_of_folders hwrites.workingDir hwrites.folder hslot, hrefused, ?_⟩
  rw [get?_put hne, if_pos rfl]
  exact fun h => by cases h

end CanWrite

end Disk

namespace Change

open Disk (Writes)

variable {p : FilePath} {d d' : Disk} {content : ByteArray}

theorem makeFolder_cases (p : FilePath) (d : Disk) :
    (∃ f, makeFolder p d = (.error f, d)) ∨
      d.target p ≠ [] ∧ d.get? (d.target p).dropLast = some .folder ∧ d.get? (d.target p) = none ∧
        makeFolder p d = (.ok (), d.put (d.target p) .folder) := by
  rcases ofDisk_cases _ d with ⟨f, -, h⟩ | ⟨d', hd', h⟩
  · exact Or.inl ⟨f, h⟩
  · obtain ⟨slot, hslot, hmake⟩ := bind_eq_ok_iff.mp hd'
    split at hmake
    · next l name _ =>
      have hfolder := Disk.slot_folder hslot
      rw [← Disk.slot_eq_target hslot]
      dsimp only at hmake
      split at hmake
      · cases hmake
      · next hfree =>
        cases hmake
        exact Or.inr ⟨by simp, by rwa [List.dropLast_concat], by simpa using hfree, h⟩
    · cases hmake

theorem write_of_canWrite (h : d.CanWrite p) (content : ByteArray) :
    write p content d = (.ok (), d.put (d.target p) (.file content)) := by
  obtain ⟨l, name, hslot, hrefused, hfolder⟩ := h
  rw [← Disk.slot_eq_target hslot]
  unfold write ofDisk
  simp only [hslot, hrefused, bind, Except.bind]

theorem write_cases (p : FilePath) (content : ByteArray) (d : Disk) :
    (∃ f, write p content d = (.error f, d)) ∨
      d.CanWrite p ∧ write p content d = (.ok (), d.put (d.target p) (.file content)) := by
  rcases ofDisk_cases _ d with ⟨f, -, h⟩ | ⟨d', hd', h⟩
  · exact Or.inl ⟨f, h⟩
  · obtain ⟨slot, hslot, hwrite⟩ := bind_eq_ok_iff.mp hd'
    split at hwrite
    · next l name =>
      rw [← Disk.slot_eq_target hslot]
      dsimp only at hwrite
      split at hwrite
      · cases hwrite
      · cases hwrite
      · next hrefused hfolder =>
        cases hwrite
        exact Or.inr ⟨⟨l, name, hslot, hrefused, hfolder⟩, h⟩
    · cases hwrite

theorem respects_makeFolder (p : FilePath) : Respects (Writes ∅) (makeFolder p) := by
  intro d
  rcases makeFolder_cases p d with ⟨f, h⟩ | ⟨hl, -, hfree, h⟩
  · rw [h]
    exact .refl ∅ d
  · rw [h]
    exact .put_folder hl hfree

theorem respects_write (p : FilePath) (content : ByteArray) : Respects (Writes {p}) (write p content) := by
  intro d
  rcases write_cases p content d with ⟨f, h⟩ | ⟨hwrite, h⟩
  · rw [h]
    exact .refl {p} d
  · rw [h]
    exact .put_file hwrite.target_ne_nil hwrite.not_folder content

theorem removeFile_cases (p : FilePath) (d : Disk) :
    (∃ f, removeFile p d = (.error f, d)) ∨
      (∃ content, d.get? (d.target p) = some (.file content)) ∧
        removeFile p d = (.ok (), d.erase (d.target p)) := by
  rcases ofDisk_cases _ d with ⟨f, -, h⟩ | ⟨d', hd', h⟩
  · exact Or.inl ⟨f, h⟩
  · obtain ⟨slot, hslot, hremove⟩ := bind_eq_ok_iff.mp hd'
    split at hremove
    · next l name slashed =>
      split at hremove
      · next content hfile =>
        split at hremove
        · cases hremove
        · next hslashed =>
          cases hremove
          rw [Bool.not_eq_true] at hslashed
          subst hslashed
          rw [← Disk.locate_eq_target (Disk.slot_ok hslot)]
          exact Or.inr ⟨⟨content, hfile⟩, h⟩
      · cases hremove
      · cases hremove
    · cases hremove

theorem removeFile_of_canWrite (h : d.CanWrite p)
    (hfile : d.get? (d.target p) = some (.file content)) :
    removeFile p d = (.ok (), d.erase (d.target p)) := by
  obtain ⟨l, name, hslot, -, -⟩ := h
  rw [← Disk.slot_eq_target hslot] at hfile ⊢
  unfold removeFile ofDisk
  simp [hslot, hfile, bind, Except.bind]

theorem removeFolder_cases (p : FilePath) (d : Disk) :
    (∃ f, removeFolder p d = (.error f, d)) ∨ removeFolder p d = (.ok (), d.erase (d.target p)) := by
  rcases ofDisk_cases _ d with ⟨f, -, h⟩ | ⟨d', hd', h⟩
  · exact Or.inl ⟨f, h⟩
  · obtain ⟨l, hlocate, hremove⟩ := bind_eq_ok_iff.mp hd'
    rw [← Disk.locate_eq_target hlocate]
    split at hremove
    · cases hremove
      exact Or.inr h
    · cases hremove
    · cases hremove

section

variable {R : Disk → Disk → Prop} [IsPreorder Disk R]

theorem respects_makeChain_of {ps : List FilePath} (h : ∀ p ∈ ps, Respects R (makeFolder p)) :
    Respects R (makeChain ps) := by
  induction ps with
  | nil => exact respects_throw _
  | cons p above ih =>
    have hfirst := h p List.mem_cons_self
    have ih := ih fun q hq => h q (List.mem_cons_of_mem p hq)
    intro d
    unfold makeChain
    split
    · exact refl_of R d
    split
    · split
      · next d₁ hchain =>
        refine trans_of R (ih.of_run hchain) ?_
        split
        · next d₂ hmake =>
          have hagain := hfirst.of_run hmake
          split <;> exact hagain
        · exact hfirst d₁
      · exact ih d
    · split <;> exact refl_of R d
    · exact hfirst d

theorem respects_copy_of {source target : FilePath}
    (h : ∀ content, Respects R (write target content)) : Respects R (copy source target) := by
  have hlook : ∀ {α : Type} (f : Disk → Except Fault α), Respects R (look f) := fun _ => refl_of R
  refine (hlook _).bind fun entry => ?_
  cases entry with
  | folder => exact respects_throw _
  | file _ => exact (h .empty).bind fun _ => (hlook _).bind h

end

theorem respects_makeFolders (p : FilePath) : Respects (Writes ∅) (makeFolders p) :=
  respects_makeChain_of fun q _ => respects_makeFolder q

theorem respects_copy (source target : FilePath) : Respects (Writes {target}) (copy source target) :=
  respects_copy_of (respects_write target)

theorem write_ok (h : write p content d = (.ok (), d')) :
    d'.locate p = .ok (d.target p) ∧ d'.get? (d.target p) = some (.file content) := by
  have hwrites := (respects_write p content).of_run h
  rcases write_cases p content d with ⟨f, herror⟩ | ⟨hwrite, hput⟩
  · rw [h] at herror
    cases herror
  · refine ⟨hwrites.locate hwrite.locate, ?_⟩
    rw [h] at hput
    cases hput
    rw [Disk.get?_put hwrite.target_ne_nil, if_pos rfl]

/-- A file is copied as it is, though onto itself it is emptied, or nothing happens. -/
theorem copy_cases (source target : FilePath) (d : Disk) :
    (∃ f, copy source target d = (.error f, d)) ∨
      ∃ content, d.get? (d.target source) = some (.file content) ∧ d.CanWrite target ∧
        copy source target d = (.ok (), d.put (d.target target)
          (.file (if d.target source = d.target target then .empty else content))) := by
  unfold copy
  rw [run_bind, look_apply]
  cases hfind : d.find? source with
  | error f => exact Or.inl ⟨f, rfl⟩
  | ok entry =>
    obtain ⟨l, hlocate, hentry⟩ := Disk.find?_eq_ok_iff.mp hfind
    obtain rfl := Disk.locate_eq_target hlocate
    cases entry with
    | folder => exact Or.inl ⟨.notAFile, rfl⟩
    | file content =>
      dsimp only
      rw [run_bind]
      rcases write_cases target .empty d with ⟨f, h⟩ | ⟨hwrite, h⟩
      · rw [h]
        exact Or.inl ⟨f, rfl⟩
      · refine Or.inr ⟨content, hentry, hwrite, ?_⟩
        have hemptied := (respects_write target .empty).of_run h
        have hread : (d.put (d.target target) (.file .empty)).read source =
            .ok (if d.target source = d.target target then .empty else content) := by
          refine Disk.read_of_get? (hemptied.locate hlocate) ?_
          rw [Disk.get?_put hwrite.target_ne_nil]
          split
          · rfl
          · exact hentry
        rw [h]
        dsimp only
        rw [run_bind, look_apply, hread]
        dsimp only
        have hagain := write_of_canWrite (hwrite.put_file .empty)
          (if d.target source = d.target target then .empty else content)
        rw [hemptied.target, Disk.put_put] at hagain
        exact hagain

theorem exists_file_of_copy_ok {source target : FilePath} (h : copy source target d = (.ok (), d')) :
    ∃ content, d.get? (d.target source) = some (.file content) := by
  rcases copy_cases source target d with ⟨f, herror⟩ | ⟨content, hfile, -, -⟩
  · rw [h] at herror
    cases herror
  · exact ⟨content, hfile⟩

end Change

end ModBuild
