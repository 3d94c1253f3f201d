import ModBuild.Proofs.Disk.Growth

/-!
# Trees

On a disk that is a tree every entry lies in a folder, so nothing lies below a free location. A file
that is put there and taken away again leaves the disk exactly as it was. The changes of a pass keep a
disk a tree, because a path is only written to when it lies in a folder.
-/

namespace ModBuild

set_option autoImplicit false

namespace Disk

variable {d : Disk} {l : Location} {e : Entry}

def IsTree (d : Disk) : Prop := ∀ x ∈ d.entries, d.get? x.1.dropLast = some .folder

instance (d : Disk) : Decidable d.IsTree := inferInstanceAs (Decidable (∀ x ∈ d.entries, _))

theorem get?_ne_none_of_mem {x : Location × Entry} (h : x ∈ d.entries) : d.get? x.1 ≠ none := by
  unfold get?
  split
  · exact Option.some_ne_none _
  · intro hnone
    have hne := List.lookup_eq_none_iff.mp hnone x h
    simp at hne

namespace IsTree

/-- The induction is on the names below, each of which would have to lie in a folder. -/
theorem get?_append_eq_none (h : d.IsTree) (hl : d.get? l = none) (below : List String) :
    d.get? (l ++ below) = none := by
  induction below using List.reverseRecOn with
  | nil => rwa [List.append_nil]
  | append_singleton below n ih =>
    rw [← List.append_assoc, ← Option.not_isSome_iff_eq_none, Option.isSome_iff_exists]
    rintro ⟨e, he⟩
    have hparent := h _ (mem_entries_of_get? (by simp) he)
    rw [List.dropLast_concat, ih] at hparent
    cases hparent

theorem folder {below : List String} (h : d.IsTree) (hne : below ≠ [])
    (he : d.get? (l ++ below) = some e) : d.get? l = some .folder := by
  induction below using List.reverseRecOn generalizing e with
  | nil => exact absurd rfl hne
  | append_singleton below n ih =>
    rw [← List.append_assoc] at he
    have hparent := h _ (mem_entries_of_get? (by simp) he)
    rw [List.dropLast_concat] at hparent
    cases below with
    | nil => rwa [List.append_nil] at hparent
    | cons m below => exact ih (List.cons_ne_nil m below) hparent

theorem get?_erase_of_file (h : d.IsTree) {m : Location} {content : ByteArray}
    (hfile : d.get? l = some (.file content)) (hm : m ≠ l) : (d.erase l).get? m = d.get? m := by
  by_cases hroot : m = []
  · rw [hroot, get?, get?, if_pos rfl, if_pos rfl]
  · rw [get?_erase hroot]
    split
    · next hbelow =>
      obtain ⟨below, rfl⟩ := hbelow
      have hne : below ≠ [] := by
        rintro rfl
        exact hm (List.append_nil l)
      cases hentry : d.get? (l ++ below) with
      | none => rfl
      | some e => cases hfile.symm.trans (h.folder hne hentry)
    · rfl

theorem not_below (h : d.IsTree) (hl : d.get? l = none) {x : Location × Entry} (hx : x ∈ d.entries) :
    ¬l <+: x.1 := by
  rintro ⟨below, hbelow⟩
  exact get?_ne_none_of_mem hx (hbelow ▸ h.get?_append_eq_none hl below)

theorem erase_put (h : d.IsTree) (hl : d.get? l = none) (e : Entry) : (d.put l e).erase l = d := by
  have hput : d.entries.filter (fun x => decide (x.1 ≠ l)) = d.entries := by
    refine List.filter_eq_self.mpr fun x hx => decide_eq_true ?_
    intro heq
    exact h.not_below hl hx (heq ▸ List.prefix_refl x.1)
  have herase : d.entries.filter (fun x => !l.isPrefixOf x.1) = d.entries := by
    refine List.filter_eq_self.mpr fun x hx => ?_
    rw [Bool.not_eq_true', Bool.eq_false_iff, Ne, List.isPrefixOf_iff_prefix]
    exact h.not_below hl hx
  unfold erase put
  rw [hput, List.filter_cons_of_neg (by simp), herase]

theorem put (h : d.IsTree) (hl : l ≠ []) (hparent : d.get? l.dropLast = some .folder)
    (hstay : d.get? l = some .folder → e = .folder) : (d.put l e).IsTree := by
  have hfolder : ∀ m, d.get? m = some .folder → (d.put l e).get? m = some .folder := by
    intro m hm
    rw [get?_put hl]
    split
    · next heq => rw [hstay (heq ▸ hm)]
    · exact hm
  intro x hx
  rcases List.mem_cons.mp hx with rfl | hx
  · exact hfolder _ hparent
  · exact hfolder _ (h x (List.mem_filter.mp hx).1)

end IsTree

end Disk

namespace Change

open Disk (IsTree)

theorem isTree_makeFolder (p : FilePath) : Respects (Keeps IsTree) (makeFolder p) := by
  intro d htree
  rcases makeFolder_cases p d with ⟨f, h⟩ | ⟨hl, hparent, -, h⟩
  · rw [h]
    exact htree
  · rw [h]
    exact htree.put hl hparent fun _ => rfl

theorem isTree_write (p : FilePath) (content : ByteArray) :
    Respects (Keeps IsTree) (write p content) := by
  intro d htree
  rcases write_cases p content d with ⟨f, h⟩ | ⟨hwrite, h⟩
  · rw [h]
    exact htree
  · rw [h]
    exact htree.put hwrite.target_ne_nil hwrite.parent fun hfolder => absurd hfolder hwrite.not_folder

theorem removeFile_ok {p : FilePath} {d d' : Disk} (htree : d.IsTree)
    (h : removeFile p d = (.ok (), d')) :
    d'.isThere p = false ∧ ∀ l, l ≠ d.target p → d'.get? l = d.get? l := by
  rcases removeFile_cases p d with ⟨f, herror⟩ | ⟨⟨content, hfile⟩, herase⟩
  · cases h.symm.trans herror
  · cases h.symm.trans herase
    refine ⟨?_, fun l hl => htree.get?_erase_of_file hfile hl⟩
    have hne : d.target p ≠ [] := by
      intro hroot
      rw [hroot] at hfile
      cases hfile
    have hgone : (d.erase (d.target p)).get? (d.target p) = none := by
      rw [Disk.get?_erase hne, if_pos (List.prefix_refl _)]
    rw [Bool.eq_false_iff, ne_eq, Disk.isThere_iff]
    rintro ⟨l, e, hl, he⟩
    have htarget : (d.erase (d.target p)).target p = d.target p := Disk.target_of_workingDir rfl p
    rw [Disk.locate_eq_target hl, htarget, hgone] at he
    cases he

end Change

end ModBuild
