import Mathlib.Data.List.DropRight
import ModBuild.Proofs.Disk.Run
import ModBuild.Proofs.Path.Components

/-!
# Where a path leads

A disk has no links, so a path that leads anywhere leads to a location that its components decide
(`locate_eq_target`). The disk only says whether the folders on the way are there; as long as they
stay, the path keeps leading there (`locate_of_folders`).
-/

namespace ModBuild

set_option autoImplicit false

/-- One component of a path, taken by name alone. -/
def Component.follow (l : Location) : Component → Location
  | root => []
  | current => l
  | parent => l.dropLast
  | name text => l ++ [text]

namespace Disk

variable {d d' : Disk} {p q : FilePath} {l m : Location}

/-- Where a path leads when everything on the way is there. -/
def target (d : Disk) (p : FilePath) : Location :=
  p.components.foldl Component.follow d.workingDir

theorem target_of_workingDir (h : d'.workingDir = d.workingDir) (p : FilePath) :
    d'.target p = d.target p := by
  simp only [target, h]

theorem target_of_same (h : p.Same q) (d : Disk) : d.target p = d.target q := by
  unfold target
  rw [h]

theorem target_of_names {above : FilePath} {names : List String}
    (h : p.components = above.components ++ names.map .name) :
    d.target p = d.target above ++ names := by
  unfold target
  rw [h, List.foldl_append, List.foldl_map]
  generalize above.components.foldl Component.follow d.workingDir = l
  clear h
  induction names generalizing l with
  | nil => simp
  | cons n names ih =>
    rw [List.foldl_cons, Component.follow, ih, List.append_assoc, List.singleton_append]

theorem target_foldl_join (d : Disk) (p : FilePath) {parts : List String}
    (h : ∀ part ∈ parts, SlashPath.IsSegment part) (hdots : ".." ∉ parts) :
    d.target (parts.foldl FilePath.join p) = d.target p ++ parts := by
  apply target_of_names
  rw [FilePath.components_foldl_join p h]
  congr 1
  refine List.map_congr_left fun part hpart => Component.ofSegment_of_ne ?_
  rintro rfl
  exact hdots hpart

theorem step_ok {part : List Char} (h : d.step l part = .ok m) :
    d.get? l = some .folder ∧
      m = match Component.ofPart? part with
        | some c => c.follow l
        | none => l := by
  unfold step at h
  split at h
  · cases h
  · cases h
  · next hfolder =>
    refine ⟨hfolder, ?_⟩
    unfold Component.ofPart?
    split at h
    · next htrivial =>
      cases h
      rw [if_pos htrivial]
    · next htrivial =>
      rw [if_neg htrivial]
      split at h
      · next hdots =>
        cases h
        rw [if_pos hdots]
        rfl
      · next hdots =>
        split at h
        · cases h
        · cases h
          rw [if_neg hdots]
          rfl

theorem foldlM_step_ok {parts : List (List Char)} (h : parts.foldlM d.step l = .ok m) :
    m = (parts.filterMap Component.ofPart?).foldl Component.follow l := by
  induction parts generalizing l with
  | nil =>
    cases h
    rfl
  | cons part parts ih =>
    rw [List.foldlM_cons, bind_eq_ok_iff] at h
    obtain ⟨k, hstep, hrest⟩ := h
    obtain ⟨-, rfl⟩ := step_ok hstep
    rw [ih hrest, List.filterMap_cons]
    cases Component.ofPart? part <;> rfl

/-- The parts from the start on are the components but for what introduces the path. -/
theorem start_ok {parts : List (List Char)} (h : d.start p = .ok (l, parts)) :
    ∃ lead, p.components = lead ++ parts.filterMap Component.ofPart? ∧ lead.length ≤ 1 ∧
      lead.foldl Component.follow d.workingDir = l := by
  unfold start at h
  split at h
  · cases h
  split at h
  · cases h
  split at h
  · cases h
  split at h
  · next habsolute =>
    cases h
    obtain ⟨first, rest, hparts⟩ := List.exists_cons_of_ne_nil (Text.split_ne_nil '/' p.text.toList)
    have hfirst : first = [] := by
      unfold FilePath.isAbsolute at habsolute
      cases htext : p.text.toList with
      | nil => simp [htext] at habsolute
      | cons c cs =>
        have hc : c = '/' := by simpa [htext] using habsolute
        rw [htext, hc, Text.split, if_pos rfl] at hparts
        exact (List.cons.inj hparts).1.symm
    subst first
    change p.parts = _ at hparts
    refine ⟨[.root], ?_, Nat.le_refl 1, rfl⟩
    unfold FilePath.components
    rw [if_pos habsolute, hparts]
    rfl
  · next habsolute =>
    cases h
    unfold FilePath.components
    rw [if_neg habsolute]
    split
    · exact ⟨[.current], rfl, Nat.le_refl 1, rfl⟩
    · exact ⟨[], rfl, Nat.zero_le 1, rfl⟩

theorem target_of_start {parts : List (List Char)} (h : d.start p = .ok (l, parts)) :
    d.target p = (parts.filterMap Component.ofPart?).foldl Component.follow l := by
  obtain ⟨lead, hcomponents, -, rfl⟩ := start_ok h
  rw [target, hcomponents, List.foldl_append]

theorem locate_eq_ok_iff :
    d.locate p = .ok l ↔
      ∃ k parts, d.start p = .ok (k, parts) ∧ parts.foldlM d.step k = .ok l := by
  unfold locate
  rw [bind_eq_ok_iff, Prod.exists]

theorem locate_eq_target (h : d.locate p = .ok l) : l = d.target p := by
  obtain ⟨k, parts, hstart, hwalk⟩ := locate_eq_ok_iff.mp h
  rw [target_of_start hstart]
  exact foldlM_step_ok hwalk

theorem text_ne_of_locate (h : d.locate p = .ok l) : p.text ≠ "" := by
  intro hempty
  unfold locate start at h
  rw [if_pos hempty] at h
  cases h

theorem find?_eq_ok_iff {entry : Entry} :
    d.find? p = .ok entry ↔ ∃ l, d.locate p = .ok l ∧ d.get? l = some entry := by
  unfold find?
  rw [bind_eq_ok_iff]
  refine exists_congr fun l => and_congr_right fun _ => ?_
  cases d.get? l with
  | none => exact iff_of_false (fun h => by cases h) (fun h => by cases h)
  | some e => simp

theorem isThere_iff : d.isThere p = true ↔ ∃ l entry, d.locate p = .ok l ∧ d.get? l = some entry := by
  rw [exists_comm]
  simp only [← find?_eq_ok_iff, isThere]
  cases d.find? p with
  | error f => exact iff_of_false Bool.false_ne_true fun ⟨entry, h⟩ => by cases h
  | ok entry => exact iff_of_true rfl ⟨entry, rfl⟩

theorem get?_of_not_isThere (h : d.locate p = .ok l) (hnone : d.isThere p = false) :
    d.get? l = none := by
  cases hentry : d.get? l with
  | none => rfl
  | some entry =>
    rw [isThere_iff.mpr ⟨l, entry, h, hentry⟩] at hnone
    cases hnone

theorem isFolder_iff : d.isFolder p = true ↔ ∃ l, d.locate p = .ok l ∧ d.get? l = some .folder := by
  rw [← find?_eq_ok_iff, isFolder]
  split
  · next h => simp [h]
  · next h => exact iff_of_false Bool.false_ne_true h

theorem isFile_iff :
    d.isFile p = true ↔ ∃ l content, d.locate p = .ok l ∧ d.get? l = some (.file content) := by
  rw [exists_comm]
  simp only [← find?_eq_ok_iff, isFile]
  split
  · next content h => simp [h]
  · next h => exact iff_of_false Bool.false_ne_true fun ⟨content, hfile⟩ => h content hfile

theorem read_eq_ok_iff {content : ByteArray} :
    d.read p = .ok content ↔
      d.locate p = .ok (d.target p) ∧ d.get? (d.target p) = some (.file content) := by
  unfold read
  rw [bind_eq_ok_iff]
  constructor
  · rintro ⟨entry, hfind, hread⟩
    obtain ⟨l, hlocate, hentry⟩ := find?_eq_ok_iff.mp hfind
    cases entry with
    | folder => cases hread
    | file _ =>
      cases hread
      exact locate_eq_target hlocate ▸ ⟨hlocate, hentry⟩
  · rintro ⟨hlocate, hfile⟩
    exact ⟨.file content, find?_eq_ok_iff.mpr ⟨_, hlocate, hfile⟩, rfl⟩

theorem read_of_get? {content : ByteArray} (h : d.locate p = .ok l)
    (hfile : d.get? l = some (.file content)) : d.read p = .ok content := by
  have hfind : d.find? p = .ok (.file content) := bind_eq_ok_iff.mpr ⟨l, h, by rw [hfile]⟩
  exact bind_eq_ok_iff.mpr ⟨_, hfind, rfl⟩

theorem isThere_of_read {content : ByteArray} (h : d.read p = .ok content) : d.isThere p = true := by
  obtain ⟨hlocate, hfile⟩ := read_eq_ok_iff.mp h
  exact isThere_iff.mpr ⟨_, _, hlocate, hfile⟩

theorem folder_of_foldlM_step_ok {parts : List (List Char)} {c : Component} {cs rest : List Component}
    (h : parts.foldlM d.step l = .ok m)
    (hparts : parts.filterMap Component.ofPart? = cs ++ c :: rest) :
    d.get? (cs.foldl Component.follow l) = some .folder := by
  induction parts generalizing l cs with
  | nil => simp at hparts
  | cons part parts ih =>
    rw [List.foldlM_cons, bind_eq_ok_iff] at h
    obtain ⟨k, hstep, hrest⟩ := h
    obtain ⟨hfolder, rfl⟩ := step_ok hstep
    cases hpart : Component.ofPart? part with
    | none =>
      rw [List.filterMap_cons_none hpart] at hparts
      rw [hpart] at hrest
      exact ih hrest hparts
    | some next =>
      rw [List.filterMap_cons_some hpart] at hparts
      rw [hpart] at hrest
      cases cs with
      | nil => exact hfolder
      | cons first cs =>
        obtain ⟨rfl, htail⟩ := List.cons.inj hparts
        rw [List.foldl_cons]
        exact ih hrest htail

theorem folder_of_locate {above : FilePath} {c : Component} {cs : List Component}
    (h : d.locate p = .ok l) (habove : above.components ≠ [])
    (hp : p.components = above.components ++ c :: cs) : d.get? (d.target above) = some .folder := by
  obtain ⟨k, parts, hstart, hwalk⟩ := locate_eq_ok_iff.mp h
  obtain ⟨lead, hcomponents, hlead, rfl⟩ := start_ok hstart
  obtain ⟨below, hbelow⟩ : lead <+: above.components := by
    refine List.prefix_of_prefix_length_le ⟨_, hcomponents.symm⟩ ⟨_, hp.symm⟩ ?_
    exact hlead.trans (List.length_pos_iff.mpr habove)
  rw [hcomponents, ← hbelow, List.append_assoc, List.append_cancel_left_eq] at hp
  rw [target, ← hbelow, List.foldl_append]
  exact folder_of_foldlM_step_ok hwalk hp

theorem step_of_folder {part : List Char} (hfolder : d'.get? l = some .folder)
    (h : d.step l part = .ok m) : d'.step l part = .ok m := by
  have hbefore := (step_ok h).1
  unfold step at h ⊢
  rw [hbefore] at h
  rw [hfolder]
  exact h

section

variable (hfolders : ∀ k, d.get? k = some .folder → d'.get? k = some .folder)
include hfolders

theorem step_of_folders {part : List Char} (h : d.step l part = .ok m) : d'.step l part = .ok m :=
  step_of_folder (hfolders l (step_ok h).1) h

theorem foldlM_step_of_folders {parts : List (List Char)} (h : parts.foldlM d.step l = .ok m) :
    parts.foldlM d'.step l = .ok m := by
  induction parts generalizing l with
  | nil => exact h
  | cons part parts ih =>
    rw [List.foldlM_cons, bind_eq_ok_iff] at h ⊢
    obtain ⟨k, hstep, hrest⟩ := h
    exact ⟨k, step_of_folders hfolders hstep, ih hrest⟩

end

theorem start_of_workingDir (hdir : d'.workingDir = d.workingDir) (p : FilePath) :
    d'.start p = d.start p := by
  unfold start
  rw [hdir]

theorem locate_of_folders (hdir : d'.workingDir = d.workingDir)
    (hfolders : ∀ k, d.get? k = some .folder → d'.get? k = some .folder)
    (h : d.locate p = .ok l) : d'.locate p = .ok l := by
  obtain ⟨k, parts, hstart, hwalk⟩ := locate_eq_ok_iff.mp h
  refine locate_eq_ok_iff.mpr ⟨k, parts, ?_, foldlM_step_of_folders hfolders hwalk⟩
  rw [start_of_workingDir hdir, hstart]

/-- The slot of a path is where it would lead if everything were there. -/
theorem slot_eq_target {name : String} {slashed : Bool}
    (h : d.slot p = .ok ⟨l, some name, slashed⟩) : l ++ [name] = d.target p := by
  obtain ⟨⟨k, parts⟩, hstart, hslot⟩ := bind_eq_ok_iff.mp h
  rw [target_of_start hstart]
  have hkept : parts.filterMap Component.ofPart? =
      (parts.rdropWhile List.isEmpty).filterMap Component.ofPart? := by
    have hdropped : (parts.rtakeWhile List.isEmpty).filterMap Component.ofPart? = [] := by
      rw [List.filterMap_eq_nil_iff]
      intro part hpart
      have hempty := List.mem_rtakeWhile_imp hpart
      exact Component.ofPart?_of_isTrivial (by rw [Component.isTrivial, hempty, Bool.true_or])
    have hparts := List.rdropWhile_append_rtakeWhile (p := List.isEmpty) (l := parts)
    rw [← List.append_nil ((parts.rdropWhile _).filterMap _), ← hdropped, ← List.filterMap_append,
      hparts]
  rw [hkept]
  unfold List.rdropWhile
  dsimp only at hslot
  generalize (parts.reverse.dropWhile List.isEmpty).reverse = kept at hslot ⊢
  split at hslot
  · cases hslot
  · next last above hreverse =>
    obtain ⟨folder, hfolder, hslot⟩ := bind_eq_ok_iff.mp hslot
    obtain ⟨here, -, hslot⟩ := bind_eq_ok_iff.mp hslot
    split at hslot
    · next hlast =>
      simp only [Except.ok.injEq, Slot.mk.injEq, Option.some.injEq] at hslot
      obtain ⟨rfl, rfl, -⟩ := hslot
      obtain rfl : kept = above.reverse ++ [last] := by
        rw [← List.reverse_reverse kept, hreverse, List.reverse_cons]
      rw [List.filterMap_append, List.filterMap_cons_some hlast, List.filterMap_nil,
        List.foldl_append, ← foldlM_step_ok hfolder]
      rfl
    · cases hslot

theorem slot_ok {name : String} (h : d.slot p = .ok ⟨l, some name, false⟩) :
    d.locate p = .ok (l ++ [name]) := by
  obtain ⟨⟨k, parts⟩, hstart, hslot⟩ := bind_eq_ok_iff.mp h
  refine locate_eq_ok_iff.mpr ⟨k, parts, hstart, ?_⟩
  have hkept := List.rdropWhile_prefix List.isEmpty (l := parts)
  unfold List.rdropWhile at hkept
  dsimp only at hslot
  generalize (parts.reverse.dropWhile List.isEmpty).reverse = kept at hslot hkept
  split at hslot
  · cases hslot
  · next last above hreverse =>
    obtain ⟨folder, hfolder, hslot⟩ := bind_eq_ok_iff.mp hslot
    obtain ⟨here, hhere, hslot⟩ := bind_eq_ok_iff.mp hslot
    split at hslot
    · next hlast =>
      simp only [Except.ok.injEq, Slot.mk.injEq, Option.some.injEq, decide_eq_false_iff_not] at hslot
      obtain ⟨rfl, rfl, hlength⟩ := hslot
      have hparts : parts = above.reverse ++ [last] := by
        rw [← hkept.eq_of_length_le (by omega), ← List.reverse_reverse kept, hreverse,
          List.reverse_cons]
      obtain ⟨-, rfl⟩ := step_ok hhere
      rw [hlast] at hhere
      rw [hparts, List.foldlM_append, bind_eq_ok_iff]
      exact ⟨folder, hfolder, by rw [List.foldlM_cons, hhere]; rfl⟩
    · cases hslot

theorem slot_folder {name : String} {slashed : Bool} (h : d.slot p = .ok ⟨l, some name, slashed⟩) :
    d.get? l = some .folder := by
  obtain ⟨⟨k, parts⟩, -, hslot⟩ := bind_eq_ok_iff.mp h
  dsimp only at hslot
  split at hslot
  · cases hslot
  · obtain ⟨folder, -, hslot⟩ := bind_eq_ok_iff.mp hslot
    obtain ⟨here, hhere, hslot⟩ := bind_eq_ok_iff.mp hslot
    split at hslot
    · cases hslot
      exact (step_ok hhere).1
    · cases hslot

theorem slot_of_folders (hdir : d'.workingDir = d.workingDir)
    (hfolders : ∀ k, d.get? k = some .folder → d'.get? k = some .folder) {slot : Slot}
    (h : d.slot p = .ok slot) : d'.slot p = .ok slot := by
  obtain ⟨⟨k, parts⟩, hstart, hslot⟩ := bind_eq_ok_iff.mp h
  rw [← start_of_workingDir hdir] at hstart
  refine bind_eq_ok_iff.mpr ⟨⟨k, parts⟩, hstart, ?_⟩
  dsimp only at hslot ⊢
  split at hslot
  · exact hslot
  · obtain ⟨folder, hfolder, hslot⟩ := bind_eq_ok_iff.mp hslot
    obtain ⟨here, hhere, hslot⟩ := bind_eq_ok_iff.mp hslot
    exact bind_eq_ok_iff.mpr ⟨folder, foldlM_step_of_folders hfolders hfolder,
      bind_eq_ok_iff.mpr ⟨here, step_of_folders hfolders hhere, hslot⟩⟩

end Disk

end ModBuild
