import ModBuild.Proofs.Disk.Frame
import ModBuild.Proofs.Path.Relative

/-!
# What copies leave in place

A copy takes nothing away: where there was a folder there still is one, and where there was a file
there still is one, though its content may be another. This is the relation `Disk.Grows`. New names
come from paths, so a disk on which every name can be used in a path stays one.
-/

namespace ModBuild

set_option autoImplicit false

open Component

def Entry.isFolder : Entry → Bool
  | folder => true
  | file _ => false

namespace Disk

variable {d d' d₁ d₂ d₃ : Disk} {p q : FilePath} {l : Location} {n : String}

/-- Every name on the disk is one that a path can use. -/
def Named (d : Disk) : Prop :=
  (∀ n ∈ d.workingDir, IsName n) ∧ ∀ x ∈ d.entries, ∀ n ∈ x.1, IsName n

instance (d : Disk) : Decidable d.Named := inferInstanceAs (Decidable (_ ∧ _))

theorem mem_entries_of_get? {e : Entry} (hl : l ≠ []) (h : d.get? l = some e) : (l, e) ∈ d.entries := by
  rw [get?, if_neg hl] at h
  obtain ⟨before, after, hentries, -⟩ := List.lookup_eq_some_iff.mp h
  rw [hentries]
  exact List.mem_append_right before List.mem_cons_self

theorem mem_names_iff : n ∈ d.names l ↔ ∃ e, (l ++ [n], e) ∈ d.entries := by
  rw [names, List.mem_mergeSort, List.mem_filterMap]
  constructor
  · rintro ⟨⟨m, e⟩, hmem, hname⟩
    split at hname
    · next last hlast =>
      split at hname
      · next hfolder =>
        cases hname
        obtain ⟨above, rfl⟩ := List.getLast?_eq_some_iff.mp hlast
        rw [List.dropLast_concat] at hfolder
        exact ⟨e, hfolder ▸ hmem⟩
      · cases hname
    · cases hname
  · rintro ⟨e, he⟩
    exact ⟨_, he, by simp⟩

theorem mem_names_of_get? {e : Entry} (h : d.get? (l ++ [n]) = some e) : n ∈ d.names l :=
  mem_names_iff.mpr ⟨e, mem_entries_of_get? (by simp) h⟩

theorem Named.isName_of_mem_names (h : d.Named) (hn : n ∈ d.names l) : IsName n := by
  obtain ⟨e, he⟩ := mem_names_iff.mp hn
  exact h.2 _ he n (List.mem_append_right l List.mem_cons_self)

theorem Named.target (h : d.Named) (p : FilePath) : ∀ n ∈ d.target p, IsName n := by
  have hnames : ∀ n, .name n ∈ p.components → IsName n := fun n => p.isName_of_mem_components
  unfold Disk.target
  generalize p.components = cs at hnames
  have hstart := h.1
  generalize d.workingDir = l at hstart
  induction cs generalizing l with
  | nil => exact hstart
  | cons c cs ih =>
    refine ih (fun n hn => hnames n (List.mem_cons_of_mem c hn)) _ ?_
    cases c with
    | root => exact List.forall_mem_nil _
    | current => exact hstart
    | parent => exact fun n hn => hstart n (List.mem_of_mem_dropLast hn)
    | name n =>
      exact List.forall_mem_append.mpr
        ⟨hstart, List.forall_mem_singleton.mpr (hnames n List.mem_cons_self)⟩

theorem Named.put {e : Entry} (h : d.Named) (hl : ∀ n ∈ l, IsName n) : (d.put l e).Named := by
  refine ⟨h.1, fun x hx => ?_⟩
  rcases List.mem_cons.mp hx with rfl | hx
  · exact hl
  · exact h.2 x (List.mem_filter.mp hx).1

/-- From `d` to `d'` folders stay folders, files stay files, and no name is new that a path cannot
use. -/
structure Grows (d d' : Disk) : Prop where
  workingDir : d'.workingDir = d.workingDir
  entry : ∀ l e, d.get? l = some e → ∃ e', d'.get? l = some e' ∧ e'.isFolder = e.isFolder
  named : d.Named → d'.Named

namespace Grows

theorem refl (d : Disk) : Grows d d := ⟨rfl, fun _ e h => ⟨e, h, rfl⟩, id⟩

theorem trans (h₁ : Grows d₁ d₂) (h₂ : Grows d₂ d₃) : Grows d₁ d₃ := by
  refine ⟨h₂.workingDir.trans h₁.workingDir, fun l e he => ?_, h₂.named ∘ h₁.named⟩
  obtain ⟨e₂, he₂, hkind₂⟩ := h₁.entry l e he
  obtain ⟨e₃, he₃, hkind₃⟩ := h₂.entry l e₂ he₂
  exact ⟨e₃, he₃, hkind₃.trans hkind₂⟩

instance : IsPreorder Disk Grows where
  refl := refl
  trans _ _ _ := trans

/-- An entry takes the place of none or of one of its kind. -/
theorem put {e : Entry} (hl : d.target p ≠ [])
    (hkind : ∀ e', d.get? (d.target p) = some e' → e.isFolder = e'.isFolder) :
    Grows d (d.put (d.target p) e) := by
  refine ⟨rfl, fun m e' he' => ?_, fun h => h.put (h.target p)⟩
  by_cases hm : m = d.target p
  · subst hm
    exact ⟨e, by rw [get?_put hl, if_pos rfl], hkind e' he'⟩
  · exact ⟨e', by rw [get?_put hl, if_neg hm, he'], rfl⟩

theorem target (h : Grows d d') (p : FilePath) : d'.target p = d.target p :=
  target_of_workingDir h.workingDir p

theorem folder (h : Grows d d') (hl : d.get? l = some .folder) : d'.get? l = some .folder := by
  obtain ⟨e, he, hkind⟩ := h.entry l .folder hl
  cases e with
  | folder => exact he
  | file content => cases hkind

theorem file {content : ByteArray} (h : Grows d d') (hl : d.get? l = some (.file content)) :
    ∃ content', d'.get? l = some (.file content') := by
  obtain ⟨e, he, hkind⟩ := h.entry l (.file content) hl
  cases e with
  | folder => cases hkind
  | file content' => exact ⟨content', he⟩

theorem locate (h : Grows d d') (hp : d.locate p = .ok l) : d'.locate p = .ok l :=
  locate_of_folders h.workingDir (fun _ => h.folder) hp

theorem isFolder (h : Grows d d') (hp : d.isFolder p = true) : d'.isFolder p = true := by
  obtain ⟨l, hlocate, hl⟩ := isFolder_iff.mp hp
  exact isFolder_iff.mpr ⟨l, h.locate hlocate, h.folder hl⟩

theorem isThere (h : Grows d d') (hp : d.isThere p = true) : d'.isThere p = true := by
  obtain ⟨l, e, hlocate, hl⟩ := isThere_iff.mp hp
  obtain ⟨e', hl', -⟩ := h.entry l e hl
  exact isThere_iff.mpr ⟨l, e', h.locate hlocate, hl'⟩

theorem isFile (h : Grows d d') (hp : d.isFile p = true) : d'.isFile p = true := by
  obtain ⟨l, content, hlocate, hl⟩ := isFile_iff.mp hp
  obtain ⟨content', hl'⟩ := h.file hl
  exact isFile_iff.mpr ⟨l, content', h.locate hlocate, hl'⟩

end Grows

/-- The names lead from a folder to a file. -/
structure LeadsTo (d : Disk) (dir : FilePath) (names : List String) : Prop where
  isName : ∀ n ∈ names, IsName n
  file : ∃ content, d.get? (d.target dir ++ names) = some (.file content)
  folder : ∀ a b, names = a ++ b → b ≠ [] → d.get? (d.target dir ++ a) = some .folder

variable {dir : FilePath} {names : List String}

theorem LeadsTo.grows (h : LeadsTo d dir names) (hd : Grows d d') : LeadsTo d' dir names := by
  obtain ⟨content, hfile⟩ := h.file
  refine ⟨h.isName, ?_, ?_⟩
  · rw [hd.target]
    exact hd.file hfile
  · intro a b hab hb
    rw [hd.target]
    exact hd.folder (h.folder a b hab hb)

theorem LeadsTo.below (h : LeadsTo d dir (n :: names)) : LeadsTo d (dir.join n) names := by
  have hn : IsName n := h.isName n List.mem_cons_self
  have hcomponents : (dir.join n).components = dir.components ++ [n].map .name := by
    rw [dir.components_join hn.1, hn.ofSegment]
    rfl
  have htarget : ∀ a, d.target (dir.join n) ++ a = d.target dir ++ n :: a := by
    intro a
    rw [target_of_names hcomponents, List.append_assoc, List.singleton_append]
  refine ⟨fun m hm => h.isName m (List.mem_cons_of_mem n hm), ?_, ?_⟩
  · rw [htarget]
    exact h.file
  · rintro a b rfl hb
    rw [htarget]
    exact h.folder (n :: a) b rfl hb

theorem leadsTo_of_isFile (hq : d.isFile q = true) (hdir : dir.components ≠ [])
    (h : q.components = dir.components ++ names.map .name) (hnames : ∀ n ∈ names, IsName n) :
    LeadsTo d dir names := by
  obtain ⟨l, content, hlocate, hfile⟩ := isFile_iff.mp hq
  refine ⟨hnames, ⟨content, ?_⟩, ?_⟩
  · rw [← target_of_names h, ← locate_eq_target hlocate, hfile]
  · intro a b hab hb
    obtain ⟨next, rest, rfl⟩ := List.exists_cons_of_ne_nil hb
    have ha : ∀ n ∈ a, IsName n := fun n hn => hnames n (hab ▸ List.mem_append_left _ hn)
    have habove : (a.foldl FilePath.join dir).components = dir.components ++ a.map .name := by
      rw [dir.components_foldl_join fun n hn => (ha n hn).1,
        List.map_congr_left fun n hn => (ha n hn).ofSegment]
    rw [← target_of_names habove]
    have hparts : q.components =
        (a.foldl FilePath.join dir).components ++ .name next :: rest.map .name := by
      rw [h, habove, hab, List.map_append, List.append_assoc]
      rfl
    refine folder_of_locate hlocate ?_ hparts
    rw [habove]
    exact List.append_ne_nil_of_left_ne_nil hdir _

end Disk

namespace Change

open Disk (Grows)

theorem grows_makeFolder (p : FilePath) : Respects Grows (makeFolder p) := by
  intro d
  rcases makeFolder_cases p d with ⟨f, h⟩ | ⟨hl, -, hfree, h⟩
  · rw [h]
    exact .refl d
  · rw [h]
    exact .put hl fun e' he' => by
      rw [hfree] at he'
      cases he'

theorem grows_makeFolders (p : FilePath) : Respects Grows (makeFolders p) :=
  respects_makeChain_of fun q _ => grows_makeFolder q

theorem grows_write (p : FilePath) (content : ByteArray) : Respects Grows (write p content) := by
  intro d
  rcases write_cases p content d with ⟨f, h⟩ | ⟨hwrite, h⟩
  · rw [h]
    exact .refl d
  · rw [h]
    refine .put hwrite.target_ne_nil fun e' he' => ?_
    cases e' with
    | folder => exact absurd he' hwrite.not_folder
    | file _ => rfl

theorem grows_copy (source target : FilePath) : Respects Grows (copy source target) :=
  respects_copy_of (grows_write target)

end Change

end ModBuild
