import ModBuild.Proofs.Disk.Frame
import ModBuild.Proofs.Session.Disks
import ModBuild.Proofs.Watch.Mirror
import ModBuild.Watch.Batch

/-!
# Watching stays in the media folder

Every target of the mirror lies below the media folder, and an extension changes the last name of a
target alone. So an action changes something with a name below the media folder, and never the Lua
folder itself. The actions of a batch therefore leave everything outside of the media folder as it
was, also when one of them fails.
-/

namespace ModBuild

set_option autoImplicit false

open Component SlashPath

/-- Something outside of the media folder, the folder itself included, or the Lua folder. -/
def Location.Spared (media l : Location) (entry : Entry) : Prop :=
  (∀ n, ¬media ++ [n] <+: l) ∨ l = media ++ ["lua"] ∧ entry = .folder

/-- From `d` to `d'` everything that is to be spared stays. -/
structure Disk.Spares (media : FilePath) (d d' : Disk) : Prop where
  workingDir : d'.workingDir = d.workingDir
  entry : ∀ l e, Location.Spared (d.target media) l e → d.get? l = some e → d'.get? l = some e

/-- The path is below the media folder and is not the Lua folder. -/
def FilePath.Confined (t media : FilePath) : Prop :=
  ∃ names : List String, names ≠ [] ∧ names ≠ ["lua"] ∧
    (∀ n ∈ names, IsName n) ∧ t.components = media.components ++ names.map .name

namespace Disk.Spares

variable {media t : FilePath} {d d' d₁ d₂ d₃ : Disk}

theorem refl (media : FilePath) (d : Disk) : Spares media d d := ⟨rfl, fun _ _ _ h => h⟩

theorem trans (h₁ : Spares media d₁ d₂) (h₂ : Spares media d₂ d₃) : Spares media d₁ d₃ := by
  refine ⟨h₂.workingDir.trans h₁.workingDir, fun l e hl he => ?_⟩
  apply h₂.entry l e _ (h₁.entry l e hl he)
  rw [target_of_workingDir h₁.workingDir]
  exact hl

instance (media : FilePath) : IsPreorder Disk (Spares media) where
  refl := refl media
  trans _ _ _ := trans

theorem not_isPrefix {l : Location} {e : Entry} (h : t.Confined media)
    (hl : Location.Spared (d.target media) l e) : ¬d.target t <+: l := by
  obtain ⟨names, hne, hlua, -, ht⟩ := h
  rw [target_of_names ht]
  intro hprefix
  obtain ⟨n, rest, rfl⟩ := List.exists_cons_of_ne_nil hne
  rcases hl with houtside | ⟨rfl, -⟩
  · apply houtside n
    rw [List.append_cons] at hprefix
    exact (List.prefix_append _ rest).trans hprefix
  · rw [List.prefix_append_right_inj, List.cons_prefix_cons, List.prefix_nil] at hprefix
    obtain ⟨rfl, rfl⟩ := hprefix
    exact hlua rfl

theorem erase (h : t.Confined media) (d : Disk) : Spares media d (d.erase (d.target t)) := by
  refine ⟨rfl, fun l e hl he => ?_⟩
  by_cases hroot : l = []
  · subst hroot
    exact he
  · rw [get?_erase hroot, if_neg (not_isPrefix h hl), he]

theorem of_writes {paths : Set FilePath} (h : ∀ t ∈ paths, t.Confined media)
    (hwrites : Writes paths d d') : Spares media d d' := by
  refine ⟨hwrites.workingDir, fun l e hl he => ?_⟩
  cases e with
  | folder => exact hwrites.folder l he
  | file content =>
    refine (hwrites.file l ?_ content).mpr he
    rintro t ht rfl
    exact not_isPrefix (h t ht) hl (List.prefix_refl _)

end Disk.Spares

namespace Change

open Disk (Spares)

variable {media t : FilePath}

theorem spares_makeFolders (media above : FilePath) : Respects (Spares media) (makeFolders above) :=
  fun d => .of_writes (fun t ht => absurd ht (Set.notMem_empty t)) (respects_makeFolders above d)

theorem spares_copy (h : t.Confined media) (source : FilePath) :
    Respects (Spares media) (copy source t) := by
  intro d
  apply Spares.of_writes _ (respects_copy source t d)
  rintro t rfl
  exact h

theorem spares_removeFile (h : t.Confined media) : Respects (Spares media) (removeFile t) := by
  intro d
  rcases removeFile_cases t d with ⟨f, hrun⟩ | ⟨-, hrun⟩
  · rw [hrun]
    exact .refl media d
  · rw [hrun]
    exact .erase h d

theorem spares_removeFolder (h : t.Confined media) : Respects (Spares media) (removeFolder t) := by
  intro d
  rcases removeFolder_cases t d with ⟨f, hrun⟩ | hrun
  · rw [hrun]
    exact .refl media d
  · rw [hrun]
    exact .erase h d

end Change

namespace Watch

open Disk (Spares)
open MirroredFolder
open Session (OnDisk)

variable {p : Project} {media q t : FilePath} {a : Action} {actions : List Action} {e : FileEvent}

/-- The path at which an action changes something. -/
def Action.target? : Action → Option FilePath
  | ignore | rebuild => none
  | copy _ target | remove target | makeFolder target => some target

theorem spares_told {ε : Type} {c : Change ε Unit} (h : Respects (Spares media) c)
    (wrap : ε → Failure) (message : String) :
    Respects (OnDisk (Spares media)) (do
      Task.change wrap c
      Task.status .watcher .info message
      return false) :=
  (Task.respects_change h wrap).bind fun _ =>
    (Task.respects_status _ _ _).bind fun _ => respects_pure false

/-- An action with a confined target spares everything else, however it ends. -/
theorem Action.spares_apply (h : ∀ t, a.target? = some t → t.Confined media) :
    Respects (OnDisk (Spares media)) a.apply := by
  cases a with
  | ignore => exact respects_pure false
  | rebuild => exact respects_pure true
  | copy source target =>
    have hcopy := Task.respects_change (Change.spares_copy (h target rfl) source)
      (Failure.copy source target)
    refine (Task.respects_status _ _ _).bind fun _ => ?_
    dsimp only
    split
    · exact (Task.respects_change (Change.spares_makeFolders media _) _).bind fun _ =>
        hcopy.bind fun _ => respects_pure false
    · exact hcopy.bind fun _ => respects_pure false
  | remove target =>
    refine Task.respects_disk.bind fun d => ?_
    dsimp only
    split
    · exact spares_told (Change.spares_removeFolder (h target rfl)) _ _
    split
    · exact spares_told (Change.spares_removeFile (h target rfl)) _ _
    · exact respects_pure false
  | makeFolder target =>
    refine Task.respects_disk.bind fun d => ?_
    dsimp only
    split
    · exact spares_told (Change.spares_makeFolders media target) _ _
    · exact respects_pure false

theorem spares_applyAll (h : ∀ a ∈ actions, ∀ t, a.target? = some t → t.Confined media) :
    Respects (OnDisk (Spares media)) (applyAll actions) :=
  respects_foldlM (fun a ha _ => (a.spares_apply (h a ha)).bind fun _ => respects_pure _) false

theorem confined_of_target? (hp : p.settings.FoldersNamed) (hdots : .parent ∉ q.components)
    (h : (Mirror.ofProject p).target? q = some t) : t.Confined p.layout.mediaDir := by
  obtain ⟨f, cs, hfind, hq, ht⟩ := exists_folder_of_target? hp h
  have hf : f ∈ p.mirroredFolders := List.mem_of_find?_eq_some hfind
  obtain ⟨names, hnames, rfl⟩ := FilePath.exists_names_below (source_components_ne_nil hp hf) hq
    fun hm => hdots (hq ▸ List.mem_append_right _ hm)
  refine ⟨f.below ++ names, ?_, ?_, ?_, ?_⟩
  · exact List.append_ne_nil_of_left_ne_nil (below_ne_nil hf) names
  · have hall : ∀ x ∈ places, ¬x <+: ["lua"] := by decide
    exact fun he => hall f.below (below_mem_places hf) ⟨names, he⟩
  · exact List.forall_mem_append.mpr ⟨isName_below hf, hnames⟩
  · rw [ht, components_target hf, List.map_append, List.append_assoc]

/-- The new name has a dot, so it is not that of the Lua folder. -/
theorem confined_withExtension (h : t.Confined media) : (t.withExtension "lua").Confined media := by
  obtain ⟨names, hne, -, hnames, ht⟩ := h
  cases names using List.reverseRecOn with
  | nil => exact absurd rfl hne
  | append_singleton init last _ =>
    obtain ⟨hinit, hlast⟩ := List.forall_mem_append.mp hnames
    obtain ⟨⟨hslash, hempty, -⟩, -⟩ := hlast last List.mem_cons_self
    rw [List.map_append, ← List.append_assoc] at ht
    have hname := FilePath.isName_of_extension (fun he => hempty (String.toList_eq_nil_iff.mp he))
      hslash (by decide) (show "lua" ≠ "" by decide)
    have hcomponents := FilePath.components_withExtension ht (by decide) (show "lua" ≠ "" by decide)
    have hdot : '.' ∈ (FilePath.cutExtension last.toList).1 ++ '.' :: "lua".toList := by simp
    generalize (FilePath.cutExtension last.toList).1 ++ '.' :: "lua".toList = new
      at hname hcomponents hdot
    refine ⟨init ++ [.ofList new], by simp, ?_, ?_, ?_⟩
    · intro he
      obtain rfl : new = "lua".toList := by
        simpa using congrArg (fun names => names.getLast?.map String.toList) he
      exact absurd hdot (by decide)
    · exact List.forall_mem_append.mpr ⟨hinit, by simpa using hname⟩
    · rw [hcomponents, List.map_append, ← List.append_assoc]
      rfl

theorem confined_of_plan (hp : p.settings.FoldersNamed) (hdots : .parent ∉ e.path.components)
    (h : (plan (.ofProject p) e).target? = some t) : t.Confined p.layout.mediaDir := by
  have hasks := mayAsk_plan (.ofProject p) e
  generalize plan (.ofProject p) e = a at h hasks
  cases hasks with
  | ignore => cases h
  | rebuild => cases h
  | copy _ _ htarget =>
    cases h
    exact confined_of_target? hp hdots htarget
  | remove htarget =>
    cases h
    exact confined_of_target? hp hdots htarget
  | removeLua htarget =>
    cases h
    exact confined_withExtension (confined_of_target? hp hdots htarget)
  | makeFolder htarget =>
    cases h
    exact confined_of_target? hp hdots htarget

theorem spared_of_mem {d : Disk} {l : Layout} {dir : FilePath}
    (h : dir ∈ [l.modDir, l.mediaDir, l.luaRoot]) :
    Location.Spared (d.target l.mediaDir) (d.target dir) .folder := by
  have hmedia : d.target l.mediaDir = d.target l.modDir ++ ["media"] :=
    @Disk.target_foldl_join d l.modDir ["media"] (by decide) (by decide)
  have hlua : d.target l.luaRoot = d.target l.mediaDir ++ ["lua"] :=
    @Disk.target_foldl_join d l.mediaDir ["lua"] (by decide) (by decide)
  have habove : ∀ dir, (d.target dir).length ≤ (d.target l.mediaDir).length →
      Location.Spared (d.target l.mediaDir) (d.target dir) .folder := by
    intro dir hle
    refine Or.inl fun n hprefix => ?_
    have hlength := hprefix.length_le
    rw [List.length_append, List.length_singleton] at hlength
    omega
  simp only [List.mem_cons, List.not_mem_nil, or_false] at h
  rcases h with rfl | rfl | rfl
  · exact habove _ (by rw [hmedia, List.length_append]; exact Nat.le_add_right _ _)
  · exact habove _ (Nat.le_refl _)
  · exact Or.inr ⟨hlua, rfl⟩

/-- Whatever an event without `..` is about, its action changes something below the media folder and
not the Lua folder itself. So a batch leaves the folder of the mod, its media folder and its Lua
folder where they are, and everything outside of the media folder as it was. -/
theorem planned_stays_in_media (hp : p.settings.FoldersNamed) :
    (∀ e : FileEvent, .parent ∉ e.path.components →
      ∀ t, (plan (.ofProject p) e).target? = some t →
        (∃ names : List String, names ≠ [] ∧ (∀ n ∈ names, IsName n) ∧
          t.components = p.layout.mediaDir.components ++ names.map .name) ∧
        ¬t.Same p.layout.luaRoot) ∧
    ∀ events : List FileEvent, (∀ e ∈ events, .parent ∉ e.path.components) → ∀ s : Session,
      let d := s.disk
      let d' := (applyAll (events.map (plan (.ofProject p))) s).2.disk
      (∀ dir ∈ [p.layout.modDir, p.layout.mediaDir, p.layout.luaRoot],
        d.get? (d.target dir) = some .folder → d'.get? (d.target dir) = some .folder) ∧
      ∀ l, (∀ n, ¬d.target p.layout.mediaDir ++ [n] <+: l) →
        ∀ entry, d.get? l = some entry → d'.get? l = some entry := by
  constructor
  · intro e hdots t ht
    obtain ⟨names, hne, hlua, hnames, hcomponents⟩ := confined_of_plan hp hdots ht
    refine ⟨⟨names, hne, hnames, hcomponents⟩, fun hsame => hlua ?_⟩
    have hroot : p.layout.luaRoot.components = p.layout.mediaDir.components ++ [.name "lua"] :=
      FilePath.components_join _ (by decide)
    rw [FilePath.Same, hcomponents, hroot, List.append_cancel_left_eq] at hsame
    exact List.map_injective_iff.mpr (fun _ _ => Component.name.inj) hsame
  · intro events hdots s d d'
    have hspares : Spares p.layout.mediaDir d d' := by
      refine spares_applyAll (fun a ha t ht => ?_) s
      obtain ⟨e, he, rfl⟩ := List.mem_map.mp ha
      exact confined_of_plan hp (hdots e he) ht
    exact ⟨fun dir hdir => hspares.entry _ _ (spared_of_mem hdir),
      fun l hl entry => hspares.entry l entry (Or.inl hl)⟩

/-- A folder with assets that looks like a source, and a batch that takes a folder of Lua away. -/
theorem planned_stays_in_media_scripts :
    let p : Project := ⟨⟨"/p"⟩, { id := "M", name := "N", poster := "p.png", description := "D" },
      { scriptsDir := "/data/odd.ts" }⟩
    let events : List FileEvent := [.removed ⟨"/data/odd.ts"⟩, .folderRemoved ⟨"/p/src/client"⟩]
    let s : Session :=
      { disk := { entries := [(["p"], .folder), (["p", "dist"], .folder), (["p", "dist", "M"], .folder),
          (["p", "dist", "M", "media"], .folder), (["p", "dist", "M", "media", "lua"], .folder),
          (["p", "dist", "M", "media", "lua", "client"], .folder)] } }
    p.settings.FoldersNamed ∧ (∀ e ∈ events, .parent ∉ e.path.components) ∧
      events.map (plan (.ofProject p)) =
        [.remove ⟨"/p/dist/M/media/scripts.lua"⟩, .remove ⟨"/p/dist/M/media/lua/client"⟩] ∧
      ¬FilePath.Same ⟨"/p/dist/M/media/lua/client"⟩ p.layout.luaRoot ∧
      s.disk.get? ["p", "dist", "M", "media", "lua", "client"] = some .folder ∧
      (applyAll (events.map (plan (.ofProject p))) s).2.disk.get?
        ["p", "dist", "M", "media", "lua", "client"] = none ∧
      (applyAll (events.map (plan (.ofProject p))) s).2.disk.get?
        ["p", "dist", "M", "media", "lua"] = some .folder := by
  intro p events s
  have hp : p.settings.FoldersNamed := by decide
  have hdots : ∀ e ∈ events, .parent ∉ e.path.components := by decide +kernel
  have hplan : events.map (plan (.ofProject p)) =
      [.remove ⟨"/p/dist/M/media/scripts.lua"⟩, .remove ⟨"/p/dist/M/media/lua/client"⟩] := by
    decide +kernel
  obtain ⟨htarget, hbatch⟩ := planned_stays_in_media hp
  have hlua : s.disk.target p.layout.luaRoot = ["p", "dist", "M", "media", "lua"] := by decide +kernel
  refine ⟨hp, hdots, hplan, ?_, by decide +kernel, by decide +kernel, ?_⟩
  · refine (htarget (.folderRemoved ⟨"/p/src/client"⟩) (by decide +kernel) _ ?_).2
    decide +kernel
  · rw [← hlua]
    exact (hbatch events hdots s).1 p.layout.luaRoot (by simp) (by decide +kernel)

end Watch

end ModBuild
