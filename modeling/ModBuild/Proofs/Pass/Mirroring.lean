import ModBuild.Proofs.Pass.Keeping

/-!
# What a pass mirrors

Whatever a pass mirrors is brought to its target by one of the mirrored folders, also when the pass
fails later. When the copies succeed, every file below a mirrored folder has been brought to its
target, unless the folder leaves it to the compiler.
-/

namespace ModBuild.Assets

set_option autoImplicit false

open Component
open Disk (Grows)
open Session (OnDisk)

variable {p : Project} {f : MirroredFolder} {α : Type}

theorem grows_of_composed {x : Task Failure α} (h : Task.Composed Change.IsCopy x) :
    Respects (OnDisk Grows) x :=
  h.respects fun _ hc => hc.respects Change.grows_makeFolder Change.grows_write

theorem grows_copyFile (source target : FilePath) :
    Respects (OnDisk Grows) (copyFile source target) := grows_of_composed (composed_copyFile _ _)

theorem grows_copyRuntimeLibraries (p : Project) :
    Respects (OnDisk Grows) (copyRuntimeLibraries p) := grows_of_composed (composed_copyRuntimeLibraries p)

theorem grows_copyManifest (p : Project) : Respects (OnDisk Grows) (copyManifest p) :=
  grows_of_composed (composed_copyManifest p)

namespace Logged

variable {s s' s₁ s₂ s₃ : Session × Log}

/-- From `s` to `s'` the disk grows and the log loses nothing. -/
structure Extends (s s' : Session × Log) : Prop where
  disk : s.1.disk.Grows s'.1.disk
  log : s.2 ⊆ s'.2

instance : IsPreorder (Session × Log) Extends where
  refl s := ⟨.refl s.1.disk, List.Subset.refl s.2⟩
  trans _ _ _ h₁ h₂ := ⟨h₁.disk.trans h₂.disk, List.Subset.trans h₁.log h₂.log⟩

theorem compatible_extends :
    Compatible (fun _ => True) fun α (x _ : Logged α) => Respects Extends x where
  pure := respects_pure
  throw := respects_throw
  bind := Respects.bind
  disk hf s := hf s.1.disk (fun _ _ _ => trivial) s

theorem extends_ofTask {x : Task Failure α} (h : Respects (OnDisk Grows) x) :
    Respects Extends (ofTask x) := fun s => ⟨h s.1, List.Subset.refl s.2⟩

theorem extends_copyFile (source target : FilePath) : Respects Extends (copyFile source target) :=
  (extends_ofTask (grows_copyFile source target)).bind fun _ s =>
    ⟨.refl s.1.disk, List.subset_append_left s.2 [(source, target)]⟩

theorem extends_mirrorFolder (skipSources : Bool) (top target : FilePath) (depth : Nat) (dir : FilePath) :
    Respects Extends (mirrorFolderBy copyFile skipSources top target depth dir) :=
  compatible_extends.mirrorFolder copyFile copyFile (fun _ => True) (fun _ _ _ _ => trivial)
    (fun _ _ _ _ _ => extends_copyFile _ _) depth trivial

theorem extends_mirrorEntry (skipSources : Bool) (top target : FilePath) (depth : Nat) (d : Disk)
    (l : Location) (dir : FilePath) (name : String) (copied : Nat) :
    Respects Extends (mirrorEntryBy copyFile skipSources top target
      (mirrorFolderBy copyFile skipSources top target depth) d l dir copied name) :=
  compatible_extends.mirrorEntry copyFile copyFile (fun _ => True) (fun _ _ _ _ => trivial)
    (fun _ _ _ _ _ => extends_copyFile _ _) _ (mirrorFolderBy copyFile skipSources top target depth)
    (fun _ _ => extends_mirrorFolder skipSources top target depth _) d l trivial trivial copied

theorem extends_mirror (source target : FilePath) (skipSources : Bool) :
    Respects Extends (mirrorBy copyFile source target skipSources) :=
  compatible_extends.mirror copyFile copyFile (fun _ => True) (fun _ _ _ _ => trivial)
    (fun _ _ _ _ _ => extends_copyFile _ _) trivial

theorem exists_turn_of_sum_ok {β : Type} {xs : List β} {g : β → Logged Nat} {x : β} {copied : Nat}
    (h : ∀ x, Respects Extends (g x))
    (hrun : (xs.foldlM (fun copied x => do return copied + (← g x)) 0 : Logged Nat) s =
      (.ok copied, s'))
    (hx : x ∈ xs) :
    ∃ s₁ found s₂, Extends s s₁ ∧ g x s₁ = (.ok found, s₂) ∧ Extends s₂ s' := by
  obtain ⟨b₁, s₁, b₂, s₂, hbefore, hturn, hafter⟩ := exists_turn_of_foldlM_ok
    (fun x _ _ => (h x).bind fun _ => respects_pure _) hrun hx
  obtain ⟨found, s₃, hrun, hreturn⟩ := run_bind_ok_iff.mp hturn
  cases hreturn
  exact ⟨s₁, found, s₂, hbefore, hrun, hafter⟩

section Complete

variable {skipSources : Bool} {top target dir q : FilePath} {below : FilePath → Logged Nat} {d : Disk}
  {l : Location} {n : String} {names : List String} {depth copied copied' : Nat}

theorem mem_log_of_copyFile_ok {source : FilePath} (h : copyFile source target s = (.ok (), s')) :
    (source, target) ∈ s'.2 := by
  obtain ⟨_, s₁, -, hlog⟩ := run_bind_ok_iff.mp h
  cases hlog
  exact List.mem_append_right s₁.2 List.mem_cons_self

theorem mirrorEntry_file_ok {content : ByteArray} (hfile : d.get? (l ++ [n]) = some (.file content))
    (hskip : ¬(skipSources = true ∧ isSource (dir.join n) = true))
    (h : mirrorEntryBy copyFile skipSources top target below d l dir copied n s = (.ok copied', s')) :
    (dir.join n, target.join ((top.relativeTo? (dir.join n)).getD (dir.join n)).text) ∈ s'.2 := by
  rw [← Bool.and_eq_true] at hskip
  unfold mirrorEntryBy at h
  simp only [hfile, if_neg hskip] at h
  obtain ⟨_, s₁, hcopy, hreturn⟩ := run_bind_ok_iff.mp h
  cases hreturn
  exact mem_log_of_copyFile_ok hcopy

theorem mirrorEntry_folder_ok (hfolder : d.get? (l ++ [n]) = some .folder)
    (h : mirrorEntryBy copyFile skipSources top target below d l dir copied n s = (.ok copied', s')) :
    ∃ found, below (dir.join n) s = (.ok found, s') := by
  unfold mirrorEntryBy at h
  simp only [hfolder] at h
  obtain ⟨found, s₁, hbelow, hreturn⟩ := run_bind_ok_iff.mp h
  cases hreturn
  exact ⟨found, hbelow⟩

theorem mirrorFolder_succ_ok
    (h : mirrorFolderBy copyFile skipSources top target (depth + 1) dir s = (.ok copied, s')) :
    (s.1.disk.names (s.1.disk.target dir)).foldlM (mirrorEntryBy copyFile skipSources top target
      (mirrorFolderBy copyFile skipSources top target depth) s.1.disk (s.1.disk.target dir) dir) 0 s =
        (.ok copied, s') := by
  unfold mirrorFolderBy at h
  rw [lift_disk_bind] at h
  cases hlocate : s.1.disk.locate dir with
  | error fault =>
    rw [hlocate] at h
    cases h
  | ok l =>
    rw [hlocate] at h
    rw [← Disk.locate_eq_target hlocate]
    exact h

variable (hp : p.settings.FoldersNamed) (hf : f ∈ p.mirroredFolders)
include hp hf

/-- The induction is on the depth, which bounds the names that are left. -/
theorem exists_mem_of_mirrorFolder_ok
    (hrun : mirrorFolderBy copyFile f.skipSources f.source (f.target p.layout) depth dir s =
      (.ok copied, s'))
    (hdir : f.Reaches dir) (hq : q.components = dir.components ++ names.map .name)
    (hskip : ¬(f.skipSources = true ∧ isSource q = true)) (hne : names ≠ [])
    (hleads : s.1.disk.LeadsTo dir names) : ∃ c ∈ s'.2, c.1.Same q ∧ f.Brings p.layout c.1 c.2 := by
  induction depth generalizing dir names s s' copied with
  | zero => cases hrun
  | succ depth ih =>
    obtain ⟨n, rest, rfl⟩ := List.exists_cons_of_ne_nil hne
    have hn : IsName n := hleads.isName n List.mem_cons_self
    have hpath : q.components = (dir.join n).components ++ rest.map .name := by
      rw [hq, dir.components_join hn.1, hn.ofSegment, List.append_assoc]
      rfl
    have hturn : ∀ {entry}, s.1.disk.get? (s.1.disk.target dir ++ [n]) = some entry → _ := fun h =>
      exists_turn_of_foldlM_ok
        (fun name _ copied => extends_mirrorEntry f.skipSources f.source (f.target p.layout) depth
          s.1.disk _ dir name copied) (mirrorFolder_succ_ok hrun) (Disk.mem_names_of_get? h)
    cases rest with
    | nil =>
      obtain ⟨content, hfile⟩ := hleads.file
      obtain ⟨b₁, s₁, b₂, s₂, -, hentry, hafter⟩ := hturn hfile
      have hsame : (dir.join n).Same q := by rw [FilePath.Same, hpath, List.map_nil, List.append_nil]
      rw [← MirroredFolder.isSource_of_same hsame] at hskip
      exact ⟨_, hafter.log (mirrorEntry_file_ok hfile hskip hentry), hsame,
        hdir.brings hp hf hn hskip⟩
    | cons next rest =>
      have hfolder := hleads.folder [n] (next :: rest) rfl (List.cons_ne_nil next rest)
      obtain ⟨b₁, s₁, b₂, s₂, hbefore, hentry, hafter⟩ := hturn hfolder
      obtain ⟨found, hbelow⟩ := mirrorEntry_folder_ok hfolder hentry
      obtain ⟨c, hc, hbrings⟩ := ih hbelow (hdir.join hn) hpath (List.cons_ne_nil next rest)
        (hleads.below.grows hbefore.disk)
      exact ⟨c, hafter.log hc, hbrings⟩

theorem exists_mem_of_mirror_ok
    (hrun : mirrorBy copyFile f.source (f.target p.layout) f.skipSources s = (.ok copied, s'))
    (hsource : s.1.disk.isFolder f.source = true)
    (hq : q.components = f.source.components ++ names.map .name)
    (hskip : ¬(f.skipSources = true ∧ isSource q = true)) (hne : names ≠ [])
    (hleads : s.1.disk.LeadsTo f.source names) :
    ∃ c ∈ s'.2, c.1.Same q ∧ f.Brings p.layout c.1 c.2 := by
  unfold mirrorBy at hrun
  rw [lift_disk_bind, if_pos hsource] at hrun
  exact exists_mem_of_mirrorFolder_ok hp hf hrun f.reaches_source hq hskip hne hleads

theorem exists_mem_of_copyAll_ok {r : Nat × List Diagnostic}
    (hrun : Builder.copyAllBy copyFile p s = (.ok r, s')) (hsource : s.1.disk.isFolder f.source = true)
    (hq : q.components = f.source.components ++ names.map .name)
    (hskip : ¬(f.skipSources = true ∧ isSource q = true)) (hne : names ≠ [])
    (hleads : s.1.disk.LeadsTo f.source names) :
    ∃ c ∈ s'.2, c.1.Same q ∧ f.Brings p.layout c.1 c.2 := by
  obtain ⟨_, s₁, hmanifest, hrun⟩ := run_bind_ok_iff.mp hrun
  obtain ⟨loose, s₂, hscopes, hrun⟩ := run_bind_ok_iff.mp hrun
  obtain ⟨assets, s₃, hassets, hrun⟩ := run_bind_ok_iff.mp hrun
  obtain ⟨warnings, s₄, hlibraries, hreturn⟩ := run_bind_ok_iff.mp hrun
  cases hreturn
  have hfirst := (extends_ofTask (grows_copyManifest p)).of_run hmanifest
  have hlast := (extends_ofTask (grows_copyRuntimeLibraries p)).of_run hlibraries
  have hsecond : Extends s₁ s₂ := Respects.of_run
    (compatible_extends.copyScopeFiles copyFile copyFile fun _ _ => extends_mirror _ _ _) hscopes
  have hthird : Extends s₂ s₃ := Respects.of_run
    (compatible_extends.copyAssetDirs copyFile copyFile fun _ _ => extends_mirror _ _ _) hassets
  rcases MirroredFolder.mem_mirroredFolders_iff.mp hf with ⟨scope, hscope, rfl⟩ | ⟨dir, hdir, rfl⟩
  · obtain ⟨a, found, b, hbefore, hmirror, hafter⟩ :=
      exists_turn_of_sum_ok (fun _ => extends_mirror _ _ _) hscopes hscope
    have hgrows := hfirst.disk.trans hbefore.disk
    rw [← MirroredFolder.target_ofScope hscope] at hmirror
    obtain ⟨c, hc, hbrings⟩ := exists_mem_of_mirror_ok hp hf hmirror (hgrows.isFolder hsource) hq hskip
      hne (hleads.grows hgrows)
    exact ⟨c, hlast.log (hthird.log (hafter.log hc)), hbrings⟩
  · obtain ⟨a, found, b, hbefore, hmirror, hafter⟩ :=
      exists_turn_of_sum_ok (fun _ => extends_mirror _ _ _) hassets hdir
    have hgrows := (hfirst.disk.trans hsecond.disk).trans hbefore.disk
    obtain ⟨c, hc, hbrings⟩ := exists_mem_of_mirror_ok hp hf hmirror (hgrows.isFolder hsource) hq hskip
      hne (hleads.grows hgrows)
    exact ⟨c, hlast.log (hafter.log hc), hbrings⟩

end Complete

end Logged

variable {q t : FilePath} {s s' : Session}

/-- Every name on the disk can be used in a path, and a mirrored folder brings whatever is in the log. -/
structure Sound (p : Project) (s : Session × Log) : Prop where
  named : s.1.disk.Named
  brings : ∀ c ∈ s.2, ∃ f ∈ p.mirroredFolders, f.Brings p.layout c.1 c.2

theorem keeps_sound_ofTask {x : Task Failure α} (h : Respects (OnDisk Grows) x) :
    Respects (Keeps (Sound p)) (Logged.ofTask x) := by
  intro s hs
  have hgrows : Grows s.1.disk (x s.1).2.disk := h s.1
  exact ⟨hgrows.named hs.named, hs.brings⟩

theorem keeps_sound (hf : f ∈ p.mirroredFolders) (q t : FilePath) (h : f.Brings p.layout q t) :
    Respects (Keeps (Sound p)) (Logged.copyFile q t) :=
  (keeps_sound_ofTask (grows_copyFile q t)).bind fun _ _ hs =>
    ⟨hs.named, List.forall_mem_append.mpr ⟨hs.brings, List.forall_mem_singleton.mpr ⟨f, hf, h⟩⟩⟩

theorem brings_of_mem_mirrored (hp : p.settings.FoldersNamed) (hs : s.disk.Named)
    (h : (q, t) ∈ mirrored p s) : ∃ f ∈ p.mirroredFolders, f.Brings p.layout q t := by
  have hkeeps : Respects (Keeps (Sound p)) (Builder.copyAllBy Logged.copyFile p) :=
    Logged.keeps_copyAll (fun _ hs => hs.named) hp (fun _ => keeps_sound)
      (keeps_sound_ofTask (grows_copyManifest p)) (keeps_sound_ofTask (grows_copyRuntimeLibraries p))
  exact (hkeeps (s, []) ⟨hs, List.forall_mem_nil _⟩).brings (q, t) h

/-- When the copies succeed, a folder has brought every file that it does not skip. -/
theorem exists_mem_mirrored (hp : p.settings.FoldersNamed) (hf : f ∈ p.mirroredFolders)
    (hbrings : f.Brings p.layout q t) (hfile : s.disk.isFile q = true)
    (hsource : s.disk.isFolder f.source = true) {r : Nat × List Diagnostic}
    (hrun : Builder.copyAll p s = (.ok r, s')) : ∃ c ∈ mirrored p s, c.1.Same q ∧ c.2.Same t := by
  obtain ⟨⟨names, hne, hnames, hq, -⟩, hskip⟩ := id hbrings
  have hleads := Disk.leadsTo_of_isFile hfile (MirroredFolder.source_components_ne_nil hp hf) hq hnames
  obtain ⟨c, hc, hsame, hbrings'⟩ := Logged.exists_mem_of_copyAll_ok hp hf (logged_of_copyAll_ok hrun)
    hsource hq hskip hne hleads
  exact ⟨c, hc, hsame, hbrings'.same hbrings hsame⟩

end ModBuild.Assets
