import ModBuild.Proofs.Pass.Build
import ModBuild.Proofs.Pass.Failure
import ModBuild.Proofs.Pass.Keeping

/-!
# What a pass leaves alone

Everything that a pass writes lies inside the folder of the mod, but for the poster, which goes where
its text leads from there. Neither has to be inside the output folder: the id and the poster are texts
of the manifest, so each can lead out of it and back to the sources.
-/

namespace ModBuild

set_option autoImplicit false

open Component SlashPath
open Disk (Writes Grows)
open Session (OnDisk)

variable {p : Project} {d d₀ d₁ : Disk} {q t : FilePath} {l : Location} {names : List String}

namespace Project

/-- The paths that a pass can write. -/
def outputs (p : Project) : Set FilePath :=
  {q | (∃ names : List String, names ≠ [] ∧
      q.components = p.layout.modDir.components ++ names.map .name) ∨
    q = p.layout.modDir.join p.manifest.poster}

/-- A location that is not inside the folder of the mod, and where the poster does not go. -/
structure Leaves (p : Project) (d : Disk) (l : Location) : Prop where
  modDir : ∀ names, names ≠ [] → l ≠ d.target p.layout.modDir ++ names
  poster : l ≠ d.target (p.layout.modDir.join p.manifest.poster)

theorem Leaves.of_not_below (hmod : ¬d.target p.layout.modDir <+: l)
    (hposter : l ≠ d.target (p.layout.modDir.join p.manifest.poster)) : p.Leaves d l :=
  ⟨fun names _ heq => hmod (heq ▸ List.prefix_append _ names), hposter⟩

theorem Leaves.ne_target (h : p.Leaves d l) (hq : q ∈ p.outputs) : l ≠ d.target q := by
  rcases hq with ⟨names, hne, hq⟩ | rfl
  · rw [Disk.target_of_names hq]
    exact h.modDir names hne
  · exact h.poster

theorem Leaves.file_iff (h : p.Leaves d l) {d' : Disk} (hwrites : Writes p.outputs d d')
    (content : ByteArray) : d'.get? l = some (.file content) ↔ d.get? l = some (.file content) :=
  hwrites.file l (fun _ => h.ne_target) content

theorem components_mediaDir (l : Layout) : l.mediaDir.components = l.modDir.components ++ [.name "media"] :=
  l.modDir.components_join (by decide)

theorem mem_outputs_of_media (names : List String)
    (hq : q.components = p.layout.mediaDir.components ++ names.map .name) :
    q ∈ p.outputs := by
  refine Or.inl ⟨"media" :: names, List.cons_ne_nil _ _, ?_⟩
  rw [hq, components_mediaDir, List.append_assoc]
  rfl

theorem mem_outputs_of_luaRoot (names : List String)
    (hq : q.components = p.layout.luaRoot.components ++ names.map .name) :
    q ∈ p.outputs := by
  refine mem_outputs_of_media ("lua" :: names) ?_
  rw [hq, Layout.luaRoot, FilePath.components_join _ (by decide), List.append_assoc]
  rfl

theorem manifest_mem_outputs (p : Project) : p.layout.modDir.join Manifest.fileName ∈ p.outputs :=
  Or.inl ⟨[Manifest.fileName], List.cons_ne_nil _ _, p.layout.modDir.components_join (by decide)⟩

theorem mem_outputs_of_brings {f : MirroredFolder} (hf : f ∈ p.mirroredFolders)
    (h : f.Brings p.layout q t) : t ∈ p.outputs := by
  obtain ⟨⟨names, -, -, -, ht⟩, -⟩ := h
  refine mem_outputs_of_media (f.below ++ names) ?_
  rw [ht, MirroredFolder.components_target hf, List.map_append, List.append_assoc]

theorem library_mem_outputs {library : FilePath} {name : String} (h : library.fileName? = some name) :
    (p.layout.scopeDir .shared).join name ∈ p.outputs := by
  obtain ⟨cs, hcs⟩ := FilePath.exists_components_of_fileName? h
  have hname : IsName name := library.isName_of_mem_components (by simp [hcs])
  refine mem_outputs_of_luaRoot ["shared", name] ?_
  rw [FilePath.components_join _ hname.1, hname.ofSegment, Layout.scopeDir_of_folder rfl,
    FilePath.components_join _ (by decide), List.append_assoc]
  rfl

theorem place_mem_outputs {u : CompiledUnit} (hdots : ".." ∉ segments (normalize u.path)) :
    ((Builder.emission p).place u).path ∈ p.outputs := by
  have hsegments : ∀ part ∈ p.layout.placedParts (segments (normalize u.path)), IsSegment part :=
    Layout.isSegment_of_mem_placedParts fun part hpart => isSegment_of_mem_segments hpart
  have hplaced := Layout.dots_not_mem_placedParts (l := p.layout) hdots
  refine mem_outputs_of_luaRoot (p.layout.placedParts (segments (normalize u.path))) ?_
  have hnames : (p.layout.placedParts (segments (normalize u.path))).map ofSegment =
      (p.layout.placedParts (segments (normalize u.path))).map .name :=
    List.map_congr_left fun part hpart => ofSegment_of_ne fun heq => hplaced (heq ▸ hpart)
  change (p.layout.place u.path).path.components = _
  rw [Layout.path_place, FilePath.components_foldl_join _ hsegments, hnames]

/-- From `d₀` to `d` only outputs were written, and every name can be used in a path. -/
structure WritesOutputs (p : Project) (d₀ d : Disk) : Prop where
  named : d.Named
  writes : Writes p.outputs d₀ d

theorem keeps_change {α ε : Type} {c : Change ε α} {paths : Set FilePath} (hgrows : Respects Grows c)
    (hwrites : Respects (Writes paths) c) (h : paths ⊆ p.outputs) :
    Respects (Keeps (p.WritesOutputs d₀)) c :=
  fun d hd => ⟨(hgrows d).named hd.named, hd.writes.trans ((hwrites d).mono h)⟩

theorem keeps_copyFile (source : FilePath) (ht : t ∈ p.outputs) :
    Respects (OnDisk (Keeps (p.WritesOutputs d₀))) (Assets.copyFile source t) := by
  apply Assets.respects_copyFile
  · intro above
    exact keeps_change (Change.grows_makeFolders above) (Change.respects_makeFolders above)
      (Set.empty_subset _)
  · exact keeps_change (Change.grows_copy source t) (Change.respects_copy source t)
      (Set.singleton_subset_iff.mpr ht)

theorem keeps_copyManifest :
    Respects (OnDisk (Keeps (p.WritesOutputs d₀))) (Assets.copyManifest p) := by
  have hfolder : Respects (Keeps (p.WritesOutputs d₀)) (Change.makeFolders p.layout.modDir) :=
    keeps_change (Change.grows_makeFolders _) (Change.respects_makeFolders _) (Set.empty_subset _)
  have hsave : Respects (Keeps (p.WritesOutputs d₀))
      (p.manifest.save (p.layout.modDir.join Manifest.fileName)) :=
    keeps_change ((Change.grows_write _ _).adapt _) ((Change.respects_write _ _).adapt _)
      (Set.singleton_subset_iff.mpr p.manifest_mem_outputs)
  refine (Task.respects_change hfolder _).bind fun _ => (Task.respects_change hsave id).bind fun _ =>
    Task.respects_disk.bind fun d => ?_
  split
  · exact keeps_copyFile _ (Or.inr rfl)
  · exact respects_pure ()

theorem keeps_copyLibrary (library : FilePath) : Respects (OnDisk (Keeps (p.WritesOutputs d₀)))
    (Assets.copyLibrary (p.layout.scopeDir .shared) library) := by
  unfold Assets.copyLibrary
  split
  · exact respects_pure _
  · next name hname =>
    refine Task.respects_disk.bind fun d => ?_
    split
    · exact (keeps_copyFile _ (library_mem_outputs hname)).bind fun _ => respects_pure _
    · exact respects_pure _

theorem keeps_copyRuntimeLibraries :
    Respects (OnDisk (Keeps (p.WritesOutputs d₀))) (Assets.copyRuntimeLibraries p) :=
  respects_foldlM (fun library _ _ => (keeps_copyLibrary library).bind fun _ => respects_pure _) []

theorem keeps_copyAll (hp : p.settings.FoldersNamed) :
    Respects (OnDisk (Keeps (p.WritesOutputs d₀))) (Builder.copyAll p) := by
  have hcopy : ∀ f ∈ p.mirroredFolders, ∀ q t, f.Brings p.layout q t →
      Respects (Keeps fun s : Session × Assets.Log => p.WritesOutputs d₀ s.1.disk)
        (Assets.Logged.copyFile q t) := by
    intro f hf q t hbrings
    exact (Assets.Logged.keeps_ofTask (keeps_copyFile q (mem_outputs_of_brings hf hbrings))).bind
      fun _ _ => id
  have hlogged : Respects (Keeps fun s : Session × Assets.Log => p.WritesOutputs d₀ s.1.disk)
      (Builder.copyAllBy Assets.Logged.copyFile p) :=
    Assets.Logged.keeps_copyAll (fun _ h => h.named) hp hcopy
      (Assets.Logged.keeps_ofTask keeps_copyManifest)
      (Assets.Logged.keeps_ofTask keeps_copyRuntimeLibraries)
  intro s hs
  have herases := congrArg Prod.snd (Assets.Logged.erases_copyAll p s [])
  rw [← herases]
  exact hlogged (s, []) hs

end Project

/-- No path that the compiler declares climbs. -/
def Compiler.Descends (c : Compiler) : Prop :=
  ∀ request d units, (c.compile request d).1 = .ok units → ∀ u ∈ units, ".." ∉ segments (normalize u.path)

namespace Builder

variable {b : Builder} {s : Session}

theorem respects_emit (p : Project) (r : PassReport) (units : List CompiledUnit) :
    Respects (OnDisk (Writes ((emission p).files units))) (emit p r units) := by
  refine (Task.respects_result (Emission.respects_emit _ units)).bind fun answer => ?_
  cases answer with
  | ok outcomes => exact respects_pure _
  | error e => exact (Task.respects_record _).bind fun _ => respects_throw _

theorem writes_finish (copied : Nat × List Diagnostic) (htree : s.disk.IsTree)
    (hquiet : b.compiler.Quiet) (hdots : b.compiler.Descends) :
    Writes p.outputs s.disk (b.finish p copied s).2.disk := by
  unfold finish
  dsimp only
  rw [run_bind]
  rcases compile_cases p htree hquiet with ⟨e, hcompile⟩ | ⟨found, t, hdisk, -, hcompile⟩
  · rw [hcompile]
    exact .refl _ _
  · rw [hcompile, ← hdisk]
    cases hanswer : (b.compiler.compile (request p false) found).1 with
    | error e => exact .refl _ _
    | ok units =>
      have hfiles : (emission p).files units ⊆ p.outputs := by
        rintro q ⟨u, hu, -, rfl⟩
        exact Project.place_mem_outputs (hdots _ _ units hanswer u hu)
      refine Writes.mono (Respects.bind (respects_emit p _ units) (fun r => ?_) t) hfiles
      exact (Task.respects_record _).bind fun _ => (Task.respects_status _ _ _).bind fun _ =>
        respects_pure _

/-- However a pass ends, it writes only outputs. -/
theorem writes_build (htree : s.disk.IsTree) (hnamed : s.disk.Named) (hquiet : b.compiler.Quiet)
    (hdots : b.compiler.Descends) (hload : Project.load s.disk b.root = .ok p) :
    Writes p.outputs s.disk (b.build s).2.disk := by
  obtain ⟨s₀, hdisk, -, hbuild⟩ := build_of_load hload
  rw [hbuild, run_bind, ← hdisk]
  rw [← hdisk] at htree hnamed
  have hcopied : p.WritesOutputs s₀.disk (copyAll p s₀).2.disk :=
    Project.keeps_copyAll (Project.foldersNamed_of_load hload) s₀ ⟨hnamed, .refl _ _⟩
  have hkept := isTree_copyAll p htree
  rcases hcopy : copyAll p s₀ with ⟨f | copied, s₁⟩
  all_goals rw [hcopy] at hcopied hkept
  · exact hcopied.writes
  · exact hcopied.writes.trans (writes_finish copied hkept hquiet hdots)

/-- A pass leaves every file alone that is not inside the folder of the mod and where the poster does
not go. These are all files outside of the output folder when the mod and its poster are inside. -/
theorem build_leaves_outside (htree : s.disk.IsTree) (hnamed : s.disk.Named) (hquiet : b.compiler.Quiet)
    (hdots : b.compiler.Descends) (hload : Project.load s.disk b.root = .ok p) :
    (∀ l, p.Leaves s.disk l → ∀ content,
      (b.build s).2.disk.get? l = some (.file content) ↔ s.disk.get? l = some (.file content)) ∧
      (s.disk.target p.outDir <+: s.disk.target p.layout.modDir →
        s.disk.target p.outDir <+: s.disk.target (p.layout.modDir.join p.manifest.poster) →
          ∀ l, ¬s.disk.target p.outDir <+: l → ∀ content,
            (b.build s).2.disk.get? l = some (.file content) ↔ s.disk.get? l = some (.file content)) := by
  have hleaves : ∀ l, p.Leaves s.disk l → ∀ content,
      (b.build s).2.disk.get? l = some (.file content) ↔ s.disk.get? l = some (.file content) :=
    fun l hl => hl.file_iff (writes_build htree hnamed hquiet hdots hload)
  refine ⟨hleaves, fun hmod hposter l hl => hleaves l (.of_not_below ?_ ?_)⟩
  · exact fun hbelow => hl (hmod.trans hbelow)
  · exact fun heq => hl (heq ▸ hposter)

/-- The manifest and the sources of a project stay as they are. -/
theorem build_leaves_outside_sources :
    let d : Disk :=
      { entries := [(["p"], .folder), (["p", "src"], .folder), (["p", "src", "client"], .folder),
          (["p", "src", "client", "Main.lua"], .file "return 0".toUTF8), (["p", "p.png"], .file "P".toUTF8),
          (["p", "mod.info"], .file "id=M\nname=N\nposter=p.png\ndescription=D".toUTF8)] }
    let p : Project :=
      ⟨⟨"/p"⟩, { id := "M", name := "N", poster := "p.png", description := "D" }, {}⟩
    let b : Builder := ⟨p.root, ⟨fun _ => pure [⟨"client/Main.lua", "return 1"⟩], fun _ => pure ""⟩, {}⟩
    d.IsTree ∧ d.Named ∧ b.compiler.Quiet ∧ b.compiler.Descends ∧ Project.load d p.root = .ok p ∧
      ∀ l ∈ [["p", "mod.info"], ["p", "p.png"], ["p", "src", "client", "Main.lua"]],
        ∀ content, (b.build ⟨d, []⟩).2.disk.get? l = some (.file content) ↔
          d.get? l = some (.file content) := by
  intro d p b
  have htree : d.IsTree := by decide +kernel
  have hnamed : d.Named := by decide +kernel
  have hquiet : b.compiler.Quiet := fun _ _ => rfl
  have hdots : b.compiler.Descends := by
    rintro request d units hunits u hu
    cases hunits
    rw [List.mem_singleton.mp hu]
    decide +kernel
  have hload : Project.load d p.root = .ok p := eq_ok_of_toOption (by decide +kernel)
  obtain ⟨-, houtside⟩ := build_leaves_outside (b := b) (s := ⟨d, []⟩) htree hnamed hquiet hdots hload
  refine ⟨htree, hnamed, hquiet, hdots, hload, fun l hl => ?_⟩
  have hall : ∀ l ∈ [["p", "mod.info"], ["p", "p.png"], ["p", "src", "client", "Main.lua"]],
      ¬d.target p.outDir <+: l := by decide +kernel
  exact houtside (by decide +kernel) (by decide +kernel) l (hall l hl)

/-- The id leads out of the output folder to the project itself, so the manifest is written over and the
poster is copied onto itself. -/
theorem build_empties_poster :
    let d : Disk :=
      { entries := [(["p"], .folder), (["p", "p.png"], .file "P".toUTF8),
          (["p", "mod.info"], .file "id=..\nname=N\nposter=p.png\ndescription=D".toUTF8)] }
    let p : Project :=
      ⟨⟨"/p"⟩, { id := "..", name := "N", poster := "p.png", description := "D" }, {}⟩
    let b : Builder := ⟨p.root, ⟨fun _ => pure [], fun _ => pure ""⟩, {}⟩
    Project.load d p.root = .ok p ∧ b.compiler.Quiet ∧ b.compiler.Descends ∧
      (b.build ⟨d, []⟩).1.toBool = true ∧
      ¬d.target p.outDir <+: ["p", "p.png"] ∧ d.get? ["p", "p.png"] = some (.file "P".toUTF8) ∧
      (b.build ⟨d, []⟩).2.disk.get? ["p", "p.png"] = some (.file .empty) ∧
      (b.build ⟨d, []⟩).2.disk.get? ["p", "mod.info"] =
        some (.file "name=N\r\nposter=p.png\r\nid=..\r\ndescription=D".toUTF8) := by
  intro d p b
  have hload : Project.load d p.root = .ok p := eq_ok_of_toOption (by decide +kernel)
  have hquiet : b.compiler.Quiet := fun _ _ => rfl
  have hdots : b.compiler.Descends := by
    rintro request d units hunits u hu
    cases hunits
    cases hu
  refine ⟨hload, hquiet, hdots, ?_⟩
  decide +kernel

end Builder

end ModBuild
