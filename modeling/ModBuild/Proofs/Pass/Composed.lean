import ModBuild.Proofs.Disk.Growth
import ModBuild.Proofs.Pass.Compatible
import ModBuild.Proofs.Session.Composed

/-!
# What the copies of a pass are composed of

The copies make folders, write the manifest and copy files. A relation that holds whenever one folder
is made or one file is written holds over all of them.
-/

namespace ModBuild

set_option autoImplicit false

open ModBuild.Task (Composed)

/-- The changes that the copies are composed of. -/
inductive Change.IsCopy : Change Fault Unit → Prop
  | folders (p : FilePath) : IsCopy (makeFolders p)
  | file (source target : FilePath) : IsCopy (copy source target)
  | text (p : FilePath) (text : String) : IsCopy (writeText p text)

theorem Change.IsCopy.respects {R : Disk → Disk → Prop} [IsPreorder Disk R] {c : Change Fault Unit}
    (h : c.IsCopy) (hfolder : ∀ p, Respects R (makeFolder p))
    (hwrite : ∀ p content, Respects R (write p content)) : Respects R c := by
  cases h with
  | folders p => exact respects_makeChain_of fun q _ => hfolder q
  | file source target => exact respects_copy_of (hwrite target)
  | text p text => exact hwrite p text.toUTF8

namespace Assets

open Change (IsCopy)

theorem composed_copyFile (source target : FilePath) : Composed IsCopy (copyFile source target) := by
  refine (Composed.status _ _ _).bind fun _ => ?_
  dsimp only
  split
  · exact (Composed.change _ (.folders _)).bind fun _ => .change _ (.file source target)
  · exact .change _ (.file source target)

theorem respects_copyFile {R : Disk → Disk → Prop} [IsPreorder Disk R] {source target : FilePath}
    (hfolders : ∀ above, Respects R (Change.makeFolders above))
    (hcopy : Respects R (Change.copy source target)) :
    Respects (Session.OnDisk R) (copyFile source target) := by
  refine (Task.respects_status _ _ _).bind fun _ => ?_
  dsimp only
  split
  · exact (Task.respects_change (hfolders _) _).bind fun _ => Task.respects_change hcopy _
  · exact Task.respects_change hcopy _

theorem compatible_composed (C : Change Fault Unit → Prop) :
    Compatible (fun _ => True) fun α (x _ : Task Failure α) => Composed C x where
  pure := .pure
  throw := .throw
  bind := .bind
  disk hf := Composed.disk.bind fun d => hf d fun _ _ _ => trivial

theorem composed_mirror (source target : FilePath) (skipSources : Bool) :
    Composed IsCopy (mirrorBy copyFile source target skipSources) :=
  (compatible_composed IsCopy).mirror copyFile copyFile (fun _ => True) (fun _ _ _ _ => trivial)
    (fun _ _ _ _ _ => composed_copyFile _ _) trivial

theorem composed_copyScopeFiles (p : Project) : Composed IsCopy (copyScopeFiles p) :=
  (compatible_composed IsCopy).copyScopeFiles copyFile copyFile fun _ _ => composed_mirror _ _ _

theorem composed_copyAssetDirs (p : Project) : Composed IsCopy (copyAssetDirs p) :=
  (compatible_composed IsCopy).copyAssetDirs copyFile copyFile fun _ _ => composed_mirror _ _ _

theorem composed_copyLibrary (shared library : FilePath) :
    Composed IsCopy (copyLibrary shared library) := by
  unfold copyLibrary
  split
  · exact .pure _
  · refine Composed.disk.bind fun d => ?_
    split
    · exact (composed_copyFile _ _).bind fun _ => .pure _
    · exact .pure _

theorem composed_copyRuntimeLibraries (p : Project) : Composed IsCopy (copyRuntimeLibraries p) :=
  .foldlM (fun _ _ _ => (composed_copyLibrary _ _).bind fun _ => .pure _) []

theorem composed_copyManifest (p : Project) : Composed IsCopy (copyManifest p) := by
  have hsave : ∀ path, Composed IsCopy (Task.change id (p.manifest.save path)) := by
    intro path
    unfold Manifest.save
    rw [Task.change_adapt]
    exact .change _ (.text path p.manifest.text)
  refine (Composed.change _ (.folders _)).bind fun _ => (hsave _).bind fun _ =>
    Composed.disk.bind fun d => ?_
  split
  · exact composed_copyFile _ _
  · exact .pure ()

end Assets

theorem Builder.composed_copyAll (p : Project) : Composed Change.IsCopy (copyAll p) :=
  (Assets.compatible_composed _).copyAll Assets.copyFile Assets.copyFile
    (fun _ _ => Assets.composed_mirror _ _ _) (Assets.composed_copyManifest p)
    (Assets.composed_copyRuntimeLibraries p)

end ModBuild
