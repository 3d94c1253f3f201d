import ModBuild.Proofs.Pass.Composed
import ModBuild.Proofs.Pass.Copies

/-!
# What the copies keep

A walk only meets names that are on the disk, so as long as these can be used in paths every copy that
it makes is one that its folder brings. A property that says so and that each such copy keeps is kept
by all of them.
-/

namespace ModBuild.Assets.Logged

set_option autoImplicit false

open Component

variable {p : Project} {f : MirroredFolder} {I : Session × Log → Prop}

theorem keeps_ofTask {α : Type} {J : Disk → Prop} {x : Task Failure α}
    (h : Respects (Session.OnDisk (Keeps J)) x) : Respects (Keeps fun s => J s.1.disk) (ofTask x) :=
  fun s => h s.1

variable (hnamed : ∀ s, I s → s.1.disk.Named)
include hnamed

theorem compatible_keeps : Compatible IsName fun α (x _ : Logged α) => Respects (Keeps I) x where
  pure := respects_pure
  throw := respects_throw
  bind := Respects.bind
  disk hf s hs := hf s.1.disk (fun _ _ hname => (hnamed s hs).isName_of_mem_names hname) s hs

variable (hp : p.settings.FoldersNamed)
include hp

theorem keeps_mirror (hf : f ∈ p.mirroredFolders)
    (hcopy : ∀ q t, f.Brings p.layout q t → Respects (Keeps I) (copyFile q t)) :
    Respects (Keeps I) (mirrorBy copyFile f.source (f.target p.layout) f.skipSources) := by
  refine (compatible_keeps hnamed).mirror copyFile copyFile f.Reaches ?_ ?_ f.reaches_source
  · intro dir name hdir hname
    exact hdir.join hname
  · intro dir name hdir hname hskip
    exact hcopy _ _ (hdir.brings hp hf hname hskip)

theorem keeps_copyAll
    (hcopy : ∀ f ∈ p.mirroredFolders, ∀ q t, f.Brings p.layout q t → Respects (Keeps I) (copyFile q t))
    (hmanifest : Respects (Keeps I) (ofTask (copyManifest p)))
    (hlibraries : Respects (Keeps I) (ofTask (copyRuntimeLibraries p))) :
    Respects (Keeps I) (Builder.copyAllBy copyFile p) :=
  (compatible_keeps hnamed).copyAll copyFile copyFile
    (fun f hf => keeps_mirror hnamed hp hf (hcopy f hf)) hmanifest hlibraries

end ModBuild.Assets.Logged
