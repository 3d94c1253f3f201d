import ModBuild.Proofs.Pass.Mirroring
import ModBuild.Proofs.Pass.Outside

/-!
# What a pass brings to the output

Loose files, runtime libraries and units go to the same folders one after the other, and nothing is
compared but the units with each other. So each file arrives as it is, and stays unless something else
is brought to the same place later: a library after the loose files and the libraries before it, a unit
after all of them.
-/

namespace ModBuild

set_option autoImplicit false

open Component
open Disk (Writes Grows)
open Session (OnDisk)

variable {p : Project} {d d' d₀ : Disk} {q t source target : FilePath} {content : ByteArray} {s s' : Session}

namespace Assets

/-- The run has copied the file on the disk `d`, or it has failed and done nothing there. -/
def Copied (source target : FilePath) (d : Disk) (run : Except Failure Unit × Session) : Prop :=
  run.1 = .ok () ∧ Change.copy source target d = (.ok (), run.2.disk) ∨
    ∃ f, run.1 = .error f ∧ run.2.disk = d

theorem copied_change (wrap : Fault → Failure) (source target : FilePath) (s : Session) :
    Copied source target s.disk (Task.change wrap (Change.copy source target) s) := by
  rw [Task.change_apply]
  rcases Change.copy_cases source target s.disk with ⟨f, h⟩ | ⟨content, -, -, h⟩
  · rw [h]
    exact Or.inr ⟨_, rfl, rfl⟩
  · rw [h]
    exact Or.inl ⟨rfl, h⟩

theorem copied_copyFile (source target : FilePath) (s : Session) :
    ∃ d, Writes ∅ s.disk d ∧ Copied source target d (copyFile source target s) := by
  unfold copyFile Task.status
  rw [run_bind, Task.record_apply]
  cases target.parent? with
  | none => exact ⟨s.disk, .refl _ _, copied_change _ source target _⟩
  | some above =>
    dsimp only
    have hfolders := Change.respects_makeFolders above s.disk
    rw [run_bind, Task.change_apply]
    dsimp only
    rcases hmake : Change.makeFolders above s.disk with ⟨f | _, d⟩
    all_goals rw [hmake] at hfolders
    · exact ⟨d, hfolders, Or.inr ⟨_, rfl, rfl⟩⟩
    · exact ⟨d, hfolders, copied_change _ source target _⟩

theorem writes_copyFile (source target : FilePath) :
    Respects (OnDisk (Writes {target})) (copyFile source target) :=
  respects_copyFile (fun above d => (Change.respects_makeFolders above d).mono (Set.empty_subset _))
    (Change.respects_copy source target)

/-- A file arrives as it was, unless it was copied onto itself. -/
theorem read_of_copyFile_ok (h : copyFile source target s = (.ok (), s'))
    (hfile : s.disk.get? (s.disk.target source) = some (.file content))
    (hne : s.disk.target source ≠ s.disk.target target) : s'.disk.read target = .ok content := by
  have hcopied := copied_copyFile source target s
  rw [h] at hcopied
  obtain ⟨d, hwrites, ⟨-, hcopy⟩ | ⟨f, herror, -⟩⟩ := hcopied
  · rw [← hwrites.target, ← hwrites.target target] at hne
    rw [← hwrites.target, ← hwrites.file _ (fun _ h => absurd h (Set.notMem_empty _))] at hfile
    have hwritten := (Change.respects_copy source target).of_run hcopy
    rcases Change.copy_cases source target d with ⟨f, hfail⟩ | ⟨content', hread, hcan, hput⟩
    · rw [hcopy] at hfail
      cases hfail
    · rw [hfile] at hread
      cases hread
      rw [if_neg hne, hcopy, Prod.mk.injEq] at hput
      rw [Disk.read_eq_ok_iff, hwritten.target]
      refine ⟨hwritten.locate hcan.locate, ?_⟩
      rw [hput.2, Disk.get?_put hcan.target_ne_nil, if_pos rfl]
  · cases herror

theorem read_of_copyFile_error {e : Failure} (h : copyFile source target s = (.error e, s'))
    (hread : s.disk.read t = .ok content) : s'.disk.read t = .ok content := by
  have hcopied := copied_copyFile source target s
  rw [h] at hcopied
  obtain ⟨d, hwrites, ⟨hok, -⟩ | ⟨f, -, hdisk⟩⟩ := hcopied
  · cases hok
  · rw [hdisk]
    exact hwrites.read (fun _ h => absurd h (Set.notMem_empty _)) hread

end Assets

namespace MirroredFolder

variable {f g : MirroredFolder} {q' t' : FilePath}

theorem Brings.target_eq (hf : f ∈ p.mirroredFolders) (hg : g ∈ p.mirroredFolders)
    (h : f.Brings p.layout q t) (h' : g.Brings p.layout q' t') (ht : d.target t' = d.target t) :
    d.target q' = d.target q := by
  obtain ⟨⟨names, -, -, hq, htarget⟩, -⟩ := h
  obtain ⟨⟨names', -, -, hq', htarget'⟩, -⟩ := h'
  rw [components_target hf, List.append_assoc, ← List.map_append] at htarget
  rw [components_target hg, List.append_assoc, ← List.map_append] at htarget'
  rw [Disk.target_of_names htarget, Disk.target_of_names htarget', List.append_cancel_left_eq] at ht
  obtain rfl := eq_of_below_append hg hf ht
  rw [List.append_cancel_left_eq] at ht
  rw [Disk.target_of_names hq, Disk.target_of_names hq', ht]

end MirroredFolder

namespace Assets

/-- What was mirrored from `q` to `t` is found there with the content that it had on `d₀`. -/
structure Arrives (p : Project) (d₀ : Disk) (q t : FilePath) (content : ByteArray) (s : Session × Log) :
    Prop where
  outputs : p.WritesOutputs d₀ s.1.disk
  arrived : ∀ x ∈ s.2, x.1.Same q → x.2.Same t → s.1.disk.read x.2 = .ok content

variable {f g : MirroredFolder} {q' t' : FilePath}

/-- The induction step of a walk: another file goes elsewhere, and the same one brings the same. -/
theorem keeps_arrives (hf : f ∈ p.mirroredFolders) (hg : g ∈ p.mirroredFolders)
    (h : f.Brings p.layout q t) (h' : g.Brings p.layout q' t') (hleaves : p.Leaves d₀ (d₀.target q))
    (hfile : d₀.get? (d₀.target q) = some (.file content)) :
    Respects (Keeps (Arrives p d₀ q t content)) (Logged.copyFile q' t') := by
  rintro ⟨s, log⟩ ⟨houtputs, harrived⟩
  have hkept := Project.keeps_copyFile q' (Project.mem_outputs_of_brings hg h') s houtputs
  have hwrites := writes_copyFile q' t' s
  rw [Logged.copyFile_apply]
  rcases hrun : copyFile q' t' s with ⟨e | _, s'⟩
  all_goals rw [hrun] at hkept hwrites
  · exact ⟨hkept, fun x hx hq ht => read_of_copyFile_error hrun (harrived x hx hq ht)⟩
  · refine ⟨hkept, fun x hx hq ht => ?_⟩
    change Writes {t'} s.disk s'.disk at hwrites
    change s'.disk.read x.2 = .ok content
    by_cases hsame : s.disk.target t' = s.disk.target t
    · have hsource := h.target_eq hf hg h' hsame
      have hne : s.disk.target q' ≠ s.disk.target t' := by
        rw [hsource, hsame, houtputs.writes.target, houtputs.writes.target]
        exact hleaves.ne_target (Project.mem_outputs_of_brings hf h)
      have hcontent : s.disk.get? (s.disk.target q') = some (.file content) := by
        rw [hsource, houtputs.writes.target, hleaves.file_iff houtputs.writes]
        exact hfile
      have hread := read_of_copyFile_ok hrun hcontent hne
      rcases List.mem_append.mp hx with hx | hx
      · have hlocate := (Disk.read_eq_ok_iff.mp (harrived x hx hq ht)).1
        rw [Disk.read_eq_ok_iff]
        refine ⟨(hwrites.target x.2).symm ▸ hwrites.locate hlocate, ?_⟩
        rw [Disk.target_of_same ht, hwrites.target, ← hsame, ← hwrites.target]
        exact (Disk.read_eq_ok_iff.mp hread).2
      · rw [List.mem_singleton.mp hx]
        exact hread
    · rcases List.mem_append.mp hx with hx | hx
      · refine hwrites.read (fun r hr => ?_) (harrived x hx hq ht)
        rw [Set.mem_singleton_iff.mp hr, Disk.target_of_same ht]
        exact fun heq => hsame heq.symm
      · rw [List.mem_singleton.mp hx] at ht
        exact absurd (Disk.target_of_same ht s.disk) hsame

section Libraries

variable {shared library : FilePath} {libraries : List FilePath} {ws ws' : List Diagnostic} {name : String}

theorem copyLibrary_ok (h : copyLibrary shared library s = (.ok ws, s')) :
    (∃ name, library.fileName? = some name ∧ s.disk.isFile library = true ∧
      copyFile library (shared.join name) s = (.ok (), s')) ∨
    (library.fileName? = none ∨ s.disk.isFile library = false) ∧ s' = s := by
  unfold copyLibrary at h
  cases hname : library.fileName? with
  | none =>
    rw [hname] at h
    cases h
    exact Or.inr ⟨Or.inl rfl, rfl⟩
  | some name =>
    rw [hname] at h
    dsimp only at h
    rw [run_bind, Task.disk_apply] at h
    dsimp only at h
    split at h
    · next hfile =>
      obtain ⟨_, s₁, hcopy, hreturn⟩ := run_bind_ok_iff.mp h
      cases hreturn
      exact Or.inl ⟨name, rfl, hfile, hcopy⟩
    · next hfile =>
      cases h
      exact Or.inr ⟨Or.inr (by simpa using hfile), rfl⟩

def copyLibraries (shared : FilePath) (libraries : List FilePath) (ws : List Diagnostic) :
    Task Failure (List Diagnostic) :=
  libraries.foldlM (fun ws library => do return ws ++ (← copyLibrary shared library)) ws

theorem grows_copyLibraries (shared : FilePath) (libraries : List FilePath) (ws : List Diagnostic) :
    Respects (OnDisk Grows) (copyLibraries shared libraries ws) :=
  grows_of_composed (.foldlM (fun _ _ _ => (composed_copyLibrary _ _).bind fun _ => .pure _) ws)

/-- The induction is on the libraries that are left; those that are files in the end are all that were
files in their turn. -/
theorem read_of_copyLibraries_ok (h : copyLibraries shared libraries ws s = (.ok ws', s'))
    (hother : ∀ x ∈ libraries, s'.disk.isFile x = true → ∀ name ∈ x.fileName?,
      s'.disk.target t ≠ s'.disk.target (shared.join name))
    (hread : s.disk.read t = .ok content) : s'.disk.read t = .ok content := by
  induction libraries generalizing ws s with
  | nil =>
    cases h
    exact hread
  | cons x libraries ih =>
    unfold copyLibraries at h
    rw [List.foldlM_cons, run_bind_ok_iff] at h
    obtain ⟨ws₁, s₁, hfirst, hrest⟩ := h
    obtain ⟨found, s₂, hcopy, hreturn⟩ := run_bind_ok_iff.mp hfirst
    cases hreturn
    have hgrows : Grows s₁.disk s'.disk := (grows_copyLibraries shared libraries _).of_run hrest
    refine ih hrest (fun y hy => hother y (List.mem_cons_of_mem x hy)) ?_
    rcases copyLibrary_ok hcopy with ⟨name, hname, hfile, hcopied⟩ | ⟨-, rfl⟩
    · have hwrites : Writes {shared.join name} s.disk s₁.disk := (writes_copyFile _ _).of_run hcopied
      have hgrown : Grows s.disk s₁.disk := (grows_copyFile _ _).of_run hcopied
      refine hwrites.read (fun r hr => ?_) hread
      have hlast := hother x List.mem_cons_self ((hgrown.trans hgrows).isFile hfile) name hname
      rw [hgrows.target, hgrows.target, hwrites.target, hwrites.target] at hlast
      rwa [Set.mem_singleton_iff.mp hr]
    · exact hread

end Libraries

section Copies

variable {r : Nat × List Diagnostic} {f : MirroredFolder} (hp : p.settings.FoldersNamed)
  (hnamed : s.disk.Named) (hrun : Builder.copyAll p s = (.ok r, s'))
include hp hnamed hrun

theorem copyAll_ok : ∃ s₁ s₂ ws, p.WritesOutputs s.disk s₁.disk ∧
    copyLibraries (p.layout.scopeDir .shared) p.runtimeLibraries [] s₂ = (.ok ws, s') ∧
    ∀ I : Session × Log → Prop, (∀ s, I s → s.1.disk.Named) →
      (∀ f ∈ p.mirroredFolders, ∀ q t, f.Brings p.layout q t → Respects (Keeps I) (Logged.copyFile q t)) →
        I (s₁, []) → I (s₂, mirrored p s) := by
  have hlogged := logged_of_copyAll_ok hrun
  generalize mirrored p s = log at hlogged ⊢
  obtain ⟨_, ⟨s₁, log₁⟩, hmanifest, hlogged⟩ := run_bind_ok_iff.mp hlogged
  obtain ⟨loose, s₂, hscopes, hlogged⟩ := run_bind_ok_iff.mp hlogged
  obtain ⟨assets, ⟨s₃, log₃⟩, hassets, hlogged⟩ := run_bind_ok_iff.mp hlogged
  obtain ⟨ws, ⟨s₄, log₄⟩, hlibraries, hreturn⟩ := run_bind_ok_iff.mp hlogged
  cases hreturn
  obtain ⟨hfirst, rfl⟩ := Logged.ofTask_ok hmanifest
  obtain ⟨hlast, rfl⟩ := Logged.ofTask_ok hlibraries
  have hstart : p.WritesOutputs s.disk s₁.disk :=
    Project.keeps_copyManifest.of_run hfirst ⟨hnamed, .refl _ _⟩
  refine ⟨s₁, s₃, ws, hstart, hlast, fun I hI hcopy hs₁ => ?_⟩
  have hcompatible := Logged.compatible_keeps hI
  have hmirror := fun f hf => Logged.keeps_mirror hI hp hf (hcopy f hf)
  have hs₂ := Respects.of_run (hcompatible.copyScopeFiles _ Logged.copyFile hmirror) hscopes hs₁
  exact Respects.of_run (hcompatible.copyAssetDirs _ Logged.copyFile hmirror) hassets hs₂

/-- A loose file arrives and stays, unless a library goes to the same place. -/
theorem exists_read_of_copyAll_ok (hf : f ∈ p.mirroredFolders) (hbrings : f.Brings p.layout q t)
    (hsource : s.disk.isFolder f.source = true) (hread : s.disk.read q = .ok content)
    (hleaves : p.Leaves s.disk (s.disk.target q))
    (hother : ∀ x ∈ p.runtimeLibraries, s'.disk.isFile x = true → ∀ name ∈ x.fileName?,
      s'.disk.target t ≠ s'.disk.target ((p.layout.scopeDir .shared).join name)) :
    ∃ t', t'.Same t ∧ s'.disk.read t' = .ok content := by
  obtain ⟨hlocate, hfile⟩ := Disk.read_eq_ok_iff.mp hread
  obtain ⟨x, hx, hq, ht⟩ := exists_mem_mirrored hp hf hbrings
    (Disk.isFile_iff.mpr ⟨_, _, hlocate, hfile⟩) hsource hrun
  obtain ⟨s₁, s₂, ws, hstart, hlibraries, hinvariant⟩ := copyAll_ok hp hnamed hrun
  have harrives := hinvariant (Arrives p s.disk q t content) (fun _ h => h.outputs.named)
    (fun g hg q' t' h' => keeps_arrives hf hg hbrings h' hleaves hfile)
    ⟨hstart, fun x hx => absurd hx List.not_mem_nil⟩
  refine ⟨x.2, ht, ?_⟩
  refine read_of_copyLibraries_ok hlibraries (fun y hy hyfile name hname => ?_)
    (harrives.arrived x hx hq ht)
  rw [Disk.target_of_same ht]
  exact hother y hy hyfile name hname

/-- A library arrives and stays, unless a later one goes to the same place. -/
theorem read_library_of_copyAll_ok {before after : List FilePath} {library : FilePath} {name : String}
    (hsplit : p.runtimeLibraries = before ++ library :: after) (hname : library.fileName? = some name)
    (hread : s.disk.read library = .ok content) (hleaves : p.Leaves s.disk (s.disk.target library))
    (hother : ∀ x ∈ after, s'.disk.isFile x = true → ∀ n ∈ x.fileName?,
      s'.disk.target ((p.layout.scopeDir .shared).join name) ≠
        s'.disk.target ((p.layout.scopeDir .shared).join n)) :
    s'.disk.read ((p.layout.scopeDir .shared).join name) = .ok content := by
  obtain ⟨s₁, s₂, ws, hstart, hlibraries, hinvariant⟩ := copyAll_ok hp hnamed hrun
  have houtputs : p.WritesOutputs s.disk s₂.disk :=
    hinvariant (fun s₁ => p.WritesOutputs s.disk s₁.1.disk) (fun _ h => h.named)
      (fun g hg q' t' h' => (Logged.keeps_ofTask
        (Project.keeps_copyFile q' (Project.mem_outputs_of_brings hg h'))).bind fun _ _ => id) hstart
  rw [copyLibraries, hsplit, List.foldlM_append, run_bind_ok_iff] at hlibraries
  obtain ⟨ws₁, s₃, hbefore, hlibraries⟩ := hlibraries
  rw [List.foldlM_cons, run_bind_ok_iff] at hlibraries
  obtain ⟨ws₂, s₄, hturn, hafter⟩ := hlibraries
  obtain ⟨found, s₅, hcopy, hreturn⟩ := run_bind_ok_iff.mp hturn
  cases hreturn
  have hkept : p.WritesOutputs s.disk s₃.disk :=
    (respects_foldlM (fun x _ _ => (Project.keeps_copyLibrary x).bind fun _ => respects_pure _) _).of_run
      hbefore houtputs
  obtain ⟨hlocate, hfile⟩ := Disk.read_eq_ok_iff.mp hread
  have hfile₃ : s₃.disk.get? (s₃.disk.target library) = some (.file content) := by
    rw [hkept.writes.target, hleaves.file_iff hkept.writes]
    exact hfile
  have hthere : s₃.disk.isFile library = true := by
    refine Disk.isFile_iff.mpr ⟨_, content, hkept.writes.locate hlocate, ?_⟩
    rwa [← hkept.writes.target]
  have hne : s₃.disk.target library ≠ s₃.disk.target ((p.layout.scopeDir .shared).join name) := by
    rw [hkept.writes.target, hkept.writes.target]
    exact hleaves.ne_target (Project.library_mem_outputs hname)
  rcases copyLibrary_ok hcopy with ⟨name', hname', -, hcopied⟩ | ⟨hnone | hmissing, -⟩
  · rw [hname, Option.some.injEq] at hname'
    subst hname'
    exact read_of_copyLibraries_ok hafter hother (read_of_copyFile_ok hcopied hfile₃ hne)
  · rw [hname] at hnone
    cases hnone
  · rw [hthere] at hmissing
    cases hmissing

end Copies

end Assets

/-- Of what is brought to the output later, none goes to the path: of the libraries that are there none,
and no unit. -/
structure Project.Stays (p : Project) (libraries : List FilePath) (units : List CompiledUnit) (d : Disk)
    (t : FilePath) : Prop where
  library : ∀ x ∈ libraries, d.isFile x = true → ∀ name ∈ x.fileName?,
    d.target t ≠ d.target ((p.layout.scopeDir .shared).join name)
  unit : ∀ u ∈ units, u.Kept → d.target t ≠ d.target ((Builder.emission p).place u).path

instance (p : Project) (libraries : List FilePath) (units : List CompiledUnit) (d : Disk) (t : FilePath) :
    Decidable (p.Stays libraries units d t) :=
  decidable_of_iff (_ ∧ _) ⟨fun h => ⟨h.1, h.2⟩, fun h => ⟨h.library, h.unit⟩⟩

/-- What a pass that emits the units has brought to the output when it ends with the disk `d'`. -/
structure Project.Delivered (p : Project) (units : List CompiledUnit) (d d' : Disk) : Prop where
  loose : ∀ scope ∈ Scope.owners, d.isFolder (p.scopeSource scope) = true →
    ∀ q t content, (MirroredFolder.ofScope p scope).Brings p.layout q t → d.read q = .ok content →
      p.Leaves d (d.target q) → p.Stays p.runtimeLibraries units d' t →
        ∃ t', t'.Same t ∧ d'.read t' = .ok content
  library : ∀ before library after, p.runtimeLibraries = before ++ library :: after →
    ∀ name content, library.fileName? = some name → d.read library = .ok content →
      p.Leaves d (d.target library) → p.Stays after units d' ((p.layout.scopeDir .shared).join name) →
        d'.read ((p.layout.scopeDir .shared).join name) = .ok content
  /-- A unit, or another one that was brought to the same place. -/
  unit : ∀ u ∈ units, u.Kept → ∃ v ∈ units, v.Kept ∧
    d'.target ((Builder.emission p).place v).path = d'.target ((Builder.emission p).place u).path ∧
      d'.read ((Builder.emission p).place u).path =
        .ok ((Builder.emission p).transform v).text.toUTF8

namespace Builder

variable {b : Builder} {units : List CompiledUnit} {outcomes : List Outcome} {r : PassReport}
  {copied : Nat × List Diagnostic}

/-- What the copies have brought stays but for what the units overwrite. -/
theorem delivered_of_emit_ok (hp : p.settings.FoldersNamed) (hnamed : s.disk.Named)
    (hcopy : copyAll p s = (.ok copied, s'))
    (hemit : (emission p).emit units s'.disk = (.ok outcomes, d')) : p.Delivered units s.disk d' := by
  have hgrows : Grows s'.disk d' := ((emission p).grows_emit units).of_run hemit
  have hwrites : Writes ((emission p).files units) s'.disk d' :=
    ((emission p).respects_emit units).of_run hemit
  have hlibrary : ∀ libraries t, p.Stays libraries units d' t → ∀ x ∈ libraries,
      s'.disk.isFile x = true → ∀ name ∈ x.fileName?,
        s'.disk.target t ≠ s'.disk.target ((p.layout.scopeDir .shared).join name) := by
    intro libraries t hstays x hx hfile name hname
    rw [← hgrows.target, ← hgrows.target]
    exact hstays.library x hx (hgrows.isFile hfile) name hname
  have hunit : ∀ libraries t t' content, p.Stays libraries units d' t → t'.Same t →
      s'.disk.read t' = .ok content → d'.read t' = .ok content := by
    intro libraries t t' content hstays hsame hread
    refine hwrites.read ?_ hread
    rintro q ⟨u, hu, hkept, rfl⟩
    rw [← hgrows.target, ← hgrows.target, Disk.target_of_same hsame]
    exact hstays.unit u hu hkept
  refine ⟨?_, ?_, fun u hu hkept => ?_⟩
  · intro scope hscope hsource q t content hbrings hread hleaves hstays
    obtain ⟨t', hsame, hthere⟩ := Assets.exists_read_of_copyAll_ok hp hnamed hcopy
      (MirroredFolder.ofScope_mem hscope) hbrings hsource hread hleaves (hlibrary _ t hstays)
    exact ⟨t', hsame, hunit _ t t' content hstays hsame hthere⟩
  · intro before library after hsplit name content hname hread hleaves hstays
    have hthere := Assets.read_library_of_copyAll_ok hp hnamed hcopy hsplit hname hread hleaves
      (hlibrary _ _ hstays)
    exact hunit _ _ _ content hstays rfl hthere
  · obtain ⟨-, hrun, -⟩ := Emission.emitScheduled_ok_iff.mp hemit
    obtain ⟨v, hv, hvkept, hsame, hread⟩ := Emission.exists_read_of_schedule hrun hu hkept
    refine ⟨v, hv, hvkept, ?_, hread⟩
    rw [hgrows.target, hgrows.target, hsame]

theorem finish_ok (htree : s.disk.IsTree) (hquiet : b.compiler.Quiet)
    (h : b.finish p copied s = (.ok r, s')) :
    ∃ found units outcomes, s'.calls = s.calls ++ [(request p false, found)] ∧
      (b.compiler.compile (request p false) found).1 = .ok units ∧
      (emission p).emit units s.disk = (.ok outcomes, s'.disk) := by
  obtain ⟨units, s₁, hcompile, h⟩ := run_bind_ok_iff.mp h
  obtain ⟨r₁, s₂, hemit, h⟩ := run_bind_ok_iff.mp h
  obtain ⟨_, s₃, hreport, h⟩ := run_bind_ok_iff.mp h
  obtain ⟨_, s₄, htold, hreturn⟩ := run_bind_ok_iff.mp h
  cases hreturn
  have hcalls : s₂.calls = s₁.calls := (calls_emit p _ units).of_run hemit
  obtain ⟨outcomes, hrun, -⟩ := emit_ok hemit
  rcases compile_cases p htree hquiet with ⟨e, hfailed⟩ | ⟨found, t, hdisk, hcalled, hanswer⟩
  · rw [hcompile] at hfailed
    cases hfailed
  · rw [hcompile, Prod.mk.injEq] at hanswer
    obtain ⟨hanswer, rfl⟩ := hanswer
    refine ⟨found, units, outcomes, ?_, mapError_eq_ok_iff.mp hanswer.symm, ?_⟩
    · rw [← hcalled, ← hcalls]
      cases hreport
      cases htold
      simp [Session.calls]
    · rw [← hdisk, hrun]
      cases hreport
      cases htold
      rfl

/-- When a pass succeeds, every loose file and every library that is there is found in the output as it
was before, unless it was the pass that wrote it, or a later library or a unit was brought to the same
place. -/
theorem build_delivers (htree : s.disk.IsTree) (hnamed : s.disk.Named) (hquiet : b.compiler.Quiet)
    (h : b.build s = (.ok r, s')) :
    ∃ p found units, Project.load s.disk b.root = .ok p ∧
      s'.calls = s.calls ++ [(request p false, found)] ∧
      (b.compiler.compile (request p false) found).1 = .ok units ∧
      p.Delivered units s.disk s'.disk := by
  cases hload : Project.load s.disk b.root with
  | error f =>
    rw [build_of_load_error hload] at h
    cases h
  | ok p =>
    obtain ⟨s₀, hdisk, hcalls, hbuild⟩ := build_of_load hload
    rw [hbuild] at h
    obtain ⟨copied, s₁, hcopy, hfinish⟩ := run_bind_ok_iff.mp h
    rw [← hdisk] at htree hnamed
    have htree₁ := isTree_copyAll p htree
    rw [hcopy] at htree₁
    obtain ⟨found, units, outcomes, hcalled, hanswer, hemit⟩ := finish_ok htree₁ hquiet hfinish
    refine ⟨p, found, units, rfl, ?_, hanswer, ?_⟩
    · rw [hcalled, (calls_copyAll p).of_run hcopy, hcalls]
    · rw [← hdisk]
      exact delivered_of_emit_ok (Project.foldersNamed_of_load hload) hnamed hcopy hemit

/-- A loose file, and a library of the same name as another one that is not there. -/
theorem build_delivers_loose :
    let d : Disk :=
      { entries := [(["p"], .folder), (["p", "src"], .folder), (["p", "src", "client"], .folder),
          (["p", "src", "client", "Main.lua"], .file "return 0".toUTF8),
          (["p", "lib"], .folder), (["p", "lib", "L.lua"], .file "L".toUTF8),
          (["p", "mod.info"], .file "id=M\nname=N\nposter=p.png\ndescription=D".toUTF8),
          (["p", "pipewrench.json"], .file
            "\x7b\"runtimeLibraries\": [\"lib/L.lua\", \"old/L.lua\"]\x7d".toUTF8)] }
    let b : Builder := ⟨⟨"/p"⟩, ⟨fun _ => pure [⟨"shared/Main.lua", "return 1"⟩], fun _ => pure ""⟩, {}⟩
    d.IsTree ∧ d.Named ∧ b.compiler.Quiet ∧
      ∃ r s', b.build ⟨d, []⟩ = (.ok r, s') ∧
        (∃ t', t'.Same ⟨"/p/dist/M/media/lua/client/Main.lua"⟩ ∧
          s'.disk.read t' = .ok "return 0".toUTF8) ∧
        s'.disk.read ⟨"/p/dist/M/media/lua/shared/L.lua"⟩ = .ok "L".toUTF8 := by
  intro d b
  let p : Project := ⟨b.root, { id := "M", name := "N", poster := "p.png", description := "D" },
    { runtimeLibraries := ["lib/L.lua", "old/L.lua"] }⟩
  have htree : d.IsTree := by decide +kernel
  have hnamed : d.Named := by decide +kernel
  have hquiet : b.compiler.Quiet := fun _ _ => rfl
  have hload : Project.load d b.root = .ok p := eq_ok_of_toOption (by decide +kernel)
  have hleaves : ∀ l ∈ [["p", "src", "client", "Main.lua"], ["p", "lib", "L.lua"]], p.Leaves d l := by
    intro l hl
    have hall : ∀ l ∈ [["p", "src", "client", "Main.lua"], ["p", "lib", "L.lua"]],
        ¬d.target p.layout.modDir <+: l ∧ l ≠ d.target (p.layout.modDir.join p.manifest.poster) := by
      decide +kernel
    exact .of_not_below (hall l hl).1 (hall l hl).2
  have hplace : (p.layout.scopeDir .shared).join "L.lua" = ⟨"/p/dist/M/media/lua/shared/L.lua"⟩ := by
    decide +kernel
  obtain ⟨hok, hstaysLoose, hstaysLibrary⟩ : (b.build ⟨d, []⟩).1.toBool = true ∧
      p.Stays p.runtimeLibraries [⟨"shared/Main.lua", "return 1"⟩] (b.build ⟨d, []⟩).2.disk
        ⟨"/p/dist/M/media/lua/client/Main.lua"⟩ ∧
      p.Stays [⟨"/p/old/L.lua"⟩] [⟨"shared/Main.lua", "return 1"⟩] (b.build ⟨d, []⟩).2.disk
        ⟨"/p/dist/M/media/lua/shared/L.lua"⟩ := by decide +kernel
  obtain ⟨r, s', hbuild⟩ := exists_run_ok hok
  obtain rfl : (b.build ⟨d, []⟩).2 = s' := congrArg Prod.snd hbuild
  refine ⟨htree, hnamed, hquiet, r, _, hbuild, ?_⟩
  obtain ⟨p', found, units, hp, -, hunits, hloose, hlibrary, -⟩ := build_delivers htree hnamed hquiet hbuild
  cases hload.symm.trans hp
  cases hunits
  refine ⟨?_, ?_⟩
  · refine hloose .client (by decide) (by decide +kernel) ⟨"/p/src/client/Main.lua"⟩
      ⟨"/p/dist/M/media/lua/client/Main.lua"⟩ _ ⟨⟨["Main.lua"], ?_⟩, ?_⟩ ?_
      (hleaves _ List.mem_cons_self) hstaysLoose
    · decide +kernel
    · decide +kernel
    · rw [Disk.read_eq_ok_iff]
      decide +kernel
  · rw [← hplace] at hstaysLibrary ⊢
    refine hlibrary [] ⟨"/p/lib/L.lua"⟩ [⟨"/p/old/L.lua"⟩] (by decide +kernel) "L.lua" _
      (by decide +kernel) ?_ (hleaves _ (List.mem_cons_of_mem _ List.mem_cons_self)) hstaysLibrary
    rw [Disk.read_eq_ok_iff]
    decide +kernel

/-- A unit goes to the place of a loose file, a library to that of another one, and the second of two
libraries to that of the first. Each time what comes later stays. -/
theorem build_overwrites_copies :
    let d : Disk :=
      { entries := [(["p"], .folder), (["p", "src"], .folder), (["p", "src", "client"], .folder),
          (["p", "src", "client", "Main.lua"], .file "return 0".toUTF8),
          (["p", "src", "shared"], .folder), (["p", "src", "shared", "L.lua"], .file "C".toUTF8),
          (["p", "A"], .folder), (["p", "A", "L.lua"], .file "A".toUTF8),
          (["p", "B"], .folder), (["p", "B", "L.lua"], .file "B".toUTF8),
          (["p", "mod.info"], .file "id=M\nname=N\nposter=p.png\ndescription=D".toUTF8),
          (["p", "pipewrench.json"], .file
            "\x7b\"runtimeLibraries\": [\"A/L.lua\", \"B/L.lua\"]\x7d".toUTF8)] }
    let p : Project :=
      ⟨⟨"/p"⟩, { id := "M", name := "N", poster := "p.png", description := "D" },
        { runtimeLibraries := ["A/L.lua", "B/L.lua"] }⟩
    let b : Builder := ⟨p.root, ⟨fun _ => pure [⟨"client/Main.lua", "return 1"⟩], fun _ => pure ""⟩, {}⟩
    let main : Location := ["p", "dist", "M", "media", "lua", "client", "Main.lua"]
    let library : Location := ["p", "dist", "M", "media", "lua", "shared", "L.lua"]
    d.IsTree ∧ d.Named ∧ b.compiler.Quiet ∧ Project.load d p.root = .ok p ∧
      (MirroredFolder.ofScope p .client).Brings p.layout ⟨"/p/src/client/Main.lua"⟩
        ⟨"/p/dist/M/media/lua/client/Main.lua"⟩ ∧
      (b.build ⟨d, []⟩).1.toBool = true ∧
      (b.build ⟨d, []⟩).2.disk.get? main = some (.file "return 1".toUTF8) ∧
      (b.build ⟨d, []⟩).2.disk.get? library = some (.file "B".toUTF8) ∧
      ∀ x ∈ [(["p", "src", "client", "Main.lua"], main), (["p", "src", "shared", "L.lua"], library),
        (["p", "A", "L.lua"], library)], (b.build ⟨d, []⟩).2.disk.get? x.2 ≠ d.get? x.1 := by
  intro d p b main library
  have htree : d.IsTree := by decide +kernel
  have hnamed : d.Named := by decide +kernel
  have hload : Project.load d p.root = .ok p := eq_ok_of_toOption (by decide +kernel)
  have hbrings : (MirroredFolder.ofScope p .client).Brings p.layout ⟨"/p/src/client/Main.lua"⟩
      ⟨"/p/dist/M/media/lua/client/Main.lua"⟩ := by
    refine ⟨⟨["Main.lua"], ?_⟩, ?_⟩
    · decide +kernel
    · decide +kernel
  refine ⟨htree, hnamed, fun _ _ => rfl, hload, hbrings, ?_⟩
  decide +kernel

end Builder

end ModBuild
