import ModBuild.Proofs.Pass.Output
import ModBuild.Proofs.Pass.Quoting

/-!
# What a report accounts for

The report of a pass that succeeded counts every unit as written or skipped. Its diagnostics are all
warnings: those about the manifest, those about runtime libraries that are missing, and those about
the units in the order of the batch (`build_accounts`).
-/

namespace ModBuild

set_option autoImplicit false

variable {e : Emission} {u : CompiledUnit} {units : List CompiledUnit} {ws ws' : List Diagnostic}
  {outcomes : List Outcome} {rule : Rule} {p : Project} {s s' : Session}

namespace Report

variable {r : Report} (h : ∀ w ∈ r.diagnostics, w.severity = .warning)
include h

theorem errorCount_eq_zero : r.errorCount = 0 := by
  rw [errorCount, count, List.length_eq_zero_iff, List.filter_eq_nil_iff]
  intro w hw
  rw [h w hw]
  decide

theorem warningCount_eq_length : r.warningCount = r.diagnostics.length := by
  rw [warningCount, count, List.filter_eq_self.mpr]
  intro w hw
  exact decide_eq_true (h w hw)

end Report

theorem PassReport.written_add_skipped_record (r : PassReport) :
    (r.record units outcomes).written + (r.record units outcomes).skipped =
      r.written + r.skipped + outcomes.length := by
  have hsplit := outcomes.length_eq_length_filter_add Outcome.isWritten
  simp only [record]
  omega

/-- The warnings about a unit that is placed by a rule. -/
inductive CompiledUnit.Warns (rule : Rule) (u : CompiledUnit) : List Diagnostic → Prop
  | silent : u.skip?.isSome = true ∨ rule = .bundle → Warns rule u []
  | spoken {ps : List Piece} {crossing : List Diagnostic} : u.skip? = none → rule ≠ .bundle →
      Piece.Factors ps u.text.toList →
      List.Forall₂ (Reference.Reports u.scope u.text u.path) (Reference.crossings u.scope 0 ps)
        crossing →
      Warns rule u ((if rule = .unscoped then [u.unloadableWarning] else []) ++ crossing)

theorem Reference.severity_of_reports {owner : Scope} {text file : String}
    {cs : List (Nat × List Char)} (h : List.Forall₂ (Reports owner text file) cs ws) :
    ∀ w ∈ ws, w.severity = .warning := by
  induction h with
  | nil => exact List.forall_mem_nil _
  | cons hw _ ih =>
    refine List.forall_mem_cons.mpr ⟨?_, ih⟩
    rw [hw.warning]
    rfl

theorem CompiledUnit.Warns.severity (h : u.Warns rule ws) : ∀ w ∈ ws, w.severity = .warning := by
  cases h with
  | silent _ => exact List.forall_mem_nil _
  | spoken _ _ _ hcrossing =>
    refine List.forall_mem_append.mpr ⟨fun w hw => ?_, Reference.severity_of_reports hcrossing⟩
    split at hw
    · rw [List.mem_singleton.mp hw]
      rfl
    · cases hw

theorem Emission.warns_outcome (e : Emission) (u : CompiledUnit) :
    u.Warns (e.place u).rule (e.outcome u).diagnostics := by
  unfold outcome
  cases hskip : u.skip? with
  | some reason => exact .silent (Or.inl (by rw [hskip]; rfl))
  | none =>
    change u.Warns _ (u.transform (e.place u).rule e.template).diagnostics
    unfold CompiledUnit.transform
    split
    · next hbundle => exact .silent (Or.inr hbundle)
    · next hbundle =>
      have hcrossing := Reference.forall₂_diagnostics u.scope u.text u.path
      exact .spoken hskip hbundle (Piece.factors_pieces _) (hcrossing.imp fun _ _ h => h.reports)

namespace Assets

variable {shared library : FilePath} {libraries : List FilePath}

/-- The warning about a library that has a name and is no file. -/
def missing? (d : Disk) (library : FilePath) : Option Diagnostic :=
  if library.fileName?.isSome ∧ d.isFile library = false then some (missingLibraryWarning library)
  else none

/-- Each library with the disk that it finds when its turn comes. -/
def libraryTurns (shared : FilePath) : List FilePath → Disk → List (FilePath × Disk)
  | [], _ => []
  | library :: libraries, d =>
    (library, d) :: libraryTurns shared libraries (copyLibrary shared library ⟨d, []⟩).2.disk

/-- The warnings about the libraries of a project, the first of which finds the disk `d`. -/
def missingLibraries (p : Project) (d : Disk) : List Diagnostic :=
  (libraryTurns (p.layout.scopeDir .shared) p.runtimeLibraries d).filterMap fun x => missing? x.2 x.1

theorem eq_missing?_of_copyLibrary_ok (h : copyLibrary shared library s = (.ok ws, s')) :
    ws = (missing? s.disk library).toList := by
  unfold copyLibrary at h
  unfold missing?
  cases hname : library.fileName? with
  | none =>
    rw [hname] at h
    cases h
    rfl
  | some name =>
    rw [hname] at h
    dsimp only at h
    rw [run_bind, Task.disk_apply] at h
    dsimp only at h
    split at h
    · next hfile =>
      obtain ⟨_, s₁, -, hreturn⟩ := run_bind_ok_iff.mp h
      cases hreturn
      simp [hfile]
    · next hfile =>
      cases h
      simp [hfile]

/-- The induction is on the libraries that are left, each of which finds what those before it have
copied. -/
theorem eq_missing?_of_copyLibraries_ok (h : copyLibraries shared libraries ws s = (.ok ws', s')) :
    ws' = ws ++ (libraryTurns shared libraries s.disk).filterMap fun x => missing? x.2 x.1 := by
  induction libraries generalizing ws s with
  | nil =>
    cases h
    exact (List.append_nil _).symm
  | cons library libraries ih =>
    unfold copyLibraries at h
    rw [List.foldlM_cons, run_bind_ok_iff] at h
    obtain ⟨ws₁, s₁, hfirst, hrest⟩ := h
    obtain ⟨found, s₂, hcopy, hreturn⟩ := run_bind_ok_iff.mp hfirst
    cases hreturn
    have hdisk : (copyLibrary shared library ⟨s.disk, []⟩).2.disk = s₁.disk := by
      have hsame := (composed_copyLibrary shared library).eq_of_disk_eq
        (s := ⟨s.disk, []⟩) (t := s) rfl
      rw [hsame.2, hcopy]
    rw [ih hrest, eq_missing?_of_copyLibrary_ok hcopy, libraryTurns, hdisk, List.filterMap_cons]
    cases missing? s.disk library with
    | none => simp
    | some w => simp

theorem eq_missingLibraries_of_ok (h : copyRuntimeLibraries p s = (.ok ws, s')) :
    ws = missingLibraries p s.disk := eq_missing?_of_copyLibraries_ok h

theorem severity_of_missingLibraries (p : Project) (d : Disk) :
    ∀ w ∈ missingLibraries p d, w.severity = .warning := by
  intro w hw
  obtain ⟨x, -, hx⟩ := List.mem_filterMap.mp hw
  unfold missing? at hx
  split at hx
  · cases hx
    rfl
  · cases hx

end Assets

theorem Manifest.severity_of_lint (m : Manifest) (file : String) :
    ∀ w ∈ m.lint file, w.severity = .warning := by
  intro w hw
  obtain ⟨x, -, hx⟩ := List.mem_filterMap.mp hw
  obtain ⟨known, -, rfl⟩ := Option.map_eq_some_iff.mp hx
  rfl

namespace Builder

open ModBuild.Task (Composed)

variable {b : Builder} {r : PassReport} {copied : Nat × List Diagnostic}

/-- The copies before the turn of the first library, with the number of files. -/
def copyFirst (p : Project) : Task Failure Nat := do
  Assets.copyManifest p
  let loose ← Assets.copyScopeFiles p
  let assets ← Assets.copyAssetDirs p
  return loose + assets

theorem composed_copyFirst (p : Project) : Composed Change.IsCopy (copyFirst p) :=
  (Assets.composed_copyManifest p).bind fun _ => (Assets.composed_copyScopeFiles p).bind fun _ =>
    (Assets.composed_copyAssetDirs p).bind fun _ => .pure _

theorem copyAll_warns (h : copyAll p s = (.ok copied, s')) :
    ∃ t, copyFirst p s = (.ok copied.1, t) ∧ copied.2 = Assets.missingLibraries p t.disk := by
  obtain ⟨s₁, loose, s₂, assets, s₃, missing, hmanifest, hscopes, hassets, hlibraries, rfl⟩ :=
    copyAll_ok_iff.mp h
  refine ⟨s₃, ?_, Assets.eq_missingLibraries_of_ok hlibraries⟩
  exact run_bind_ok_iff.mpr ⟨_, s₁, hmanifest, run_bind_ok_iff.mpr
    ⟨loose, s₂, hscopes, run_bind_ok_iff.mpr ⟨assets, s₃, hassets, rfl⟩⟩⟩

theorem compile_ok (h : b.compile p s = (.ok units, s')) :
    ∃ found, s'.calls = s.calls ++ [(request p false, found)] ∧
      (b.compiler.compile (request p false) found).1 = .ok units := by
  obtain ⟨markers, s₁, hplace, h⟩ := run_bind_ok_iff.mp h
  obtain ⟨found, s₂, hlook, h⟩ := run_bind_ok_iff.mp h
  rw [Task.disk_apply] at hlook
  cases hlook
  obtain ⟨_, s₃, hcalled, h⟩ := run_bind_ok_iff.mp h
  obtain ⟨answer, s₄, hrun, h⟩ := run_bind_ok_iff.mp h
  obtain ⟨_, s₅, hlift, hreturn⟩ := run_bind_ok_iff.mp h
  cases hcalled
  rw [Task.result_apply] at hrun
  obtain ⟨hanswer, rfl⟩ := Prod.mk.inj hrun
  have hcalls : s₅.calls = s.calls ++ [(request p false, s₁.disk)] := by
    rw [(Task.calls_change _ _).of_run hlift, ← (Task.calls_change _ _).of_run hplace]
    simp [Session.calls]
  cases answer with
  | error e => cases hreturn
  | ok units' =>
    cases hreturn
    exact ⟨s₁.disk, hcalls, Except.ok.inj hanswer⟩

/-- The number of units and the warnings of a pass. -/
structure Accounts (p : Project) (units : List CompiledUnit) (d : Disk) (r : PassReport) : Prop where
  counted : r.written + r.skipped = units.length
  harmless : r.report.errorCount = 0
  warned : r.report.warningCount = r.report.diagnostics.length
  diagnostics : ∃ told, List.Forall₂ (fun u => u.Warns (p.layout.place u.path).rule) units told ∧
    r.report.diagnostics =
      p.manifest.lint p.manifestPath.text ++ Assets.missingLibraries p d ++ told.flatten

theorem accounts_record {d d₁ d₂ : Disk} (hstart : r.written + r.skipped = 0)
    (hearly : r.report.diagnostics =
      p.manifest.lint p.manifestPath.text ++ Assets.missingLibraries p d)
    (h : (emission p).emit units d₁ = (.ok outcomes, d₂)) :
    Accounts p units d (r.record units outcomes) := by
  obtain ⟨-, -, rfl⟩ := Emission.emitScheduled_ok_iff.mp h
  let told := units.map fun u => ((emission p).outcome u).diagnostics
  have hwarns : List.Forall₂ (fun u => u.Warns (p.layout.place u.path).rule) units told :=
    List.forall₂_map_right_iff.mpr (List.forall₂_same.mpr fun u _ => (emission p).warns_outcome u)
  have hdiagnostics : (r.record units (units.map (emission p).outcome)).report.diagnostics =
      p.manifest.lint p.manifestPath.text ++ Assets.missingLibraries p d ++ told.flatten := by
    rw [r.diagnostics_record, hearly, List.flatMap_map]
    rfl
  have hseverity : ∀ w ∈ (r.record units (units.map (emission p).outcome)).report.diagnostics,
      w.severity = .warning := by
    rw [hdiagnostics]
    refine List.forall_mem_append.mpr ⟨List.forall_mem_append.mpr
      ⟨p.manifest.severity_of_lint _, Assets.severity_of_missingLibraries p d⟩, fun w hw => ?_⟩
    obtain ⟨u, -, hw⟩ := List.mem_flatMap.mp hw
    exact ((emission p).warns_outcome u).severity w hw
  refine ⟨?_, Report.errorCount_eq_zero hseverity, Report.warningCount_eq_length hseverity, told,
    hwarns, hdiagnostics⟩
  rw [PassReport.written_add_skipped_record, hstart, List.length_map, Nat.zero_add]

theorem finish_accounts {d : Disk} {n : Nat}
    (h : b.finish p (n, Assets.missingLibraries p d) s = (.ok r, s')) :
    ∃ found units, s'.calls = s.calls ++ [(request p false, found)] ∧
      (b.compiler.compile (request p false) found).1 = .ok units ∧ r.copied = n ∧
      Accounts p units d r := by
  obtain ⟨units, s₁, hcompile, h⟩ := run_bind_ok_iff.mp h
  obtain ⟨r₁, s₂, hemit, h⟩ := run_bind_ok_iff.mp h
  obtain ⟨_, s₃, hreport, h⟩ := run_bind_ok_iff.mp h
  obtain ⟨_, s₄, htold, hreturn⟩ := run_bind_ok_iff.mp h
  cases hreturn
  obtain ⟨found, hcalled, hanswer⟩ := compile_ok hcompile
  have hcalls : s'.calls = s₁.calls := by
    rw [(Task.calls_status _ _ _).of_run htold, (Task.calls_report _).of_run hreport,
      (calls_emit _ _ _).of_run hemit]
  obtain ⟨outcomes, hrun, rfl⟩ := emit_ok hemit
  let start : PassReport :=
    { copied := n
      report := { diagnostics := p.manifest.lint p.manifestPath.text ++ Assets.missingLibraries p d } }
  obtain ⟨hcounted, hharmless, hwarned, htold⟩ := accounts_record (r := start) rfl rfl hrun
  exact ⟨found, units, hcalls.trans hcalled, hanswer, rfl, hcounted, hharmless, hwarned, htold⟩

/-- A pass that succeeded has called the compiler once and accounts for all units of the answer. Its
warnings are about the manifest, the libraries and the units, in this order. -/
theorem build_accounts (h : b.build s = (.ok r, s')) :
    ∃ p found units t, Project.load s.disk b.root = .ok p ∧
      s'.calls = s.calls ++ [(request p false, found)] ∧
      (b.compiler.compile (request p false) found).1 = .ok units ∧
      copyFirst p s = (.ok r.copied, t) ∧ Accounts p units t.disk r := by
  cases hload : Project.load s.disk b.root with
  | error f =>
    rw [build_of_load_error hload] at h
    cases h
  | ok p =>
    obtain ⟨s₀, hdisk, hcalls, hbuild⟩ := build_of_load hload
    rw [hbuild] at h
    obtain ⟨⟨n, missing⟩, s₁, hcopy, hfinish⟩ := run_bind_ok_iff.mp h
    obtain ⟨t, hfirst, rfl⟩ := copyAll_warns hcopy
    obtain ⟨found, units, hcalled, hanswer, rfl, haccounts⟩ := finish_accounts hfinish
    obtain ⟨hresult, hsame⟩ := (composed_copyFirst p).eq_of_disk_eq hdisk
    rw [hfirst] at hresult hsame
    refine ⟨p, found, units, (copyFirst p s).2, rfl, ?_, hanswer, Prod.ext hresult.symm rfl,
      hsame ▸ haccounts⟩
    rw [hcalled, (calls_copyAll p).of_run hcopy, hcalls]

/-- Three libraries that are missing, a unit outside the scope folders, a client unit that calls for a
server module, an empty unit and a bundle. -/
theorem build_accounts_four_units :
    let d : Disk :=
      { entries := [(["p"], .folder),
          (["p", "mod.info"], .file "id=M\nname=N\nposter=p.png\ndescription=D".toUTF8)] }
    let units : List CompiledUnit := [⟨"index.lua", "require(\"server.b\")"⟩,
      ⟨"client/one.lua", "require(\"server.b\")"⟩, ⟨"shared/e.lua", ""⟩,
      ⟨"lualib_bundle.lua", "require(\"server.b\")"⟩]
    let b : Builder := ⟨⟨"/p"⟩, ⟨fun _ => pure units, fun _ => pure ""⟩, {}⟩
    ∃ r s', b.build ⟨d, []⟩ = (.ok r, s') ∧ r.written + r.skipped = 4 ∧ r.report.errorCount = 0 ∧
      r.report.warningCount = r.report.diagnostics.length ∧
      r.report.diagnostics.map (·.code) = ["W0302", "W0302", "W0302", "W0201", "W0101"] := by
  intro d units b
  have hcodes : (b.build ⟨d, []⟩).1.toOption.map (fun r => r.report.diagnostics.map (·.code)) =
      some ["W0302", "W0302", "W0302", "W0201", "W0101"] := by decide +kernel
  rcases hbuild : b.build ⟨d, []⟩ with ⟨e | r, s'⟩
  all_goals rw [hbuild] at hcodes
  · cases hcodes
  · obtain ⟨p, found, units', t, -, -, hunits, -, haccounts⟩ := build_accounts hbuild
    obtain rfl : units = units' := Except.ok.inj hunits
    exact ⟨r, s', rfl, haccounts.counted, haccounts.harmless, haccounts.warned,
      Option.some.inj hcodes⟩

end Builder

end ModBuild
