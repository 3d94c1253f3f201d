import ModBuild.Proofs.Pass.Build
import ModBuild.Proofs.Pass.Calls
import ModBuild.Proofs.Pass.Marker

/-!
# A pass that failed

Once the files are copied, a compiler that leaves the disk alone finds the markers on it and nothing
else. They are gone when it has answered, so a pass whose compiler fails or whose units collide leaves
the disk as the copies left it.
-/

namespace ModBuild

set_option autoImplicit false

open Disk (IsTree)

/-- The compiler leaves the disk alone. -/
def Compiler.Quiet (c : Compiler) : Prop := ∀ request d, (c.compile request d).2 = d

namespace Builder

variable {b : Builder} {p : Project} {s : Session} {f : Failure}

theorem isTree_copyAll (p : Project) (h : s.disk.IsTree) : (copyAll p s).2.disk.IsTree :=
  (composed_copyAll p).respects (R := Keeps IsTree)
    (fun _ hc => hc.respects Change.isTree_makeFolder Change.isTree_write) s h

/-- What a pass does once its files are copied. -/
def finish (b : Builder) (p : Project) (copied : Nat × List Diagnostic) : Task Failure PassReport := do
  let warnings := p.manifest.lint p.manifestPath.text ++ copied.2
  let r : PassReport := { copied := copied.1, report := { diagnostics := warnings } }
  let r ← emit p r (← b.compile p)
  Task.record (.report r.report)
  let r := { r with elapsed := b.elapsed }
  Task.status .compiler .success r.summary
  return r

theorem build_of_load_error (h : Project.load s.disk b.root = .error f) : b.build s = (.error f, s) := by
  unfold build
  rw [run_bind, Task.look_apply, h]

theorem build_of_load (h : Project.load s.disk b.root = .ok p) :
    ∃ s₀ : Session, s₀.disk = s.disk ∧ s₀.calls = s.calls ∧
      b.build s = (copyAll p >>= b.finish p) s₀ := by
  refine ⟨{ s with journal := s.journal ++ [.status .compiler .success "Compiling project.."] }, rfl, ?_, ?_⟩
  · simp [Session.calls]
  · unfold build
    rw [run_bind, Task.look_apply, h]
    dsimp only
    rw [run_bind, Task.status, Task.record_apply]
    rfl

/-- The compiler was called, or a marker could not be placed and nothing happened. -/
theorem compile_cases (p : Project) (htree : s.disk.IsTree) (hquiet : b.compiler.Quiet) :
    (∃ e, b.compile p s = (.error e, s)) ∨
      ∃ found t, t.disk = s.disk ∧ t.calls = s.calls ++ [(request p false, found)] ∧
        b.compile p s =
          (((b.compiler.compile (request p false) found).1).mapError (Failure.pass ∘ .compiler), t) := by
  unfold compile
  rw [run_bind, Task.change_apply]
  rcases EntryMarker.place_cases p.srcDir htree with ⟨path, fault, hplace⟩ | ⟨ps, hserves, hplace⟩
  · rw [hplace]
    exact Or.inl ⟨_, rfl⟩
  · let found := EntryMarker.placed s.disk ps
    refine Or.inr ⟨found, { s with journal := s.journal ++ [.called (request p false) found] }, rfl, ?_, ?_⟩
    · simp [Session.calls]
    rw [hplace]
    dsimp only [Except.mapError]
    rw [run_bind, Task.disk_apply]
    dsimp only
    rw [run_bind, Task.record_apply]
    dsimp only
    rw [run_bind, Task.result_apply, hquiet]
    dsimp only
    rw [run_bind, Task.change_apply, EntryMarker.lift_placed hserves.fit htree]
    dsimp only [Except.mapError]
    cases (b.compiler.compile (request p false) found).1 <;> rfl

theorem emit_of_collision {units : List CompiledUnit} {c : Collision}
    (h : Collision.find? p.layout units = some c) (r : PassReport) (s : Session) :
    ∃ t : Session, t.disk = s.disk ∧
      emit p r units s = (.error (.emission p.layout.modDir (.collision c)), t) := by
  have hemit : (emission p).emit units s.disk = (.error (.collision c), s.disk) := by
    have hfind : Collision.find? (emission p).layout units = some c := h
    unfold Emission.emit Emission.emitScheduled
    rw [hfind]
    rfl
  unfold emit
  rw [run_bind, Task.result_apply, hemit]
  let told := r.report.add (EmissionError.collision c).diagnostic?.toList
  exact ⟨{ s with journal := s.journal ++ [.report told] }, rfl, rfl⟩

/-- A run fails and leaves the disk `d` when the compiler, which has found `found`, fails or answers
with units that collide. -/
structure Aborts (b : Builder) (p : Project) (found d : Disk) (run : Except Failure PassReport × Session) :
    Prop where
  failed : ∀ e, (b.compiler.compile (request p false) found).1 = .error e →
    run.1 = .error (.pass (.compiler e)) ∧ run.2.disk = d
  collided : ∀ units c, (b.compiler.compile (request p false) found).1 = .ok units →
    Collision.find? p.layout units = some c →
      run.1 = .error (.emission p.layout.modDir (.collision c)) ∧ run.2.disk = d

theorem finish_cases (p : Project) (copied : Nat × List Diagnostic) (htree : s.disk.IsTree)
    (hquiet : b.compiler.Quiet) :
    (∃ e, b.finish p copied s = (.error e, s)) ∨
      ∃ found, (b.finish p copied s).2.calls = s.calls ++ [(request p false, found)] ∧
        b.Aborts p found s.disk (b.finish p copied s) := by
  unfold finish
  dsimp only
  rw [run_bind]
  rcases compile_cases p htree hquiet with ⟨e, hcompile⟩ | ⟨found, t, hdisk, hcalls, hcompile⟩
  · rw [hcompile]
    exact Or.inl ⟨e, rfl⟩
  · refine Or.inr ⟨found, ?_⟩
    rw [hcompile, ← hcalls]
    cases hanswer : (b.compiler.compile (request p false) found).1 with
    | error e =>
      refine ⟨rfl, fun e' he' => ?_, fun units c hunits => ?_⟩
      · rw [hanswer] at he'
        cases he'
        exact ⟨rfl, hdisk⟩
      · rw [hanswer] at hunits
        cases hunits
    | ok units =>
      refine ⟨?_, fun e he => ?_, fun units' c hunits hc => ?_⟩
      · refine ((calls_emit p _ units).bind_after fun r => ?_).calls_eq t
        exact (Task.calls_report _).bind_after fun _ => (Task.calls_status _ _ _).bind_after
          fun _ => Task.calls_pure _
      · rw [hanswer] at he
        cases he
      · rw [hanswer] at hunits
        cases hunits
        obtain ⟨t', hsame, hemit⟩ := emit_of_collision hc
          { copied := copied.1
            report := { diagnostics := p.manifest.lint p.manifestPath.text ++ copied.2 } } t
        dsimp only [Except.mapError]
        rw [run_bind, hemit]
        exact ⟨rfl, hsame.trans hdisk⟩

/-- When the project cannot be loaded nothing happens. When the compiler is called and fails, or its
units collide, the pass leaves exactly what the four copies leave that are run on the disk it found. -/
theorem build_failure_leaves_copies (htree : s.disk.IsTree) (hquiet : b.compiler.Quiet) :
    (∀ f, Project.load s.disk b.root = .error f → b.build s = (.error f, s)) ∧
      ∀ p, Project.load s.disk b.root = .ok p → (b.build s).2.calls ≠ s.calls →
        ∃ found s₁ loose s₂ assets s₃ missing s₄,
          (b.build s).2.calls = s.calls ++ [(request p false, found)] ∧
          Assets.copyManifest p s = (.ok (), s₁) ∧ Assets.copyScopeFiles p s₁ = (.ok loose, s₂) ∧
          Assets.copyAssetDirs p s₂ = (.ok assets, s₃) ∧
          Assets.copyRuntimeLibraries p s₃ = (.ok missing, s₄) ∧
          b.Aborts p found s₄.disk (b.build s) := by
  refine ⟨fun f => build_of_load_error, fun p hload hcalled => ?_⟩
  obtain ⟨s₀, hdisk, hcalls, hbuild⟩ := build_of_load hload
  obtain ⟨hresult, hsame⟩ := (composed_copyAll p).eq_of_disk_eq hdisk
  have htree₁ := isTree_copyAll p (hdisk.symm ▸ htree)
  have hcalls₁ := (calls_copyAll p).calls_eq s₀
  rw [hbuild, run_bind, ← hcalls] at hcalled
  rw [hbuild, run_bind, ← hcalls]
  rcases hcopy : copyAll p s₀ with ⟨f | copied, t⟩
  all_goals rw [hcopy] at hcalled hresult hsame htree₁ hcalls₁
  · exact absurd hcalls₁ hcalled
  · dsimp only at hcalled ⊢
    rcases finish_cases p copied htree₁ hquiet with ⟨e, hfinish⟩ | ⟨found, hfound, haborts⟩
    · rw [hfinish] at hcalled
      exact absurd hcalls₁ hcalled
    · have hcopied : copyAll p s = (.ok copied, (copyAll p s).2) := Prod.ext hresult.symm rfl
      obtain ⟨s₁, loose, s₂, assets, s₃, missing, hmanifest, hscopes, hassets, hlibraries, -⟩ :=
        copyAll_ok_iff.mp hcopied
      refine ⟨found, s₁, loose, s₂, assets, s₃, missing, _, ?_, hmanifest, hscopes, hassets, hlibraries,
        hsame ▸ haborts⟩
      rw [hfound, hcalls₁]

/-- Two units for one place. The user has a source with the name of a marker, which stays; the marker
in the other folder is gone. -/
theorem build_failure_leaves_copies_collided :
    let d : Disk :=
      { entries := [(["p"], .folder), (["p", "src"], .folder), (["p", "src", "client"], .folder),
          (["p", "src", "client", "_.ts"], .file "let x".toUTF8), (["p", "src", "shared"], .folder),
          (["p", "src", "shared", "a.txt"], .file "a".toUTF8),
          (["p", "mod.info"], .file "id=M\nname=N\nposter=p.png\ndescription=D".toUTF8)] }
    let p : Project :=
      ⟨⟨"/p"⟩, { id := "M", name := "N", poster := "p.png", description := "D" }, {}⟩
    let units : List CompiledUnit := [⟨"shared/a.lua", "return 1"⟩, ⟨"node_modules/a.lua", "return 2"⟩]
    let b : Builder := ⟨p.root, ⟨fun _ => pure units, fun _ => pure ""⟩, {}⟩
    d.IsTree ∧ b.compiler.Quiet ∧ Project.load d p.root = .ok p ∧
      (b.build ⟨d, []⟩).2.calls ≠ Session.calls ⟨d, []⟩ ∧
      ∃ c s₁ loose s₂ assets s₃ missing s₄, Assets.copyManifest p ⟨d, []⟩ = (.ok (), s₁) ∧
        Assets.copyScopeFiles p s₁ = (.ok loose, s₂) ∧ Assets.copyAssetDirs p s₂ = (.ok assets, s₃) ∧
        Assets.copyRuntimeLibraries p s₃ = (.ok missing, s₄) ∧
        (b.build ⟨d, []⟩).1 = .error (.emission ⟨"/p/dist/M"⟩ (.collision c)) ∧
        (b.build ⟨d, []⟩).2.disk = s₄.disk := by
  intro d p units b
  have htree : d.IsTree := by decide +kernel
  have hquiet : b.compiler.Quiet := fun _ _ => rfl
  have hload : Project.load d p.root = .ok p := eq_ok_of_toOption (by decide +kernel)
  have hcalled : (b.build ⟨d, []⟩).2.calls ≠ Session.calls ⟨d, []⟩ := by decide +kernel
  have hcollides : (Collision.find? p.layout units).isSome = true := by decide +kernel
  obtain ⟨c, hc⟩ := Option.isSome_iff_exists.mp hcollides
  have hdir : p.layout.modDir = ⟨"/p/dist/M"⟩ := by decide +kernel
  obtain ⟨-, hcopies⟩ := build_failure_leaves_copies (b := b) (s := ⟨d, []⟩) htree hquiet
  obtain ⟨found, s₁, loose, s₂, assets, s₃, missing, s₄, -, hmanifest, hscopes, hassets, hlibraries,
    haborts⟩ := hcopies p hload hcalled
  obtain ⟨hresult, hdisk⟩ := haborts.collided units c rfl hc
  exact ⟨htree, hquiet, hload, hcalled, c, s₁, loose, s₂, assets, s₃, missing, s₄, hmanifest, hscopes,
    hassets, hlibraries, hdir ▸ hresult, hdisk⟩

end Builder

end ModBuild
