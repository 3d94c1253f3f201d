import ModBuild.Pass.Build
import ModBuild.Proofs.Emission.Batch
import ModBuild.Proofs.Session.Calls

/-!
# A pass that succeeded

A pass that succeeded has loaded the project, copied its files, got units from the compiler and
emitted them, one after the other. What it writes last are the units, so it leaves each of them in
its place.
-/

namespace ModBuild

set_option autoImplicit false

open SlashPath

namespace Emission

theorem read_of_emit {e : Emission} {u : CompiledUnit} {units : List CompiledUnit}
    {outcomes : List Outcome} {d d' : Disk} (h : e.emit units d = (.ok outcomes, d'))
    (hdots : ∀ u ∈ units, ".." ∉ segments (normalize u.path)) (hu : u ∈ units) (hkept : u.Kept)
    (hrule : (e.place u).rule ≠ .bundle) :
    d'.read (e.place u).path = .ok (e.transform u).text.toUTF8 := by
  obtain ⟨hcollision, hrun, -⟩ := emitScheduled_ok_iff.mp h
  obtain ⟨v, hv, hvkept, hsame, hread⟩ := exists_read_of_schedule hrun hu hkept
  rw [eq_of_target_eq hcollision hu hv hkept hvkept hrule hdots hsame] at hread
  exact hread

end Emission

namespace Builder

variable {b : Builder} {p : Project} {s s' : Session} {r r' : PassReport}
  {units : List CompiledUnit}

theorem copyAll_ok_iff {copied : Nat × List Diagnostic} : copyAll p s = (.ok copied, s') ↔
    ∃ s₁ loose s₂ assets s₃ missing, Assets.copyManifest p s = (.ok (), s₁) ∧
      Assets.copyScopeFiles p s₁ = (.ok loose, s₂) ∧ Assets.copyAssetDirs p s₂ = (.ok assets, s₃) ∧
      Assets.copyRuntimeLibraries p s₃ = (.ok missing, s') ∧ copied = (loose + assets, missing) := by
  constructor
  · intro h
    obtain ⟨_, s₁, hmanifest, h⟩ := run_bind_ok_iff.mp h
    obtain ⟨loose, s₂, hscopes, h⟩ := run_bind_ok_iff.mp h
    obtain ⟨assets, s₃, hassets, h⟩ := run_bind_ok_iff.mp h
    obtain ⟨missing, s₄, hlibraries, hreturn⟩ := run_bind_ok_iff.mp h
    cases hreturn
    exact ⟨s₁, loose, s₂, assets, s₃, missing, hmanifest, hscopes, hassets, hlibraries, rfl⟩
  · rintro ⟨s₁, loose, s₂, assets, s₃, missing, hmanifest, hscopes, hassets, hlibraries, rfl⟩
    refine run_bind_ok_iff.mpr ⟨_, s₁, hmanifest, ?_⟩
    refine run_bind_ok_iff.mpr ⟨loose, s₂, hscopes, ?_⟩
    refine run_bind_ok_iff.mpr ⟨assets, s₃, hassets, ?_⟩
    exact run_bind_ok_iff.mpr ⟨missing, s', hlibraries, rfl⟩

theorem emit_ok (h : emit p r units s = (.ok r', s')) :
    ∃ outcomes, (emission p).emit units s.disk = (.ok outcomes, s'.disk) ∧
      r' = r.record units outcomes := by
  obtain ⟨answer, s₁, hresult, hrest⟩ := run_bind_ok_iff.mp h
  rw [Task.result_apply] at hresult
  rcases hemit : (emission p).emit units s.disk with ⟨e | outcomes, d⟩
  · rw [hemit] at hresult
    cases hresult
    cases hrest
  · rw [hemit] at hresult
    cases hresult
    cases hrest
    exact ⟨outcomes, rfl, rfl⟩

theorem yields_compile (h : ∀ request, b.compiler.compile request = pure units) (p : Project) :
    Yields (· = units) (b.compile p) := by
  have hanswer : Yields (· = .ok units)
      (Task.result (b.compiler.compile (request p false)) :
        Task Failure (Except CompilerError (List CompiledUnit))) := by
    rw [h]
    intro s answer s' hrun
    cases hrun
    rfl
  refine yields_bind fun markers => yields_bind fun found => yields_bind fun _ =>
    hanswer.bind ?_
  rintro answer rfl
  exact yields_bind fun _ => yields_pure rfl

theorem build_ok (h : b.build s = (.ok r, s')) :
    ∃ p copied missing units outcomes s₁ s₂ s₃,
      Project.load s.disk b.root = .ok p ∧ s₁.disk = s.disk ∧
        copyAll p s₁ = (.ok (copied, missing), s₂) ∧ b.compile p s₂ = (.ok units, s₃) ∧
        (emission p).emit units s₃.disk = (.ok outcomes, s'.disk) ∧
        r = { PassReport.record
                { copied := copied
                  report := { diagnostics := p.manifest.lint p.manifestPath.text ++ missing } }
                units outcomes with elapsed := b.elapsed } := by
  obtain ⟨p, s₀, hlook, h⟩ := run_bind_ok_iff.mp h
  rw [Task.look_apply] at hlook
  obtain ⟨hload, rfl⟩ := Prod.mk.inj hlook
  obtain ⟨_, s₁, hstatus, h⟩ := run_bind_ok_iff.mp h
  obtain ⟨⟨copied, missing⟩, s₂, hcopy, h⟩ := run_bind_ok_iff.mp h
  obtain ⟨units, s₃, hcompile, h⟩ := run_bind_ok_iff.mp h
  obtain ⟨r₁, s₄, hemit, h⟩ := run_bind_ok_iff.mp h
  obtain ⟨_, s₅, hreport, h⟩ := run_bind_ok_iff.mp h
  obtain ⟨_, s₆, htold, hpure⟩ := run_bind_ok_iff.mp h
  obtain ⟨outcomes, hrun, rfl⟩ := emit_ok hemit
  have hsame : s₁.disk = s.disk := by
    cases hstatus
    rfl
  cases hreport
  cases htold
  cases hpure
  exact ⟨p, copied, missing, units, outcomes, s₁, s₂, s₃, hload, hsame, hcopy, hcompile, hrun, rfl⟩

end Builder

end ModBuild
