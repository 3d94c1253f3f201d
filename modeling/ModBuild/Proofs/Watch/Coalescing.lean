import ModBuild.Proofs.Pass.Build
import ModBuild.Proofs.Watch.Rebuild

/-!
# One rebuild for a batch

However many events of a batch ask for a rebuild, the compiler is called at most once, and only when
some event asks for it. The rebuild is the last thing that a batch does, so what the actions left at
the places of the units does not matter.
-/

namespace ModBuild.Watch

set_option autoImplicit false

open SlashPath

variable {b : Builder} {p : Project} {s s' : Session} {units : List CompiledUnit}

theorem calls_after_applyAll (actions : List Action) (s : Session) :
    (applyAll actions s).2.calls = s.calls := by
  obtain ⟨made, hcalls, hle, -⟩ := calls_applyAll actions s
  rw [hcalls, List.length_eq_zero_iff.mp (Nat.le_zero.mp hle), List.append_nil]

/-- What a batch does after its actions, seen from the session `s₁` in which they end. -/
theorem handle_cases (events : List FileEvent) (hload : Project.load s.disk b.root = .ok p) :
    (¬(∃ s₁, Carried (events.map (plan (.ofProject p))) s s₁) ∧
        (handle b events s).1.toBool = false ∧ (handle b events s).2.calls = s.calls) ∨
      ∃ s₁, Carried (events.map (plan (.ofProject p))) s s₁ ∧ s₁.calls = s.calls ∧
        handle b events s =
          if .rebuild ∈ events.map (plan (.ofProject p)) then (do let _ ← b.build) s₁
          else (.ok (), s₁) := by
  have hcalls := calls_after_applyAll (events.map (plan (.ofProject p))) s
  rw [handle_eq_handleWith, handleWith_apply _ hload]
  rcases hrun : applyAll (events.map (plan (.ofProject p))) s with ⟨f | flag, s₁⟩
  · rw [hrun] at hcalls
    exact Or.inl ⟨applyAll_error_iff.mp ⟨f, s₁, hrun⟩, rfl, hcalls⟩
  · rw [hrun] at hcalls
    obtain ⟨hcarried, rfl⟩ := applyAll_ok_iff.mp hrun
    refine Or.inr ⟨s₁, hcarried, hcalls, ?_⟩
    by_cases hrebuild : .rebuild ∈ events.map (plan (.ofProject p))
    · rw [if_pos hrebuild, decide_eq_true hrebuild]
    · rw [if_neg hrebuild, decide_eq_false hrebuild]

theorem read_of_build {r : PassReport} (h : b.build s = (.ok r, s'))
    (hcompiler : ∀ request, b.compiler.compile request = pure units)
    (hdots : ∀ u ∈ units, ".." ∉ segments (normalize u.path)) :
    ∃ p, Project.load s.disk b.root = .ok p ∧
      ∀ u ∈ units, u.Kept → ((Builder.emission p).place u).rule ≠ .bundle →
        s'.disk.read ((Builder.emission p).place u).path =
          .ok ((Builder.emission p).transform u).text.toUTF8 := by
  obtain ⟨p, -, -, compiled, outcomes, -, s₂, s₃, hload, -, -, hcompile, hemit, -⟩ :=
    Builder.build_ok h
  obtain rfl := Builder.yields_compile hcompiler p s₂ compiled s₃ hcompile
  exact ⟨p, hload, fun u hu hkept hrule => Emission.read_of_emit hemit hdots hu hkept hrule⟩

/-- A batch calls the compiler at most once, and not at all when nothing asks for a rebuild. When a
batch that asks for one succeeds, the compiler was called once, and every unit is in its place in
the end, whatever the other events did there. -/
theorem handle_coalesces (events : List FileEvent) (hload : Project.load s.disk b.root = .ok p)
    (hcompiler : ∀ request, b.compiler.compile request = pure units)
    (hdots : ∀ u ∈ units, ".." ∉ segments (normalize u.path)) :
    ∃ made, (handle b events s).2.calls = s.calls ++ made ∧ made.length ≤ 1 ∧
      (.rebuild ∉ events.map (plan (.ofProject p)) → made = []) ∧
      (.rebuild ∈ events.map (plan (.ofProject p)) → (handle b events s).1 = .ok () →
        made.length = 1 ∧
          ∃ s₁ p', Carried (events.map (plan (.ofProject p))) s s₁ ∧
            Project.load s₁.disk b.root = .ok p' ∧
            ∀ u ∈ units, u.Kept → ((Builder.emission p').place u).rule ≠ .bundle →
              (handle b events s).2.disk.read ((Builder.emission p').place u).path =
                .ok ((Builder.emission p').transform u).text.toUTF8) := by
  rcases handle_cases events hload with ⟨-, hfail, hcalls⟩ | ⟨s₁, hcarried, hcalls, hrun⟩
  · refine ⟨[], hcalls.trans (List.append_nil _).symm, Nat.zero_le 1, fun _ => rfl, ?_⟩
    intro _ hok
    rw [hok] at hfail
    cases hfail
  by_cases hrebuild : .rebuild ∈ events.map (plan (.ofProject p))
  · rw [if_pos hrebuild] at hrun
    obtain ⟨made, hmade, hle, hlength⟩ :=
      (Builder.calls_build b).bind_before (fun _ => Task.calls_pure ()) s₁
    rw [hrun]
    refine ⟨made, hcalls ▸ hmade, hle, fun hnone => absurd hrebuild hnone, fun _ hok => ?_⟩
    rcases hend : (do let _ ← b.build : Task Failure Unit) s₁ with ⟨result, s'⟩
    rw [hend] at hok hlength
    obtain rfl : result = .ok () := hok
    obtain ⟨r, s₂, hbuild, hpure⟩ := run_bind_ok_iff.mp hend
    cases hpure
    obtain ⟨p', hload', hread⟩ := read_of_build hbuild hcompiler hdots
    exact ⟨hlength rfl, s₁, p', hcarried, hload', hread⟩
  · rw [if_neg hrebuild] at hrun
    rw [hrun]
    exact ⟨[], hcalls.trans (List.append_nil _).symm, Nat.zero_le 1, fun _ => rfl,
      fun h => absurd h hrebuild⟩

/-- A loose file is copied to the place of a unit between two changes of its source. -/
theorem handle_coalesces_loose_file :
    let d : Disk :=
      { entries := [(["p"], .folder), (["p", "src"], .folder), (["p", "src", "client"], .folder),
          (["p", "src", "client", "Main.lua"], .file "return 0".toUTF8),
          (["p", "mod.info"], .file "id=M\nname=N\nposter=p.png\ndescription=D".toUTF8)] }
    let p : Project :=
      ⟨⟨"/p"⟩, { id := "M", name := "N", poster := "p.png", description := "D" }, {}⟩
    let b : Builder :=
      ⟨p.root, ⟨fun _ => pure [⟨"client/Main.lua", "return 1"⟩], fun _ => pure ""⟩, {}⟩
    let events : List FileEvent :=
      [.changed ⟨"/p/src/client/Main.ts"⟩, .added ⟨"/p/src/client/Main.lua"⟩,
        .changed ⟨"/p/src/client/Main.ts"⟩]
    Project.load d p.root = .ok p ∧ (handle b events ⟨d, []⟩).2.calls.length = 1 ∧
      (handle b events ⟨d, []⟩).2.disk.read ⟨"/p/dist/M/media/lua/client/Main.lua"⟩ =
        .ok "return 1".toUTF8 := by
  intro d p b events
  have hload : Project.load d p.root = .ok p := eq_ok_of_toOption (by decide +kernel)
  have hcompiler : ∀ request, b.compiler.compile request = pure [⟨"client/Main.lua", "return 1"⟩] :=
    fun _ => rfl
  have hok : (handle b events ⟨d, []⟩).1 = .ok () := eq_ok_of_toOption (by decide +kernel)
  have hreload :
      Project.load (applyAll (events.map (plan (.ofProject p))) ⟨d, []⟩).2.disk b.root = .ok p :=
    eq_ok_of_toOption (by decide +kernel)
  obtain ⟨made, hcalls, -, -, hrebuilt⟩ :=
    handle_coalesces (b := b) (s := ⟨d, []⟩) events hload hcompiler (by decide +kernel)
  obtain ⟨hlength, s₁, p', hcarried, hload', hread⟩ := hrebuilt (by decide +kernel) hok
  obtain rfl := hcarried.applyAll_snd
  obtain rfl : p = p' := Except.ok.inj (hreload.symm.trans hload')
  have hplace : ((Builder.emission p).place ⟨"client/Main.lua", "return 1"⟩).path =
      ⟨"/p/dist/M/media/lua/client/Main.lua"⟩ := by decide +kernel
  have htext : ((Builder.emission p).transform ⟨"client/Main.lua", "return 1"⟩).text =
      "return 1" := by decide +kernel
  have hmain := hread _ (List.mem_singleton.mpr rfl) (by decide +kernel) (by decide +kernel)
  rw [hplace, htext] at hmain
  exact ⟨hload, hcalls ▸ hlength, hmain⟩

end ModBuild.Watch
