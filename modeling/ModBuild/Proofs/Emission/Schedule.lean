import ModBuild.Proofs.Emission.Batch

/-!
# Orders of a batch

The units of a batch are written at the same time: each makes the folders above its file and then
writes it, and these steps may fall into any order. A run keeps at each location the text that was
written there last, so two runs agree exactly when their last writes do. In a batch without a
collision the bundle is the only file that may have writers with different texts.
-/

namespace ModBuild

set_option autoImplicit false

open SlashPath

/-- The disks have the same files with the same contents. -/
def Disk.SameFiles (d d' : Disk) : Prop :=
  ∀ l content, d.get? l = some (.file content) ↔ d'.get? l = some (.file content)

namespace Emission

open Disk (Writes)

variable {e : Emission} {u : CompiledUnit} {units schedule : List CompiledUnit} {d d' d₁ d₂ : Disk}

/-- A part of a unit's task during which nothing else happens. -/
inductive Step
  /-- The folders above the file are made. -/
  | folders (unit : CompiledUnit)
  | file (unit : CompiledUnit)
  deriving DecidableEq

def Step.run (e : Emission) : Step → Change EmissionError Unit
  | folders u => makeAbove (e.place u).path
  | file u =>
    ExceptT.adapt (.write (e.place u).path)
      (Change.writeText (e.place u).path (e.transform u).text)

/-- The task of a unit. There is nothing to do for a skipped one. -/
def steps (u : CompiledUnit) : List Step := if u.Kept then [.folders u, .file u] else []

/-- A batch whose steps happen in the given order. -/
def emitInterleaved (e : Emission) (order : List Step) (units : List CompiledUnit) :
    Change EmissionError (List Outcome) :=
  match Collision.find? e.layout units with
  | some c => throw (.collision c)
  | none => do
    order.forM (Step.run e)
    pure (units.map e.outcome)

theorem forM_steps (e : Emission) (u : CompiledUnit) :
    (steps u).forM (Step.run e) = e.writeUnit u := by
  unfold steps
  by_cases hkept : u.Kept
  · rw [if_pos hkept, writeUnit_of_kept hkept, List.forM_eq_forM, List.forM_cons, List.forM_cons,
      List.forM_nil, bind_pure_unit]
    rfl
  · rw [if_neg hkept, writeUnit_of_not_kept hkept]
    rfl

theorem forM_flatMap_steps (e : Emission) (schedule : List CompiledUnit) :
    (schedule.flatMap steps).forM (Step.run e) = schedule.forM e.writeUnit := by
  induction schedule with
  | nil => rfl
  | cons u schedule ih =>
    rw [List.forM_eq_forM] at ih ⊢
    rw [List.flatMap_cons, List.forM_append, ih, ← List.forM_eq_forM, forM_steps]
    rfl

/-- Writing one unit after the other is one of the orders of the steps. -/
theorem emitScheduled_eq_emitInterleaved (e : Emission) (schedule units : List CompiledUnit) :
    e.emitScheduled schedule units = e.emitInterleaved (schedule.flatMap steps) units := by
  cases hfind : Collision.find? e.layout units with
  | some c => simp only [emitScheduled, emitInterleaved, hfind]
  | none => simp only [emitScheduled, emitInterleaved, hfind, forM_flatMap_steps]

theorem emitInterleaved_ok_iff {order : List Step} {outcomes : List Outcome} :
    e.emitInterleaved order units d = (.ok outcomes, d') ↔
      Collision.find? e.layout units = none ∧ order.forM (Step.run e) d = (.ok (), d') ∧
        outcomes = units.map e.outcome :=
  checked_ok_iff

/-- The text that the step writes at a location. -/
def Step.textAt? (e : Emission) (d : Disk) (l : Location) : Step → Option String
  | folders _ => none
  | file u => if d.target (e.place u).path = l then some (e.transform u).text else none

/-- The text that is written last at a location. -/
def lastText? (e : Emission) (d : Disk) (order : List Step) (l : Location) : Option String :=
  (order.filterMap (Step.textAt? e d l)).getLast?

theorem lastText?_cons (step : Step) (order : List Step) (l : Location) :
    e.lastText? d (step :: order) l = (e.lastText? d order l).or (step.textAt? e d l) := by
  unfold lastText?
  rw [List.filterMap_cons]
  cases step.textAt? e d l with
  | none => rw [Option.or_none]
  | some text => rw [List.getLast?_cons]; cases (order.filterMap _).getLast? <;> rfl

theorem lastText?_of_workingDir (h : d₁.workingDir = d.workingDir) (order : List Step)
    (l : Location) : e.lastText? d₁ order l = e.lastText? d order l := by
  have htext : Step.textAt? e d₁ l = Step.textAt? e d l := by
    funext step
    cases step with
    | folders u => rfl
    | file u => simp only [Step.textAt?, Disk.target_of_workingDir h]
  unfold lastText?
  rw [htext]

/-- The content of a location after a run: what was written there last, or what was there before. -/
def contentAfter (d : Disk) (l : Location) (text? : Option String) (content : ByteArray) : Prop :=
  match text? with
  | some text => content = text.toUTF8
  | none => d.get? l = some (.file content)

theorem step_ok {step : Step} (h : step.run e d = (.ok (), d')) (l : Location)
    (content : ByteArray) :
    d'.workingDir = d.workingDir ∧
      (d'.get? l = some (.file content) ↔ contentAfter d l (step.textAt? e d l) content) := by
  cases step with
  | folders u =>
    unfold Step.run at h
    dsimp only at h
    generalize (e.place u).path = path at h
    have hmade := (respects_makeAbove path).of_run h
    exact ⟨hmade.workingDir, hmade.file l (fun p hp => absurd hp (Set.notMem_empty p)) content⟩
  | file u =>
    unfold Step.run at h
    unfold Step.textAt?
    dsimp only at h ⊢
    generalize (e.place u).path = path at h ⊢
    generalize (e.transform u).text = text at h ⊢
    have hwrite := Change.adapt_ok_iff.mp h
    have hframe := (Change.respects_write path text.toUTF8).of_run hwrite
    refine ⟨hframe.workingDir, ?_⟩
    by_cases hl : d.target path = l
    · subst hl
      rw [if_pos rfl, (Change.write_ok hwrite).2]
      simp only [contentAfter, Option.some.injEq, Entry.file.injEq]
      exact eq_comm
    · rw [if_neg hl]
      refine hframe.file l ?_ content
      rintro p rfl heq
      exact hl heq.symm

theorem run_ok {order : List Step} (h : order.forM (Step.run e) d = (.ok (), d')) (l : Location)
    (content : ByteArray) :
    d'.get? l = some (.file content) ↔ contentAfter d l (e.lastText? d order l) content := by
  induction order generalizing d with
  | nil =>
    cases h
    rfl
  | cons step order ih =>
    obtain ⟨_, d₁, hstep, hrest⟩ := Change.bind_ok_iff.mp h
    obtain ⟨hdir, hfile⟩ := step_ok hstep l content
    rw [ih hrest, lastText?_of_workingDir hdir, lastText?_cons]
    cases e.lastText? d order l with
    | some text => rfl
    | none => exact hfile

section Writers

variable {order order₁ order₂ : List Step} {l : Location} {text : String}

theorem file_mem_steps_iff : Step.file u ∈ units.flatMap steps ↔ u ∈ units ∧ u.Kept := by
  rw [List.mem_flatMap]
  constructor
  · rintro ⟨v, hv, hstep⟩
    unfold steps at hstep
    split at hstep
    · next hkept =>
      simp only [List.mem_cons, reduceCtorEq, Step.file.injEq, List.not_mem_nil, or_false,
        false_or] at hstep
      exact hstep ▸ ⟨hv, hkept⟩
    · cases hstep
  · rintro ⟨hu, hkept⟩
    refine ⟨u, hu, ?_⟩
    rw [steps, if_pos hkept]
    exact List.mem_cons_of_mem _ List.mem_cons_self

theorem textAt?_eq_some_iff {step : Step} :
    step.textAt? e d l = some text ↔
      ∃ u, step = .file u ∧ d.target (e.place u).path = l ∧ (e.transform u).text = text := by
  cases step with
  | folders u => simp [Step.textAt?]
  | file u => simp [Step.textAt?]

theorem exists_writer (hperm : order.Perm (units.flatMap steps))
    (h : e.lastText? d order l = some text) :
    ∃ u ∈ units, u.Kept ∧ d.target (e.place u).path = l ∧ (e.transform u).text = text := by
  obtain ⟨step, hstep, htext⟩ := List.mem_filterMap.mp (List.mem_of_getLast? h)
  obtain ⟨u, rfl, hl, htext⟩ := textAt?_eq_some_iff.mp htext
  obtain ⟨hu, hkept⟩ := file_mem_steps_iff.mp (hperm.mem_iff.mp hstep)
  exact ⟨u, hu, hkept, hl, htext⟩

theorem lastText?_eq_none_iff_of_perm (h : order₁.Perm order₂) :
    e.lastText? d order₁ l = none ↔ e.lastText? d order₂ l = none := by
  unfold lastText?
  rw [List.getLast?_eq_none_iff, List.getLast?_eq_none_iff, ← List.length_eq_zero_iff,
    ← List.length_eq_zero_iff, (h.filterMap (Step.textAt? e d l)).length_eq]

theorem get?_file_iff_iff_lastText?_eq (hperm : order₁.Perm order₂)
    (hrun₁ : order₁.forM (Step.run e) d = (.ok (), d₁))
    (hrun₂ : order₂.forM (Step.run e) d = (.ok (), d₂)) :
    (∀ content, d₁.get? l = some (.file content) ↔ d₂.get? l = some (.file content)) ↔
      e.lastText? d order₁ l = e.lastText? d order₂ l := by
  simp only [run_ok hrun₁, run_ok hrun₂]
  have hnone := lastText?_eq_none_iff_of_perm (e := e) (d := d) (l := l) hperm
  constructor
  · intro h
    cases h₁ : e.lastText? d order₁ l with
    | none => exact (hnone.mp h₁).symm
    | some text₁ =>
      cases h₂ : e.lastText? d order₂ l with
      | none => simp [hnone.mpr h₂] at h₁
      | some text₂ =>
        rw [h₁, h₂] at h
        have hbytes : text₁.toUTF8 = text₂.toUTF8 := (h text₁.toUTF8).mp rfl
        rw [String.toByteArray_inj.mp hbytes]
  · intro h content
    rw [h]

/-- Units with different texts write one file only when it is that of the bundle. -/
theorem bundles_of_target_eq {v : CompiledUnit}
    (hcollision : Collision.find? e.layout units = none)
    (hdots : ∀ u ∈ units, ".." ∉ segments (normalize u.path)) (hu : u ∈ units) (hv : v ∈ units)
    (hukept : u.Kept) (hvkept : v.Kept)
    (hsame : d.target (e.place v).path = d.target (e.place u).path)
    (hne : (e.transform u).text ≠ (e.transform v).text) :
    (e.place u).rule = .bundle ∧ (e.place v).rule = .bundle ∧ u.text ≠ v.text := by
  have hrule : (e.place u).rule = .bundle := by
    by_contra hrule
    have heq := eq_of_target_eq hcollision hu hv hukept hvkept hrule hdots hsame
    exact hne (by rw [heq])
  have hvrule := (rule_bundle_iff_of_target_eq (hdots u hu) (hdots v hv) hsame).mpr hrule
  rw [text_transform_of_bundle hrule, text_transform_of_bundle hvrule] at hne
  exact ⟨hrule, hvrule, hne⟩

theorem bundle_of_lastText?_ne (hcollision : Collision.find? e.layout units = none)
    (hdots : ∀ u ∈ units, ".." ∉ segments (normalize u.path))
    (hperm₁ : order₁.Perm (units.flatMap steps)) (hperm₂ : order₂.Perm (units.flatMap steps))
    (hne : e.lastText? d order₁ l ≠ e.lastText? d order₂ l) :
    l = d.target ((e.layout.luaRoot.join "shared").join "lualib_bundle.lua") ∧
      ∃ u ∈ units, ∃ v ∈ units, u.Kept ∧ v.Kept ∧ (e.place u).rule = .bundle ∧
        (e.place v).rule = .bundle ∧ u.text ≠ v.text := by
  have hnone := lastText?_eq_none_iff_of_perm (e := e) (d := d) (l := l)
    (hperm₁.trans hperm₂.symm)
  cases hlast₁ : e.lastText? d order₁ l with
  | none => exact absurd (hlast₁.trans (hnone.mp hlast₁).symm) hne
  | some text₁ =>
    cases hlast₂ : e.lastText? d order₂ l with
    | none => exact absurd ((hnone.mpr hlast₂).trans hlast₂.symm) hne
    | some text₂ =>
      obtain ⟨u, hu, hukept, hul, rfl⟩ := exists_writer hperm₁ hlast₁
      obtain ⟨v, hv, hvkept, hvl, rfl⟩ := exists_writer hperm₂ hlast₂
      have htext : (e.transform u).text ≠ (e.transform v).text := by
        intro heq
        rw [hlast₁, hlast₂, heq] at hne
        exact hne rfl
      obtain ⟨hrule, hvrule, hbundles⟩ := bundles_of_target_eq hcollision hdots hu hv hukept hvkept
        (hvl.trans hul.symm) htext
      refine ⟨?_, u, hu, v, hv, hukept, hvkept, hrule, hvrule, hbundles⟩
      rw [← hul]
      unfold place at hrule ⊢
      rw [Layout.path_place_bundle hrule]
      rfl

/-- Whatever the order of the steps, the outcomes are the same, and two runs leave the same files
exactly when the last writes at each location are the same. Without `..` in the declared paths
every file is the same in both but the bundle, and the bundle is too unless the batch has bundles
with different texts. -/
theorem emitInterleaved_sameFiles_iff {outcomes₁ outcomes₂ : List Outcome}
    (hperm₁ : order₁.Perm (units.flatMap steps)) (hperm₂ : order₂.Perm (units.flatMap steps))
    (h₁ : e.emitInterleaved order₁ units d = (.ok outcomes₁, d₁))
    (h₂ : e.emitInterleaved order₂ units d = (.ok outcomes₂, d₂)) :
    outcomes₁ = outcomes₂ ∧
      (d₁.SameFiles d₂ ↔ ∀ l, e.lastText? d order₁ l = e.lastText? d order₂ l) ∧
      ((∀ u ∈ units, ".." ∉ segments (normalize u.path)) → ∀ l,
        (∀ content, d₁.get? l = some (.file content) ↔ d₂.get? l = some (.file content)) ∨
          l = d.target ((e.layout.luaRoot.join "shared").join "lualib_bundle.lua") ∧
            ∃ u ∈ units, ∃ v ∈ units, u.Kept ∧ v.Kept ∧ (e.place u).rule = .bundle ∧
              (e.place v).rule = .bundle ∧ u.text ≠ v.text) := by
  obtain ⟨hcollision, hrun₁, rfl⟩ := emitInterleaved_ok_iff.mp h₁
  obtain ⟨-, hrun₂, rfl⟩ := emitInterleaved_ok_iff.mp h₂
  have hfiles : ∀ l,
      (∀ content, d₁.get? l = some (.file content) ↔ d₂.get? l = some (.file content)) ↔
        e.lastText? d order₁ l = e.lastText? d order₂ l := fun l =>
    get?_file_iff_iff_lastText?_eq (hperm₁.trans hperm₂.symm) hrun₁ hrun₂
  refine ⟨rfl, forall_congr' hfiles, fun hdots l => ?_⟩
  rw [hfiles l]
  by_cases heq : e.lastText? d order₁ l = e.lastText? d order₂ l
  · exact Or.inl heq
  · exact Or.inr (bundle_of_lastText?_ne hcollision hdots hperm₁ hperm₂ heq)

/-- A module and two bundles with one text, once unit by unit and once with all folders first. -/
theorem emitInterleaved_sameFiles_folders_first :
    let e : Emission := ⟨⟨⟨"/Mod"⟩, "node_modules"⟩, {}⟩
    let one : CompiledUnit := ⟨"shared/one.lua", "return 1"⟩
    let upper : CompiledUnit := ⟨"lualib_bundle.lua", "local M"⟩
    let lower : CompiledUnit := ⟨"client/lualib_bundle.lua", "local M"⟩
    ∃ outcomes d₁ d₂,
      e.emitInterleaved [.folders one, .file one, .folders upper, .file upper, .folders lower,
          .file lower] [one, upper, lower] {} = (.ok outcomes, d₁) ∧
        e.emitInterleaved [.folders lower, .folders upper, .folders one, .file lower, .file upper,
          .file one] [one, upper, lower] {} = (.ok outcomes, d₂) ∧
        d₁.SameFiles d₂ := by
  intro e one upper lower
  obtain ⟨outcomes₁, d₁, h₁⟩ := Change.exists_ok (d := {})
    (x := e.emitInterleaved [.folders one, .file one, .folders upper, .file upper, .folders lower,
      .file lower] [one, upper, lower]) (by decide +kernel)
  obtain ⟨outcomes₂, d₂, h₂⟩ := Change.exists_ok (d := {})
    (x := e.emitInterleaved [.folders lower, .folders upper, .folders one, .file lower, .file upper,
      .file one] [one, upper, lower]) (by decide +kernel)
  obtain ⟨rfl, -, hfiles⟩ := emitInterleaved_sameFiles_iff (by decide +kernel)
    (by decide +kernel) h₁ h₂
  refine ⟨outcomes₁, d₁, d₂, h₁, h₂, fun l => ?_⟩
  rcases hfiles (by decide +kernel) l with hsame | ⟨-, u, hu, v, hv, -, -, hurule, hvrule, htext⟩
  · exact hsame
  · have hone : ∀ u ∈ [one, upper, lower], (e.place u).rule = .bundle → u.text = "local M" := by
      decide +kernel
    exact absurd ((hone u hu hurule).trans (hone v hv hvrule).symm) htext

/-- Of two bundles with different texts the one that is written last stays. -/
theorem emitScheduled_bundles_differ :
    let e : Emission := ⟨⟨⟨"/Mod"⟩, "node_modules"⟩, {}⟩
    let upper : CompiledUnit := ⟨"lualib_bundle.lua", "local M"⟩
    let lower : CompiledUnit := ⟨"client/lualib_bundle.lua", "local N"⟩
    ∃ outcomes d₁ d₂,
      e.emitScheduled [upper, lower] [upper, lower] {} = (.ok outcomes, d₁) ∧
        e.emitScheduled [lower, upper] [upper, lower] {} = (.ok outcomes, d₂) ∧
        d₁.get? ["Mod", "media", "lua", "shared", "lualib_bundle.lua"] =
          some (.file "local N".toUTF8) ∧
        d₂.get? ["Mod", "media", "lua", "shared", "lualib_bundle.lua"] =
          some (.file "local M".toUTF8) ∧
        ¬d₁.SameFiles d₂ := by
  intro e upper lower
  obtain ⟨outcomes₁, d₁, h₁⟩ := Change.exists_ok (d := {})
    (x := e.emitScheduled [upper, lower] [upper, lower]) (by decide +kernel)
  obtain ⟨outcomes₂, d₂, h₂⟩ := Change.exists_ok (d := {})
    (x := e.emitScheduled [lower, upper] [upper, lower]) (by decide +kernel)
  obtain ⟨-, -, rfl⟩ := emitScheduled_ok_iff.mp h₁
  obtain ⟨-, -, rfl⟩ := emitScheduled_ok_iff.mp h₂
  have hlower : (e.emitScheduled [upper, lower] [upper, lower] {}).2.get?
      ["Mod", "media", "lua", "shared", "lualib_bundle.lua"] = some (.file "local N".toUTF8) := by
    decide +kernel
  have hupper : (e.emitScheduled [lower, upper] [upper, lower] {}).2.get?
      ["Mod", "media", "lua", "shared", "lualib_bundle.lua"] = some (.file "local M".toUTF8) := by
    decide +kernel
  rw [h₁] at hlower
  rw [h₂] at hupper
  refine ⟨_, d₁, d₂, h₁, h₂, hlower, hupper, fun hsame => ?_⟩
  have htexts : some (Entry.file "local M".toUTF8) = some (Entry.file "local N".toUTF8) :=
    hupper.symm.trans ((hsame _ _).mp hlower)
  exact absurd htexts (by decide +kernel)

end Writers

end Emission

end ModBuild
