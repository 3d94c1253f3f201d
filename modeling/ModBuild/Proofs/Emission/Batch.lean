import Mathlib.Data.List.Forall2
import ModBuild.Emission
import ModBuild.Proofs.Disk.Growth
import ModBuild.Proofs.Emission.Collision

/-!
# What a batch leaves on the disk

One unit writes the file that its place leads to and nothing else. A run keeps for each place the
text of the unit that wrote it last. When the search for collisions finds nothing, a place that is
not the bundle's has one writer, so the order of the run does not matter there.
-/

namespace ModBuild

set_option autoImplicit false

open SlashPath

def Outcome.unit : Outcome → String
  | skipped unit _ => unit
  | written unit _ _ _ => unit

namespace Emission

variable {e : Emission} {u v : CompiledUnit} {units schedule : List CompiledUnit} {d d' : Disk}

open Disk (Writes Grows)

/-- The files that the kept units of a list write. -/
def files (e : Emission) (us : List CompiledUnit) : Set FilePath :=
  {p | ∃ u ∈ us, u.Kept ∧ (e.place u).path = p}

theorem mem_files {p : FilePath} :
    p ∈ e.files units ↔ ∃ u ∈ units, u.Kept ∧ (e.place u).path = p := Iff.rfl

def makeAbove (path : FilePath) : Change EmissionError Unit :=
  match path.parent? with
  | some above => ExceptT.adapt (.makeFolder above) (Change.makeFolders above)
  | none => pure ()

theorem writeUnit_of_not_kept (h : ¬u.Kept) : e.writeUnit u = pure () :=
  if_pos (Option.isSome_iff_ne_none.mpr fun hskip => h (u.skip?_eq_none_iff.mp hskip))

theorem writeUnit_of_kept (h : u.Kept) :
    e.writeUnit u = (do
      makeAbove (e.place u).path
      ExceptT.adapt (.write (e.place u).path)
        (Change.writeText (e.place u).path (e.transform u).text)) := by
  unfold writeUnit makeAbove
  rw [if_neg (by simp [u.skip?_eq_none_iff.mpr h])]
  generalize (e.place u).path = path
  generalize (e.transform u).text = text
  dsimp only
  cases path.parent? <;> rfl

theorem respects_makeAbove (path : FilePath) : Respects (Writes ∅) (makeAbove path) := by
  unfold makeAbove
  split
  · next above _ => exact (Change.respects_makeFolders above).adapt _
  · exact respects_pure ()

theorem respects_writeUnit (e : Emission) (u : CompiledUnit) :
    Respects (Writes (e.files [u])) (e.writeUnit u) := by
  by_cases hkept : u.Kept
  · have hfile : (e.place u).path ∈ e.files [u] :=
      mem_files.mpr ⟨u, List.mem_singleton_self u, hkept, rfl⟩
    rw [writeUnit_of_kept hkept]
    generalize (e.place u).path = path at hfile ⊢
    generalize (e.transform u).text = text
    refine Respects.bind ?_ fun _ => ?_
    · intro d
      exact (respects_makeAbove path d).mono (Set.empty_subset _)
    · intro d
      exact (Change.respects_write path text.toUTF8 d).mono (Set.singleton_subset_iff.mpr hfile)
  · rw [writeUnit_of_not_kept hkept]
    exact respects_pure ()

theorem writeUnit_ok (hkept : u.Kept) (h : e.writeUnit u d = (.ok (), d')) :
    d'.locate (e.place u).path = .ok (d.target (e.place u).path) ∧
      d'.get? (d.target (e.place u).path) = some (.file (e.transform u).text.toUTF8) := by
  rw [writeUnit_of_kept hkept] at h
  obtain ⟨_, d₁, habove, hwrite⟩ := Change.bind_ok_iff.mp h
  have hmade := (respects_makeAbove (e.place u).path).of_run habove
  rw [← hmade.target]
  exact Change.write_ok (Change.adapt_ok_iff.mp hwrite)

theorem respects_schedule (e : Emission) (schedule : List CompiledUnit) :
    Respects (Writes (e.files schedule)) (schedule.forM e.writeUnit) := by
  refine respects_forM fun u hu d => ?_
  refine (respects_writeUnit e u d).mono ?_
  rintro p ⟨v, hv, hkept, hp⟩
  rw [List.mem_singleton.mp hv] at hkept hp
  exact ⟨u, hu, hkept, hp⟩

theorem grows_writeUnit (e : Emission) (u : CompiledUnit) : Respects Grows (e.writeUnit u) := by
  by_cases hkept : u.Kept
  · rw [writeUnit_of_kept hkept]
    refine Respects.bind ?_ fun _ => (Change.grows_write _ _).adapt _
    unfold makeAbove
    split
    · next above _ => exact (Change.grows_makeFolders above).adapt _
    · exact respects_pure ()
  · rw [writeUnit_of_not_kept hkept]
    exact respects_pure ()

theorem respects_emit_of {R : Disk → Disk → Prop} [IsPreorder Disk R]
    (h : Respects R (units.forM e.writeUnit)) : Respects R (e.emit units) := by
  unfold emit emitScheduled
  split
  · exact respects_throw _
  · exact h.bind fun _ => respects_pure _

theorem respects_emit (e : Emission) (units : List CompiledUnit) :
    Respects (Writes (e.files units)) (e.emit units) := respects_emit_of (respects_schedule e units)

theorem grows_emit (e : Emission) (units : List CompiledUnit) : Respects Grows (e.emit units) :=
  respects_emit_of (respects_forM fun u _ => grows_writeUnit e u)

/-- After a run there is a file under the place of every kept unit, and a kept unit wrote it. -/
theorem schedule_ok (h : schedule.forM e.writeUnit d = (.ok (), d')) (hu : u ∈ schedule)
    (hkept : u.Kept) :
    d'.locate (e.place u).path = .ok (d.target (e.place u).path) ∧
      ∃ v ∈ schedule, v.Kept ∧
        d.target (e.place v).path = d.target (e.place u).path ∧
        d'.get? (d.target (e.place u).path) = some (.file (e.transform v).text.toUTF8) := by
  induction schedule generalizing u d with
  | nil => cases hu
  | cons first rest ih =>
    obtain ⟨_, d₁, hfirst, hrest⟩ := Change.bind_ok_iff.mp h
    have hstep := (respects_writeUnit e first).of_run hfirst
    have hrun := (respects_schedule e rest).of_run hrest
    have hlater : ∀ w ∈ rest, w.Kept →
        d.target (e.place w).path = d.target (e.place u).path →
        ∃ v ∈ first :: rest, v.Kept ∧
          d.target (e.place v).path = d.target (e.place u).path ∧
          d'.get? (d.target (e.place u).path) = some (.file (e.transform v).text.toUTF8) := by
      intro w hw hwkept hsame
      obtain ⟨-, v, hv, hvkept, htarget, htext⟩ := ih hrest hw hwkept
      rw [hstep.target, hstep.target] at htarget
      rw [hstep.target] at htext
      exact ⟨v, List.mem_cons_of_mem first hv, hvkept, htarget.trans hsame, hsame ▸ htext⟩
    rcases List.mem_cons.mp hu with rfl | hmem
    · obtain ⟨hlocate, htext⟩ := writeUnit_ok hkept hfirst
      refine ⟨hrun.locate hlocate, ?_⟩
      by_cases hagain : ∃ w ∈ rest, w.Kept ∧
          d.target (e.place w).path = d.target (e.place u).path
      · obtain ⟨w, hw, hwkept, hsame⟩ := hagain
        exact hlater w hw hwkept hsame
      · refine ⟨u, List.mem_cons_self, hkept, rfl, ?_⟩
        refine (hrun.file _ ?_ _).mpr htext
        rintro p ⟨w, hw, hwkept, rfl⟩ heq
        rw [hstep.target] at heq
        exact hagain ⟨w, hw, hwkept, heq.symm⟩
    · refine ⟨?_, hlater u hmem hkept rfl⟩
      rw [← hstep.target]
      exact (ih hrest hmem hkept).1

theorem target_place (e : Emission) (d : Disk) (hdots : ".." ∉ segments (normalize u.path)) :
    d.target (e.place u).path =
      d.target e.layout.luaRoot ++ e.layout.placedParts (segments (normalize u.path)) := by
  unfold place
  rw [Layout.path_place, Disk.target_foldl_join]
  · exact Layout.isSegment_of_mem_placedParts fun part hpart => isSegment_of_mem_segments hpart
  · exact Layout.dots_not_mem_placedParts hdots

theorem placedParts_eq_of_target_eq (hu : ".." ∉ segments (normalize u.path))
    (hv : ".." ∉ segments (normalize v.path))
    (h : d.target (e.place v).path = d.target (e.place u).path) :
    e.layout.placedParts (segments (normalize v.path)) =
      e.layout.placedParts (segments (normalize u.path)) := by
  rw [target_place e d hu, target_place e d hv] at h
  exact List.append_cancel_left h

theorem rule_bundle_iff_of_target_eq (hu : ".." ∉ segments (normalize u.path))
    (hv : ".." ∉ segments (normalize v.path))
    (h : d.target (e.place v).path = d.target (e.place u).path) :
    (e.place v).rule = .bundle ↔ (e.place u).rule = .bundle :=
  Layout.rule_bundle_iff_of_placedParts_eq (placedParts_eq_of_target_eq hu hv h)

theorem same_of_target_eq (hu : ".." ∉ segments (normalize u.path))
    (hv : ".." ∉ segments (normalize v.path))
    (h : d.target (e.place v).path = d.target (e.place u).path) :
    (e.place v).path.Same (e.place u).path := by
  unfold place
  rw [Layout.same_place_iff]
  exact placedParts_eq_of_target_eq hu hv h

/-- In a batch without a collision a file that is not the bundle's has one writer. -/
theorem eq_of_target_eq (hcollision : Collision.find? e.layout units = none) (hu : u ∈ units)
    (hv : v ∈ units) (hukept : u.Kept) (hvkept : v.Kept) (hrule : (e.place u).rule ≠ .bundle)
    (hdots : ∀ u ∈ units, ".." ∉ segments (normalize u.path))
    (h : d.target (e.place v).path = d.target (e.place u).path) : v = u := by
  have hbundle := rule_bundle_iff_of_target_eq (hdots u hu) (hdots v hv) h
  have hvrule : (e.place v).rule ≠ .bundle := fun hv => hrule (hbundle.mp hv)
  have hsame := same_of_target_eq (hdots u hu) (hdots v hv) h
  exact Collision.eq_of_clash hcollision hv hu ⟨⟨hvkept, hvrule⟩, ⟨hukept, hrule⟩, hsame⟩

/-- What a batch of kept and skipped units leaves behind when it succeeds. -/
structure Emitted (e : Emission) (units : List CompiledUnit) (outcomes : List Outcome)
    (d d' : Disk) : Prop where
  /-- There is one outcome for each unit, in the order of the units. -/
  outcome : List.Forall₂ (fun u o => o.unit = u.path ∧ (o.isWritten = true ↔ u.Kept)) units outcomes
  text : ∀ u ∈ units, u.Kept → (e.place u).rule ≠ .bundle →
    d'.read (e.place u).path = .ok (e.transform u).text.toUTF8
  bundle : (∃ u ∈ units, u.Kept ∧ (e.place u).rule = .bundle) →
    ∃ u ∈ units, u.Kept ∧ (e.place u).rule = .bundle ∧
      d'.read ((e.layout.luaRoot.join "shared").join "lualib_bundle.lua") = .ok u.text.toUTF8
  rest : ∀ l, (∀ u ∈ units, u.Kept → d'.locate (e.place u).path ≠ .ok l) →
    ∀ content, d'.get? l = some (.file content) ↔ d.get? l = some (.file content)

theorem outcome_forall₂ (e : Emission) (units : List CompiledUnit) :
    List.Forall₂ (fun u o => o.unit = u.path ∧ (o.isWritten = true ↔ u.Kept)) units
      (units.map e.outcome) := by
  rw [List.forall₂_map_right_iff, List.forall₂_same]
  intro u _
  rw [← u.skip?_eq_none_iff]
  unfold outcome
  split
  · next reason hskip => simp [Outcome.unit, Outcome.isWritten, hskip]
  · next hskip => simp [Outcome.unit, Outcome.isWritten, hskip]

theorem checked_ok_iff {writes : Change EmissionError Unit} {outcomes : List Outcome} :
    (match Collision.find? e.layout units with
      | some c => throw (.collision c)
      | none => do
        writes
        pure (units.map e.outcome) : Change EmissionError (List Outcome)) d = (.ok outcomes, d') ↔
      Collision.find? e.layout units = none ∧ writes d = (.ok (), d') ∧
        outcomes = units.map e.outcome := by
  cases hfind : Collision.find? e.layout units with
  | some c =>
    refine iff_of_false ?_ (by simp)
    intro h
    cases h
  | none =>
    dsimp only
    rw [Change.bind_ok_iff]
    constructor
    · rintro ⟨_, d₁, hrun, hpure⟩
      cases hpure
      exact ⟨rfl, hrun, rfl⟩
    · rintro ⟨-, hrun, rfl⟩
      exact ⟨(), d', hrun, rfl⟩

theorem emitScheduled_ok_iff {outcomes : List Outcome} :
    e.emitScheduled schedule units d = (.ok outcomes, d') ↔
      Collision.find? e.layout units = none ∧ schedule.forM e.writeUnit d = (.ok (), d') ∧
        outcomes = units.map e.outcome :=
  checked_ok_iff

theorem exists_read_of_schedule (h : schedule.forM e.writeUnit d = (.ok (), d')) (hu : u ∈ schedule)
    (hkept : u.Kept) :
    ∃ v ∈ schedule, v.Kept ∧ d.target (e.place v).path = d.target (e.place u).path ∧
      d'.read (e.place u).path = .ok (e.transform v).text.toUTF8 := by
  obtain ⟨hlocate, v, hv, hvkept, hsame, htext⟩ := schedule_ok h hu hkept
  exact ⟨v, hv, hvkept, hsame, Disk.read_of_get? hlocate htext⟩

theorem text_transform_of_bundle (h : (e.place u).rule = .bundle) : (e.transform u).text = u.text := by
  unfold transform CompiledUnit.transform
  rw [if_pos h]

/-- However the units of a batch are scheduled, a batch that succeeds leaves behind the files of its
units and no other trace. -/
theorem emitScheduled_emitted {outcomes : List Outcome} (hschedule : schedule.Perm units)
    (hdots : ∀ u ∈ units, ".." ∉ segments (normalize u.path))
    (h : e.emitScheduled schedule units d = (.ok outcomes, d')) :
    e.Emitted units outcomes d d' := by
  obtain ⟨hcollision, hrun, rfl⟩ := emitScheduled_ok_iff.mp h
  have hlast : ∀ u ∈ units, u.Kept → ∃ v ∈ units, v.Kept ∧
      d.target (e.place v).path = d.target (e.place u).path ∧
      d'.read (e.place u).path = .ok (e.transform v).text.toUTF8 := by
    intro u hu hkept
    obtain ⟨v, hv, hlast⟩ := exists_read_of_schedule hrun (hschedule.mem_iff.mpr hu) hkept
    exact ⟨v, hschedule.mem_iff.mp hv, hlast⟩
  refine ⟨outcome_forall₂ e units, ?_, ?_, ?_⟩
  · intro u hu hkept hrule
    obtain ⟨v, hv, hvkept, hsame, hread⟩ := hlast u hu hkept
    rw [eq_of_target_eq hcollision hu hv hkept hvkept hrule hdots hsame] at hread
    exact hread
  · rintro ⟨u, hu, hkept, hrule⟩
    obtain ⟨v, hv, hvkept, hsame, hread⟩ := hlast u hu hkept
    have hvrule := (rule_bundle_iff_of_target_eq (hdots u hu) (hdots v hv) hsame).mpr hrule
    refine ⟨v, hv, hvkept, hvrule, ?_⟩
    rw [text_transform_of_bundle hvrule] at hread
    rw [← hread]
    unfold place at hrule ⊢
    rw [Layout.path_place_bundle hrule]
    rfl
  · intro l hl
    refine ((respects_schedule e schedule).of_run hrun).file l ?_
    intro p hp heq
    obtain ⟨u, hu, hkept, hplace⟩ := mem_files.mp hp
    have hlocate := (schedule_ok hrun hu hkept).1
    rw [hplace, ← heq] at hlocate
    refine hl u (hschedule.mem_iff.mp hu) hkept ?_
    rw [hplace, hlocate]

/-- A module, a bundle and a placeholder, the last one first. -/
theorem emitScheduled_emitted_reversed :
    ∃ outcomes d',
      (Emission.mk ⟨⟨"/Mod"⟩, "node_modules"⟩ {}).emitScheduled
          [⟨"server/none.lua", ""⟩, ⟨"lualib_bundle.lua", "local M"⟩, ⟨"shared/one.lua", "return 1"⟩]
          [⟨"shared/one.lua", "return 1"⟩, ⟨"lualib_bundle.lua", "local M"⟩, ⟨"server/none.lua", ""⟩]
          {} = (.ok outcomes, d') ∧
        (Emission.mk ⟨⟨"/Mod"⟩, "node_modules"⟩ {}).Emitted
          [⟨"shared/one.lua", "return 1"⟩, ⟨"lualib_bundle.lua", "local M"⟩, ⟨"server/none.lua", ""⟩]
          outcomes {} d' := by
  obtain ⟨outcomes, d', h⟩ := Change.exists_ok (d := {})
    (x := (Emission.mk ⟨⟨"/Mod"⟩, "node_modules"⟩ {}).emitScheduled
      [⟨"server/none.lua", ""⟩, ⟨"lualib_bundle.lua", "local M"⟩, ⟨"shared/one.lua", "return 1"⟩]
      [⟨"shared/one.lua", "return 1"⟩, ⟨"lualib_bundle.lua", "local M"⟩, ⟨"server/none.lua", ""⟩])
    (by decide +kernel)
  exact ⟨outcomes, d', h, emitScheduled_emitted (List.reverse_perm _) (by decide +kernel) h⟩

end Emission

end ModBuild
