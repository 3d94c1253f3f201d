import ModBuild.Watch.Batch
import ModBuild.Proofs.Disk.Frame
import ModBuild.Proofs.Pass.Calls

/-!
# The rebuild of a batch

A batch carries out its actions in order and stops at the first one that fails. The rebuild comes
after all of them, so it takes place only when none has failed, and then once, however many events
ask for it.
-/

namespace ModBuild.Watch

set_option autoImplicit false

open ModBuild.Task (Calls)
open Disk (Writes)

variable {a : Action} {actions : List Action} {s s₁ s' : Session} {r acc : Bool}

theorem calls_told {ε : Type} (wrap : ε → Failure) (c : Change ε Unit) (message : String) :
    Calls 0 (do
      Task.change wrap c
      Task.status .watcher .info message
      return false) :=
  (Task.calls_change wrap c).bind_after fun _ =>
    (Task.calls_status .watcher .info message).bind_after fun _ => Task.calls_pure false

theorem Action.calls_apply (a : Action) : Calls 0 a.apply := by
  cases a with
  | ignore => exact Task.calls_pure false
  | rebuild => exact Task.calls_pure true
  | copy source target =>
    refine (Task.calls_status _ _ _).bind_after fun _ => ?_
    dsimp only
    split
    · exact (Task.calls_change _ _).bind_after fun _ => (Task.calls_change _ _).bind_after fun _ =>
        Task.calls_pure false
    · exact (Task.calls_change _ _).bind_after fun _ => Task.calls_pure false
  | remove target =>
    refine Task.calls_disk.bind_after fun d => ?_
    dsimp only
    split
    · exact calls_told _ _ _
    split
    · exact calls_told _ _ _
    · exact Task.calls_pure false
  | makeFolder target =>
    refine Task.calls_disk.bind_after fun d => ?_
    dsimp only
    split
    · exact calls_told _ _ _
    · exact Task.calls_pure false

theorem calls_applyAll (actions : List Action) : Calls 0 (applyAll actions) :=
  Task.calls_foldlM (fun _ a _ => a.calls_apply.bind_after fun _ => Task.calls_pure _) false

theorem Action.yields_apply (a : Action) : Yields (· = decide (a = .rebuild)) a.apply := by
  cases a with
  | ignore => exact yields_pure rfl
  | rebuild => exact yields_pure rfl
  | copy source target =>
    refine yields_bind fun _ => ?_
    dsimp only
    split
    · exact yields_bind fun _ => yields_bind fun _ => yields_pure rfl
    · exact yields_bind fun _ => yields_pure rfl
  | remove target =>
    refine yields_bind fun d => ?_
    dsimp only
    split
    · exact yields_bind fun _ => yields_bind fun _ => yields_pure rfl
    split
    · exact yields_bind fun _ => yields_bind fun _ => yields_pure rfl
    · exact yields_pure rfl
  | makeFolder target =>
    refine yields_bind fun d => ?_
    dsimp only
    split
    · exact yields_bind fun _ => yields_bind fun _ => yields_pure rfl
    · exact yields_pure rfl

theorem Action.copy_not_ok {source target : FilePath}
    (hgone : ∀ content, s.disk.get? (s.disk.target source) ≠ some (.file content)) :
    (copy source target).apply s ≠ (.ok r, s') := by
  intro h
  obtain ⟨_, s₁, hstatus, hrest⟩ := run_bind_ok_iff.mp h
  cases hstatus
  have hcopy : ∀ d₁ d₂, Writes ∅ s.disk d₁ → Change.copy source target d₁ ≠ (.ok (), d₂) := by
    intro d₁ d₂ hmade hrun
    obtain ⟨content, hfile⟩ := Change.exists_file_of_copy_ok hrun
    rw [hmade.target] at hfile
    exact hgone content ((hmade.file _ (fun p hp => absurd hp (Set.notMem_empty p)) content).mp hfile)
  cases hparent : target.parent? with
  | none =>
    simp only [hparent] at hrest
    obtain ⟨_, s₂, hlast, -⟩ := run_bind_ok_iff.mp hrest
    obtain ⟨d₂, hrun, -⟩ := Task.change_ok_iff.mp hlast
    exact hcopy s.disk d₂ (.refl ∅ s.disk) hrun
  | some above =>
    simp only [hparent] at hrest
    obtain ⟨_, s₂, hfolders, hrest⟩ := run_bind_ok_iff.mp hrest
    obtain ⟨d₁, hmake, rfl⟩ := Task.change_ok_iff.mp hfolders
    obtain ⟨_, s₃, hlast, -⟩ := run_bind_ok_iff.mp hrest
    obtain ⟨d₂, hrun, -⟩ := Task.change_ok_iff.mp hlast
    exact hcopy d₁ d₂ ((Change.respects_makeFolders above).of_run hmake) hrun

/-- The actions succeed one after the other. -/
inductive Carried : List Action → Session → Session → Prop
  | nil (s : Session) : Carried [] s s
  | cons {a : Action} {actions : List Action} {r : Bool} {s s₁ s' : Session} :
      a.apply s = (.ok r, s₁) → Carried actions s₁ s' → Carried (a :: actions) s s'

theorem foldlM_apply_ok_iff :
    (actions.foldlM (fun rebuild a => do return (← a.apply) || rebuild) acc : Task Failure Bool) s =
        (.ok r, s') ↔
      Carried actions s s' ∧ r = (decide (.rebuild ∈ actions) || acc) := by
  induction actions generalizing s acc with
  | nil =>
    constructor
    · intro h
      cases h
      exact ⟨.nil _, rfl⟩
    · rintro ⟨⟨⟩, rfl⟩
      rfl
  | cons a actions ih =>
    rw [List.foldlM_cons, run_bind_ok_iff]
    have hmem : (decide (.rebuild ∈ a :: actions) || acc) =
        (decide (.rebuild ∈ actions) || (decide (a = .rebuild) || acc)) := by
      simp only [List.mem_cons, Bool.decide_or, eq_comm]
      cases decide (a = .rebuild) <;> simp
    constructor
    · rintro ⟨acc', s₁, hfirst, hrest⟩
      obtain ⟨r₁, s₂, happly, hpure⟩ := run_bind_ok_iff.mp hfirst
      cases hpure
      obtain ⟨hcarried, hr⟩ := ih.mp hrest
      rw [a.yields_apply s r₁ s₁ happly] at hr
      exact ⟨.cons happly hcarried, hr.trans hmem.symm⟩
    · rintro ⟨hcarried, hr⟩
      cases hcarried with
      | @cons _ _ r₁ _ s₁ _ happly hcarried =>
        refine ⟨r₁ || acc, s₁, run_bind_ok_iff.mpr ⟨r₁, s₁, happly, rfl⟩, ih.mpr ⟨hcarried, ?_⟩⟩
        rw [hr, hmem, a.yields_apply s r₁ s₁ happly]

theorem applyAll_ok_iff :
    applyAll actions s = (.ok r, s') ↔ Carried actions s s' ∧ r = decide (.rebuild ∈ actions) := by
  unfold applyAll
  rw [foldlM_apply_ok_iff, Bool.or_false]

theorem applyAll_error_iff :
    (∃ f s', applyAll actions s = (.error f, s')) ↔ ¬∃ s', Carried actions s s' := by
  rcases hrun : applyAll actions s with ⟨r | r, s'⟩
  · refine iff_of_true ⟨r, s', rfl⟩ ?_
    rintro ⟨s₁, hcarried⟩
    rw [applyAll_ok_iff.mpr ⟨hcarried, rfl⟩] at hrun
    cases hrun
  · refine iff_of_false (by rintro ⟨f, s₁, h⟩; cases h) ?_
    exact fun h => h ⟨s', (applyAll_ok_iff.mp hrun).1⟩

theorem Carried.applyAll_snd (h : Carried actions s s') : (applyAll actions s).2 = s' := by
  rw [applyAll_ok_iff.mpr ⟨h, rfl⟩]

theorem Carried.unique (h : Carried actions s s₁) (h' : Carried actions s s') : s₁ = s' :=
  h.applyAll_snd.symm.trans h'.applyAll_snd

theorem carried_append_iff {before after : List Action} :
    Carried (before ++ after) s s' ↔ ∃ s₁, Carried before s s₁ ∧ Carried after s₁ s' := by
  induction before generalizing s with
  | nil =>
    constructor
    · intro h
      exact ⟨s, .nil s, h⟩
    · rintro ⟨_, ⟨⟩, h⟩
      exact h
  | cons a before ih =>
    constructor
    · intro h
      cases h with
      | cons happly hrest =>
        obtain ⟨s₁, hbefore, hafter⟩ := ih.mp hrest
        exact ⟨s₁, .cons happly hbefore, hafter⟩
    · rintro ⟨s₁, hbefore, hafter⟩
      cases hbefore with
      | cons happly hrest => exact .cons happly (ih.mpr ⟨s₁, hrest, hafter⟩)

/-- A batch does not get past the copy of a file that is gone when its turn comes. -/
theorem not_carried_of_gone {before after : List Action} {source target : FilePath}
    (hbefore : Carried before s s₁)
    (hgone : ∀ content, s₁.disk.get? (s₁.disk.target source) ≠ some (.file content)) :
    ¬∃ s', Carried (before ++ .copy source target :: after) s s' := by
  rintro ⟨s', h⟩
  obtain ⟨s₂, hbefore', hafter⟩ := carried_append_iff.mp h
  obtain rfl := hbefore.unique hbefore'
  cases hafter with
  | cons happly _ => exact Action.copy_not_ok hgone happly

/-- A batch with whatever may stand for the rebuild. -/
def handleWith (root : FilePath) (rebuild : Task Failure Unit) (events : List FileEvent) :
    Task Failure Unit := do
  let p ← Task.look fun d => Project.load d root
  if ← applyAll (events.map (plan (.ofProject p))) then rebuild

theorem handle_eq_handleWith (b : Builder) (events : List FileEvent) :
    handle b events = handleWith b.root (do let _ ← b.build) events := rfl

/-- The batch rebuilds once: after its actions it goes on as the rebuild does, whatever that is. -/
def RebuildsOnce (root : FilePath) (events : List FileEvent) (s s₁ : Session) : Prop :=
  ∀ rebuild, handleWith root rebuild events s = rebuild s₁

/-- The batch ends in the same way whatever the rebuild is. -/
def NeverRebuilds (root : FilePath) (events : List FileEvent) (s : Session) : Prop :=
  ∃ ending, ∀ rebuild, handleWith root rebuild events s = ending

section Handle

variable {root : FilePath} {events : List FileEvent} {p : Project}

theorem handleWith_apply (rebuild : Task Failure Unit)
    (hload : Project.load s.disk root = .ok p) :
    handleWith root rebuild events s =
      match applyAll (events.map (plan (.ofProject p))) s with
      | (.ok true, s₁) => rebuild s₁
      | (.ok false, s₁) => (.ok (), s₁)
      | (.error f, s₁) => (.error f, s₁) := by
  unfold handleWith
  rw [run_bind, Task.look_apply, hload]
  dsimp only
  rw [run_bind]
  rcases applyAll (events.map (plan (.ofProject p))) s with ⟨f | flag, s₁⟩
  · rfl
  · cases flag <;> rfl

theorem not_neverRebuilds (h : RebuildsOnce root events s s₁) : ¬NeverRebuilds root events s := by
  rintro ⟨ending, hending⟩
  have hok : (pure () : Task Failure Unit) s₁ = ending := (h _).symm.trans (hending _)
  have herror : (throw (.manifestThere root) : Task Failure Unit) s₁ = ending :=
    (h _).symm.trans (hending _)
  cases hok.trans herror.symm

theorem rebuildsOnce_of_carried (hload : Project.load s.disk root = .ok p)
    (hrebuild : .rebuild ∈ events.map (plan (.ofProject p)))
    (hcarried : Carried (events.map (plan (.ofProject p))) s s₁) :
    RebuildsOnce root events s s₁ := by
  intro rebuild
  rw [handleWith_apply rebuild hload, applyAll_ok_iff.mpr ⟨hcarried, rfl⟩, decide_eq_true hrebuild]

theorem neverRebuilds_of_not_carried (hload : Project.load s.disk root = .ok p)
    (hcarried : ¬∃ s₁, Carried (events.map (plan (.ofProject p))) s s₁) :
    NeverRebuilds root events s := by
  obtain ⟨f, s₁, hrun⟩ := applyAll_error_iff.mpr hcarried
  refine ⟨(.error f, s₁), fun rebuild => ?_⟩
  rw [handleWith_apply rebuild hload, hrun]

/-- A batch that is to rebuild does so once when each of its actions succeeds in its turn, and not
at all when one of them fails, as the copy of a file does that is gone again. -/
theorem handle_rebuilds_iff {b : Builder} (hload : Project.load s.disk b.root = .ok p)
    (hrebuild : .rebuild ∈ events.map (plan (.ofProject p))) :
    handle b events = handleWith b.root (do let _ ← b.build) events ∧
      ((∃ s₁, RebuildsOnce b.root events s s₁) ↔
        ∃ s₁, Carried (events.map (plan (.ofProject p))) s s₁) ∧
      (NeverRebuilds b.root events s ↔
        ¬∃ s₁, Carried (events.map (plan (.ofProject p))) s s₁) ∧
      ∀ before source target after s₁,
        events.map (plan (.ofProject p)) = before ++ .copy source target :: after →
        Carried before s s₁ →
        (∀ content, s₁.disk.get? (s₁.disk.target source) ≠ some (.file content)) →
        NeverRebuilds b.root events s := by
  refine ⟨handle_eq_handleWith b events, ⟨?_, ?_⟩, ⟨?_, neverRebuilds_of_not_carried hload⟩, ?_⟩
  · rintro ⟨s₁, honce⟩
    by_contra hfail
    exact not_neverRebuilds honce (neverRebuilds_of_not_carried hload hfail)
  · rintro ⟨s₁, hcarried⟩
    exact ⟨s₁, rebuildsOnce_of_carried hload hrebuild hcarried⟩
  · rintro hnever ⟨s₁, hcarried⟩
    exact not_neverRebuilds (rebuildsOnce_of_carried hload hrebuild hcarried) hnever
  · intro before source target after s₁ hactions hbefore hgone
    refine neverRebuilds_of_not_carried hload ?_
    rw [hactions]
    exact not_carried_of_gone hbefore hgone

/-- A source has changed, and another one is gone whose output was never written. -/
theorem handle_rebuilds_iff_removed :
    let d : Disk :=
      { entries := [(["p"], .folder),
          (["p", "mod.info"], .file "id=M\nname=N\nposter=p.png\ndescription=D".toUTF8)] }
    let p : Project :=
      ⟨⟨"/p"⟩, { id := "M", name := "N", poster := "p.png", description := "D" }, {}⟩
    let events : List FileEvent :=
      [.changed ⟨"/p/src/client/Main.ts"⟩, .removed ⟨"/p/src/client/Old.ts"⟩]
    Project.load d p.root = .ok p ∧ .rebuild ∈ events.map (plan (.ofProject p)) ∧
      ∃ s₁, RebuildsOnce p.root events ⟨d, []⟩ s₁ := by
  intro d p events
  have hload : Project.load d p.root = .ok p := eq_ok_of_toOption (by decide +kernel)
  have hrebuild : .rebuild ∈ events.map (plan (.ofProject p)) := by decide +kernel
  obtain ⟨_, s₁, hrun⟩ := exists_run_ok (s := Session.mk d [])
    (x := applyAll (events.map (plan (.ofProject p)))) (by decide +kernel)
  obtain ⟨-, honce, -⟩ := handle_rebuilds_iff (s := ⟨d, []⟩) (b := ⟨p.root, ⟨fun _ => pure [],
    fun _ => pure ""⟩, {}⟩) hload hrebuild
  exact ⟨hload, hrebuild, honce.mpr ⟨s₁, (applyAll_ok_iff.mp hrun).1⟩⟩

/-- A loose file was added and removed again before its batch is handled, and a source has changed. -/
theorem handle_loses_rebuild :
    let d : Disk :=
      { entries := [(["p"], .folder),
          (["p", "mod.info"], .file "id=M\nname=N\nposter=p.png\ndescription=D".toUTF8)] }
    let p : Project :=
      ⟨⟨"/p"⟩, { id := "M", name := "N", poster := "p.png", description := "D" }, {}⟩
    let events : List FileEvent :=
      [.added ⟨"/p/src/client/gone.lua"⟩, .changed ⟨"/p/src/client/Main.ts"⟩]
    Project.load d p.root = .ok p ∧ .rebuild ∈ events.map (plan (.ofProject p)) ∧
      NeverRebuilds p.root events ⟨d, []⟩ := by
  intro d p events
  have hload : Project.load d p.root = .ok p := eq_ok_of_toOption (by decide +kernel)
  have hactions : events.map (plan (.ofProject p)) =
      [.copy ⟨"/p/src/client/gone.lua"⟩ ⟨"/p/dist/M/media/lua/client/gone.lua"⟩, .rebuild] := by
    decide +kernel
  have hgone : d.get? (d.target ⟨"/p/src/client/gone.lua"⟩) = none := by decide +kernel
  refine ⟨hload, ?_, neverRebuilds_of_not_carried hload ?_⟩
  · rw [hactions]
    decide
  · rw [hactions]
    exact not_carried_of_gone (.nil _) fun content => by simp [hgone]

end Handle

end ModBuild.Watch
