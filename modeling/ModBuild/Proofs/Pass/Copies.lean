import ModBuild.Proofs.Pass.Compatible
import ModBuild.Proofs.Session.Disks

/-!
# The files that a pass mirrors

A pass does not say which files it has mirrored. Here its copies are run with a log beside the session,
to which every mirrored file is added with its target. The log changes nothing: without it the logged
copies are those of the pass (`erases_copyAll`).
-/

namespace ModBuild.Assets

set_option autoImplicit false

/-- The mirrored files with their targets, in order of time. -/
abbrev Log := List (FilePath × FilePath)

abbrev Logged (α : Type) := ExceptT Failure (StateM (Session × Log)) α

namespace Logged

variable {α β : Type}

/-- A task that mirrors nothing. -/
def ofTask (x : Task Failure α) : Logged α := fun (s, log) => ((x s).1, (x s).2, log)

instance : MonadLiftT (Task Failure) Logged := ⟨ofTask⟩

def copyFile (source target : FilePath) : Logged Unit := do
  Assets.copyFile source target
  modify fun (s, log) => (s, log ++ [(source, target)])

theorem ofTask_apply (y : Task Failure α) (s : Session) (log : Log) :
    ofTask y (s, log) = ((y s).1, (y s).2, log) := rfl

theorem ofTask_ok {x : Task Failure α} {s s' : Session} {log log' : Log} {a : α}
    (h : ofTask x (s, log) = (.ok a, s', log')) : x s = (.ok a, s') ∧ log' = log := by
  rw [ofTask_apply, Prod.mk.injEq, Prod.mk.injEq] at h
  exact ⟨Prod.ext h.1 h.2.1, h.2.2.symm⟩

theorem lift_disk_bind (f : Disk → Logged α) (s : Session × Log) :
    ((Task.disk : Task Failure Disk) >>= f : Logged α) s = f s.1.disk s := rfl

theorem copyFile_apply (source target : FilePath) (s : Session) (log : Log) :
    copyFile source target (s, log) =
      match Assets.copyFile source target s with
      | (.ok _, s') => (.ok (), s', log ++ [(source, target)])
      | (.error f, s') => (.error f, s', log) := by
  change (ofTask _ >>= _) (s, log) = _
  rw [run_bind, ofTask_apply]
  rcases Assets.copyFile source target s with ⟨r, s'⟩
  cases r <;> rfl

/-- The logged task does what the task does. -/
def Erases (x : Logged α) (y : Task Failure α) : Prop :=
  ∀ s log, ((x (s, log)).1, (x (s, log)).2.1) = y s

theorem Erases.bind {x : Logged α} {y : Task Failure α} {f : α → Logged β} {g : α → Task Failure β}
    (hx : Erases x y) (hf : ∀ a, Erases (f a) (g a)) : Erases (x >>= f) (y >>= g) := by
  intro s log
  have hs := hx s log
  rw [run_bind, run_bind, ← hs]
  rcases x (s, log) with ⟨r, s', log'⟩
  cases r with
  | error e => rfl
  | ok a => exact hf a s' log'

theorem compatible_erases :
    Compatible (fun _ => True) fun α (x : Logged α) (y : Task Failure α) => Erases x y where
  pure _ _ _ := rfl
  throw _ _ _ := rfl
  bind := .bind
  disk {_ f g} hf := by
    have hdisk : Erases (ofTask Task.disk) Task.disk := fun _ _ => rfl
    exact hdisk.bind fun d => hf d fun _ _ _ => trivial

theorem erases_copyFile (source target : FilePath) :
    Erases (copyFile source target) (Assets.copyFile source target) := by
  intro s log
  rw [copyFile_apply]
  rcases Assets.copyFile source target s with ⟨r, s'⟩
  cases r <;> rfl

/-- A pass copies the same files in the same way whether they are logged or not. -/
theorem erases_copyAll (p : Project) : Erases (Builder.copyAllBy copyFile p) (Builder.copyAll p) :=
  compatible_erases.copyAll copyFile Assets.copyFile
    (fun _ _ => compatible_erases.mirror copyFile Assets.copyFile (fun _ => True)
      (fun _ _ _ _ => trivial) (fun _ _ _ _ _ => erases_copyFile _ _) trivial)
    (fun _ _ => rfl) fun _ _ => rfl

end Logged

/-- The files that the copies of a pass mirror, with their targets, also those before a failure. -/
def mirrored (p : Project) (s : Session) : Log := (Builder.copyAllBy Logged.copyFile p (s, [])).2.2

theorem logged_of_copyAll_ok {p : Project} {s s' : Session} {r : Nat × List Diagnostic}
    (h : Builder.copyAll p s = (.ok r, s')) :
    Builder.copyAllBy Logged.copyFile p (s, []) = (.ok r, s', mirrored p s) := by
  have herases := Logged.erases_copyAll p s []
  rw [h, Prod.mk.injEq] at herases
  exact Prod.ext herases.1 (Prod.ext herases.2 rfl)

end ModBuild.Assets
