import ModBuild.Proofs.Session.Calls

/-!
# Disks of a session

A task changes the disk of its session by changes alone, so a relation that its changes respect holds
between the disks before and after the task.
-/

namespace ModBuild

set_option autoImplicit false

/-- The relation holds between the disks of two sessions. -/
def Session.OnDisk (R : Disk → Disk → Prop) (s s' : Session) : Prop := R s.disk s'.disk

instance {R : Disk → Disk → Prop} [IsPreorder Disk R] : IsPreorder Session (Session.OnDisk R) where
  refl s := refl_of R s.disk
  trans _ _ _ := trans_of R

namespace Task

open Session (OnDisk)

variable {R : Disk → Disk → Prop} {ε ε' α : Type}

theorem respects_change {c : Change ε α} (h : Respects R c) (wrap : ε → ε') :
    Respects (OnDisk R) (change wrap c) := by
  intro s
  rw [change_apply]
  exact h s.disk

theorem respects_result {c : Change ε α} (h : Respects R c) :
    Respects (OnDisk R) (result c : Task ε' (Except ε α)) := fun s => h s.disk

variable [IsPreorder Disk R]

theorem respects_record (e : Event) : Respects (OnDisk R) (record e : Task ε Unit) :=
  fun s => refl_of R s.disk

theorem respects_status (stage : Stage) (tone : Tone) (message : String) :
    Respects (OnDisk R) (status stage tone message : Task ε Unit) := respects_record _

theorem respects_disk : Respects (OnDisk R) (disk : Task ε Disk) := fun s => refl_of R s.disk

end Task

end ModBuild
