import ModBuild.Failure
import ModBuild.Proofs.Session.Disks

/-!
# Tasks composed of changes

A task that is composed of looks at the disk, messages and changes never calls the compiler, respects
what its changes respect, and does the same whatever the journal says before it.
-/

namespace ModBuild.Task

set_option autoImplicit false

variable {α β : Type}

inductive Composed (C : Change Fault Unit → Prop) : {α : Type} → Task Failure α → Prop
  | pure {α : Type} (a : α) : Composed C (pure a)
  | throw {α : Type} (f : Failure) : Composed C (throw f : Task Failure α)
  | disk : Composed C disk
  | status (stage : Stage) (tone : Tone) (message : String) : Composed C (status stage tone message)
  | change (wrap : Fault → Failure) {c : Change Fault Unit} (h : C c) : Composed C (change wrap c)
  | bind {α β : Type} {x : Task Failure α} {f : α → Task Failure β} (hx : Composed C x)
      (hf : ∀ a, Composed C (f a)) : Composed C (x >>= f)

namespace Composed

variable {C : Change Fault Unit → Prop} {x : Task Failure α}

theorem foldlM {f : β → α → Task Failure β} {xs : List α} (h : ∀ x ∈ xs, ∀ b, Composed C (f b x)) (b : β) :
    Composed C (xs.foldlM f b) := by
  induction xs generalizing b with
  | nil => exact .pure b
  | cons x xs ih =>
    rw [List.foldlM_cons]
    exact (h x List.mem_cons_self b).bind fun b' => ih (fun y hy => h y (List.mem_cons_of_mem x hy)) b'

theorem calls (h : Composed C x) : Calls 0 x := by
  induction h with
  | pure a => exact calls_pure a
  | throw f => exact calls_throw f 0
  | disk => exact calls_disk
  | status stage tone message => exact calls_status stage tone message
  | change wrap _ => exact calls_change wrap _
  | bind _ _ hx hf => exact hx.bind_after hf

theorem respects {R : Disk → Disk → Prop} [IsPreorder Disk R] (h : Composed C x)
    (hC : ∀ c, C c → Respects R c) : Respects (Session.OnDisk R) x := by
  induction h with
  | pure a => exact respects_pure a
  | throw f => exact respects_throw f
  | disk => exact respects_disk
  | status stage tone message => exact respects_status stage tone message
  | change wrap hc => exact respects_change (hC _ hc) wrap
  | bind _ _ hx hf => exact hx.bind hf

/-- The result and the disk do not depend on the journal. -/
theorem eq_of_disk_eq (h : Composed C x) {s t : Session} (hst : s.disk = t.disk) :
    (x s).1 = (x t).1 ∧ (x s).2.disk = (x t).2.disk := by
  induction h generalizing s t with
  | pure a => exact ⟨rfl, hst⟩
  | throw f => exact ⟨rfl, hst⟩
  | disk => exact ⟨congrArg Except.ok hst, hst⟩
  | status stage tone message => exact ⟨rfl, hst⟩
  | change wrap _ =>
    rw [change_apply, change_apply, hst]
    exact ⟨rfl, rfl⟩
  | @bind _ _ x f _ _ hx hf =>
    obtain ⟨hresult, hdisk⟩ := hx hst
    rw [run_bind, run_bind]
    rcases hs : x s with ⟨r, s₁⟩
    rcases ht : x t with ⟨r', t₁⟩
    rw [hs, ht] at hresult hdisk
    cases hresult
    cases r with
    | error f => exact ⟨rfl, hdisk⟩
    | ok a => exact hf a hdisk

end Composed

end ModBuild.Task
