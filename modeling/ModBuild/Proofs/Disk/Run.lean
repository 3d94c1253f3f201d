import Mathlib.Data.List.Forall2
import ModBuild.Disk.Change
import ModBuild.Proofs.Run

/-!
# Running changes

A change that succeeded is taken apart into the changes it is made of, and a change made of one step
either puts its new disk in the place of the old one or leaves that as it was.
-/

namespace ModBuild

set_option autoImplicit false

variable {α β ε δ : Type}

theorem bind_eq_ok_iff {x : Except ε α} {f : α → Except ε β} {b : β} :
    x >>= f = .ok b ↔ ∃ a, x = .ok a ∧ f a = .ok b := by
  cases x with
  | error e =>
    constructor
    · intro h
      cases h
    · rintro ⟨a, h, -⟩
      cases h
  | ok a =>
    constructor
    · intro h
      exact ⟨a, rfl, h⟩
    · rintro ⟨a', h, hf⟩
      cases h
      exact hf

theorem forall₂_of_mapM_eq_ok {f : α → Except ε β} {xs : List α} {ys : List β}
    (h : xs.mapM f = .ok ys) : List.Forall₂ (fun x y => f x = .ok y) xs ys := by
  induction xs generalizing ys with
  | nil =>
    cases h
    exact .nil
  | cons x xs ih =>
    rw [List.mapM_cons, bind_eq_ok_iff] at h
    obtain ⟨y, hy, hrest⟩ := h
    obtain ⟨ys, hys, hpair⟩ := bind_eq_ok_iff.mp hrest
    cases hpair
    exact .cons hy (ih hys)

theorem exists_mapM_eq_ok {f : α → Except ε β} {P : α → β → Prop} {xs : List α}
    (h : ∀ x ∈ xs, ∃ y, f x = .ok y ∧ P x y) : ∃ ys, xs.mapM f = .ok ys ∧ List.Forall₂ P xs ys := by
  induction xs with
  | nil => exact ⟨[], rfl, .nil⟩
  | cons x xs ih =>
    obtain ⟨y, hy, hP⟩ := h x List.mem_cons_self
    obtain ⟨ys, hys, hall⟩ := ih fun x' hx' => h x' (List.mem_cons_of_mem x hx')
    refine ⟨y :: ys, ?_, .cons hP hall⟩
    rw [List.mapM_cons, hy, hys]
    rfl

theorem mapM_eq_error {f : α → Except ε β} {before after : List α} {x : α} {e : ε}
    (h : ∀ x' ∈ before, ∃ y, f x' = .ok y) (hx : f x = .error e) :
    (before ++ x :: after).mapM f = .error e := by
  obtain ⟨ys, hys, -⟩ := exists_mapM_eq_ok (P := fun _ _ => True) fun x' hx' =>
    (h x' hx').imp fun _ hy => ⟨hy, trivial⟩
  rw [List.mapM_append, hys, List.mapM_cons, hx]
  rfl

theorem mapError_eq_ok_iff {x : Except ε α} {f : ε → δ} {a : α} : x.mapError f = .ok a ↔ x = .ok a := by
  cases x with
  | error e => exact iff_of_false (fun h => by cases h) (fun h => by cases h)
  | ok b => exact ⟨fun h => by cases h; rfl, fun h => by cases h; rfl⟩

theorem eq_ok_of_toOption {x : Except ε α} {a : α} (h : x.toOption = some a) : x = .ok a := by
  cases x with
  | error e => cases h
  | ok b =>
    cases h
    rfl

namespace Change

theorem bind_ok_iff {x : Change ε α} {f : α → Change ε β} {d d' : Disk} {b : β} :
    (x >>= f) d = (.ok b, d') ↔ ∃ a d₁, x d = (.ok a, d₁) ∧ f a d₁ = (.ok b, d') :=
  run_bind_ok_iff

theorem exists_ok {x : Change ε α} {d : Disk} (h : (x d).1.toBool = true) :
    ∃ a d', x d = (.ok a, d') := exists_run_ok h

theorem look_apply (f : Disk → Except ε α) (d : Disk) : look f d = (f d, d) := rfl

theorem adapt_apply (f : ε → δ) (x : Change ε α) (d : Disk) :
    (ExceptT.adapt f x : Change δ α) d = ((x d).1.mapError f, (x d).2) := rfl

theorem adapt_ok_iff {f : ε → δ} {x : Change ε α} {d d' : Disk} {a : α} :
    (ExceptT.adapt f x : Change δ α) d = (.ok a, d') ↔ x d = (.ok a, d') := by
  rw [adapt_apply, Prod.mk.injEq, mapError_eq_ok_iff, Prod.ext_iff]

theorem ofDisk_cases (f : Disk → Except ε Disk) (d : Disk) :
    (∃ e, f d = .error e ∧ ofDisk f d = (.error e, d)) ∨
      ∃ d', f d = .ok d' ∧ ofDisk f d = (.ok (), d') := by
  unfold ofDisk
  cases hf : f d with
  | error e => exact Or.inl ⟨e, rfl, rfl⟩
  | ok d' => exact Or.inr ⟨d', rfl, rfl⟩

end Change

end ModBuild
