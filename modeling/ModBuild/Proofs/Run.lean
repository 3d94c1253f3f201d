import Mathlib.Order.Defs.Unbundled

/-!
# Running a computation that may fail

Changes of a disk and tasks of a session are computations of one kind: they pass a state on, may
fail, and keep what they did before they failed. A sequence of two is taken apart here once for
every kind of state. `Respects` says that a relation holds between the states before and after,
however the computation ends; for a preorder it passes from the parts of a computation to the whole.
-/

namespace ModBuild

set_option autoImplicit false

variable {σ ε δ α β : Type}

theorem run_bind (x : ExceptT ε (StateM σ) α) (f : α → ExceptT ε (StateM σ) β) (s : σ) :
    (x >>= f) s =
      match x s with
      | (.ok a, s') => f a s'
      | (.error e, s') => (.error e, s') := by
  change ExceptT.bindCont f (x s).1 (x s).2 = _
  rcases x s with ⟨r, s'⟩
  cases r <;> rfl

theorem run_bind_ok_iff {x : ExceptT ε (StateM σ) α} {f : α → ExceptT ε (StateM σ) β} {s s' : σ}
    {b : β} : (x >>= f) s = (.ok b, s') ↔ ∃ a s₁, x s = (.ok a, s₁) ∧ f a s₁ = (.ok b, s') := by
  rw [run_bind]
  rcases x s with ⟨r, s₁⟩
  cases r with
  | error e =>
    constructor
    · intro h
      cases h
    · rintro ⟨a, s₂, h, -⟩
      cases h
  | ok a =>
    constructor
    · intro h
      exact ⟨a, s₁, rfl, h⟩
    · rintro ⟨a', s₂, h, hf⟩
      cases h
      exact hf

theorem exists_run_ok {x : ExceptT ε (StateM σ) α} {s : σ} (h : (x s).1.toBool = true) :
    ∃ a s', x s = (.ok a, s') := by
  rcases hrun : x s with ⟨r, s'⟩
  rw [hrun] at h
  cases r with
  | error e => cases h
  | ok a => exact ⟨a, s', rfl⟩

/-- Every result of the computation has the property. -/
def Yields (P : α → Prop) (x : ExceptT ε (StateM σ) α) : Prop :=
  ∀ s a s', x s = (.ok a, s') → P a

theorem yields_pure {P : α → Prop} {a : α} (h : P a) :
    Yields P (pure a : ExceptT ε (StateM σ) α) := by
  intro s a' s' hrun
  cases hrun
  exact h

theorem Yields.bind {P : α → Prop} {Q : β → Prop} {x : ExceptT ε (StateM σ) α}
    {f : α → ExceptT ε (StateM σ) β} (hx : Yields P x) (hf : ∀ a, P a → Yields Q (f a)) :
    Yields Q (x >>= f) := by
  intro s b s' hrun
  obtain ⟨a, s₁, hfirst, hrest⟩ := run_bind_ok_iff.mp hrun
  exact hf a (hx s a s₁ hfirst) s₁ b s' hrest

theorem yields_bind {Q : β → Prop} {x : ExceptT ε (StateM σ) α} {f : α → ExceptT ε (StateM σ) β}
    (hf : ∀ a, Yields Q (f a)) : Yields Q (x >>= f) :=
  Yields.bind (P := fun _ => True) (fun _ _ _ _ => trivial) fun a _ => hf a

def Respects (R : σ → σ → Prop) (x : ExceptT ε (StateM σ) α) : Prop := ∀ s, R s (x s).2

section Respects

variable {R : σ → σ → Prop}

theorem Respects.of_run {x : ExceptT ε (StateM σ) α} {s s' : σ} {r : Except ε α}
    (h : Respects R x) (hrun : x s = (r, s')) : R s s' := by
  have hs := h s
  rw [hrun] at hs
  exact hs

theorem Respects.adapt {x : ExceptT ε (StateM σ) α} (h : Respects R x) (f : ε → δ) :
    Respects R (ExceptT.adapt f x : ExceptT δ (StateM σ) α) :=
  fun s => h s

variable [IsPreorder σ R]

theorem respects_pure (a : α) : Respects R (pure a : ExceptT ε (StateM σ) α) := fun s => refl s

theorem respects_throw (e : ε) : Respects R (throw e : ExceptT ε (StateM σ) α) := fun s => refl s

theorem Respects.bind {x : ExceptT ε (StateM σ) α} {f : α → ExceptT ε (StateM σ) β}
    (hx : Respects R x) (hf : ∀ a, Respects R (f a)) : Respects R (x >>= f) := by
  intro s
  rw [run_bind]
  rcases hrun : x s with ⟨r, s₁⟩
  have hs := hx.of_run hrun
  cases r with
  | error e => exact hs
  | ok a => exact Trans.trans hs (hf a s₁)

theorem respects_forM {xs : List β} {f : β → ExceptT ε (StateM σ) Unit}
    (h : ∀ x ∈ xs, Respects R (f x)) : Respects R (xs.forM f) := by
  induction xs with
  | nil => exact respects_pure ()
  | cons x xs ih =>
    exact (h x List.mem_cons_self).bind fun _ => ih fun y hy => h y (List.mem_cons_of_mem x hy)

theorem respects_foldlM {xs : List α} {f : β → α → ExceptT ε (StateM σ) β}
    (h : ∀ x ∈ xs, ∀ b, Respects R (f b x)) (b : β) : Respects R (xs.foldlM f b) := by
  induction xs generalizing b with
  | nil => exact respects_pure b
  | cons x xs ih =>
    rw [List.foldlM_cons]
    exact (h x List.mem_cons_self b).bind
      fun b' => ih (fun y hy => h y (List.mem_cons_of_mem x hy)) b'

/-- A property that is not lost. -/
def Keeps (P : σ → Prop) (s s' : σ) : Prop := P s → P s'

instance (P : σ → Prop) : IsPreorder σ (Keeps P) where
  refl _ := id
  trans _ _ _ h₁ h₂ := h₂ ∘ h₁

theorem exists_turn_of_foldlM_ok {xs : List α} {f : β → α → ExceptT ε (StateM σ) β} {b b' : β}
    {s s' : σ} {x : α}
    (h : ∀ x ∈ xs, ∀ b, Respects R (f b x)) (hrun : xs.foldlM f b s = (.ok b', s')) (hx : x ∈ xs) :
    ∃ b₁ s₁ b₂ s₂, R s s₁ ∧ f b₁ x s₁ = (.ok b₂, s₂) ∧ R s₂ s' := by
  induction xs generalizing b s with
  | nil => cases hx
  | cons first xs ih =>
    have hrest : ∀ y ∈ xs, ∀ b, Respects R (f b y) :=
      fun y hy => h y (List.mem_cons_of_mem first hy)
    rw [List.foldlM_cons, run_bind_ok_iff] at hrun
    obtain ⟨b₁, s₁, hfirst, hloop⟩ := hrun
    rcases List.mem_cons.mp hx with rfl | hx
    · exact ⟨b, s, b₁, s₁, refl s, hfirst, (respects_foldlM hrest b₁).of_run hloop⟩
    · obtain ⟨b₂, s₂, b₃, s₃, hbefore, hturn, hafter⟩ := ih hrest hloop hx
      exact ⟨b₂, s₂, b₃, s₃,
        Trans.trans ((h first List.mem_cons_self b).of_run hfirst) hbefore, hturn, hafter⟩

theorem exists_turn_of_forM_ok {xs : List α} {f : α → ExceptT ε (StateM σ) Unit} {s s' : σ} {x : α}
    (h : ∀ x ∈ xs, Respects R (f x)) (hrun : xs.forM f s = (.ok (), s')) (hx : x ∈ xs) :
    ∃ s₁ s₂, R s s₁ ∧ f x s₁ = (.ok (), s₂) ∧ R s₂ s' := by
  induction xs generalizing s with
  | nil => cases hx
  | cons first xs ih =>
    have hrest : ∀ y ∈ xs, Respects R (f y) := fun y hy => h y (List.mem_cons_of_mem first hy)
    obtain ⟨_, s₁, hfirst, hloop⟩ := run_bind_ok_iff.mp hrun
    rcases List.mem_cons.mp hx with rfl | hx
    · exact ⟨s, s₁, refl s, hfirst, (respects_forM hrest).of_run hloop⟩
    · obtain ⟨s₂, s₃, hbefore, hturn, hafter⟩ := ih hrest hloop hx
      exact ⟨s₂, s₃, Trans.trans ((h first List.mem_cons_self).of_run hfirst) hbefore, hturn, hafter⟩

end Respects

end ModBuild
