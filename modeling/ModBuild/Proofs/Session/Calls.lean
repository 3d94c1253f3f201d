import ModBuild.Session
import ModBuild.Proofs.Disk.Run

/-!
# Calls of the compiler

A task is described by the number of calls that it makes when it succeeds; a task that fails has
made no more. The numbers of two tasks add up when one follows the other, so a task that never
calls the compiler may stand anywhere.
-/

namespace ModBuild.Task

set_option autoImplicit false

variable {ε ε' α β : Type} {s : Session}

theorem record_apply (e : Event) (s : Session) :
    (record e : Task ε Unit) s = (.ok (), { s with journal := s.journal ++ [e] }) := rfl

theorem disk_apply (s : Session) : (disk : Task ε Disk) s = (.ok s.disk, s) := rfl

theorem result_apply (c : Change ε α) (s : Session) :
    (result c : Task ε' (Except ε α)) s = (.ok (c s.disk).1, { s with disk := (c s.disk).2 }) := rfl

theorem change_apply (wrap : ε → ε') (c : Change ε α) (s : Session) :
    change wrap c s = ((c s.disk).1.mapError wrap, { s with disk := (c s.disk).2 }) := by
  unfold change
  rw [run_bind, result_apply]
  dsimp only
  cases (c s.disk).1 <;> rfl

/-- An error that is wrapped twice is wrapped once in both. -/
theorem change_adapt {δ : Type} (wrap : ε → ε') (f : δ → ε) (c : Change δ α) :
    change wrap (ExceptT.adapt f c) = change (wrap ∘ f) c := by
  funext s
  rw [change_apply, change_apply, Change.adapt_apply]
  rcases c s.disk with ⟨e | a, d⟩ <;> rfl

theorem change_ok_iff {wrap : ε → ε'} {c : Change ε α} {a : α} {s' : Session} :
    change wrap c s = (.ok a, s') ↔ ∃ d, c s.disk = (.ok a, d) ∧ s' = { s with disk := d } := by
  rw [change_apply]
  rcases c s.disk with ⟨e | a', d⟩
  · constructor
    · intro h
      cases h
    · rintro ⟨d', h, -⟩
      cases h
  · constructor
    · intro h
      cases h
      exact ⟨d, rfl, rfl⟩
    · rintro ⟨d', h, rfl⟩
      cases h
      rfl

theorem look_apply (f : Disk → Except ε α) (s : Session) : look f s = (f s.disk, s) := by
  unfold look
  rw [run_bind, disk_apply]
  dsimp only
  cases f s.disk <;> rfl

/-- The task calls the compiler `n` times when it succeeds, and at most as often when it fails. -/
def Calls (n : Nat) (x : Task ε α) : Prop :=
  ∀ s, ∃ made, (x s).2.calls = s.calls ++ made ∧ made.length ≤ n ∧
    ((x s).1.toBool = true → made.length = n)

theorem calls_of_journal {x : Task ε α} (h : ∀ s, (x s).2.journal = s.journal) : Calls 0 x := by
  intro s
  refine ⟨[], ?_, Nat.le_refl 0, fun _ => rfl⟩
  rw [Session.calls, h, List.append_nil]
  rfl

theorem Calls.calls_eq {x : Task ε α} (h : Calls 0 x) (s : Session) : (x s).2.calls = s.calls := by
  obtain ⟨made, hcalls, hle, -⟩ := h s
  rw [hcalls, List.length_eq_zero_iff.mp (Nat.le_zero.mp hle), List.append_nil]

theorem Calls.of_run {x : Task ε α} {r : Except ε α} {s' : Session} (h : Calls 0 x)
    (hrun : x s = (r, s')) : s'.calls = s.calls := by
  have hcalls := h.calls_eq s
  rwa [hrun] at hcalls

theorem calls_pure (a : α) : Calls 0 (pure a : Task ε α) := calls_of_journal fun _ => rfl

theorem calls_throw (e : ε) (n : Nat) : Calls n (throw e : Task ε α) := by
  intro s
  refine ⟨[], (List.append_nil _).symm, Nat.zero_le n, ?_⟩
  intro h
  cases h

theorem calls_disk : Calls 0 (disk : Task ε Disk) := calls_of_journal fun _ => rfl

theorem calls_result (c : Change ε α) : Calls 0 (result c : Task ε' (Except ε α)) :=
  calls_of_journal fun _ => rfl

theorem calls_change (wrap : ε → ε') (c : Change ε α) : Calls 0 (change wrap c) :=
  calls_of_journal fun s => by rw [change_apply]

theorem calls_look (f : Disk → Except ε α) : Calls 0 (look f) :=
  calls_of_journal fun s => by rw [look_apply]

theorem calls_status (stage : Stage) (tone : Tone) (message : String) :
    Calls 0 (status stage tone message : Task ε Unit) := by
  intro s
  refine ⟨[], ?_, Nat.le_refl 0, fun _ => rfl⟩
  unfold status
  rw [record_apply]
  simp [Session.calls]

theorem calls_report (r : Report) : Calls 0 (record (.report r) : Task ε Unit) := by
  intro s
  refine ⟨[], ?_, Nat.le_refl 0, fun _ => rfl⟩
  rw [record_apply]
  simp [Session.calls]

theorem calls_called (r : CompileRequest) (found : Disk) :
    Calls 1 (record (.called r found) : Task ε Unit) := by
  intro s
  refine ⟨[(r, found)], ?_, Nat.le_refl 1, fun _ => rfl⟩
  rw [record_apply]
  simp [Session.calls]

theorem Calls.bind {m n : Nat} {x : Task ε α} {f : α → Task ε β} (hx : Calls m x)
    (hf : ∀ a, Calls n (f a)) : Calls (m + n) (x >>= f) := by
  intro s
  obtain ⟨made, hcalls, hle, hok⟩ := hx s
  rw [run_bind]
  rcases hrun : x s with ⟨r, s₁⟩
  rw [hrun] at hcalls hok
  cases r with
  | error e =>
    refine ⟨made, hcalls, Nat.le_add_right_of_le hle, ?_⟩
    intro h
    cases h
  | ok a =>
    obtain ⟨made', hcalls', hle', hok'⟩ := hf a s₁
    refine ⟨made ++ made', ?_, ?_, ?_⟩
    · rw [hcalls', hcalls, List.append_assoc]
    · rw [List.length_append]
      exact Nat.add_le_add hle hle'
    · intro h
      rw [List.length_append, hok rfl, hok' h]

theorem Calls.bind_after {n : Nat} {x : Task ε α} {f : α → Task ε β} (hx : Calls 0 x)
    (hf : ∀ a, Calls n (f a)) : Calls n (x >>= f) := Nat.zero_add n ▸ hx.bind hf

theorem Calls.bind_before {n : Nat} {x : Task ε α} {f : α → Task ε β} (hx : Calls n x)
    (hf : ∀ a, Calls 0 (f a)) : Calls n (x >>= f) := hx.bind hf

theorem calls_foldlM {f : β → α → Task ε β} {xs : List α} (h : ∀ b, ∀ x ∈ xs, Calls 0 (f b x))
    (b : β) : Calls 0 (xs.foldlM f b) := by
  induction xs generalizing b with
  | nil => exact calls_pure b
  | cons x xs ih =>
    rw [List.foldlM_cons]
    exact (h b x List.mem_cons_self).bind_after
      fun b' => ih (fun b y hy => h b y (List.mem_cons_of_mem x hy)) b'

end ModBuild.Task
