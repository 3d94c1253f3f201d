import ModBuild.Pass.Build
import ModBuild.Proofs.Pass.Folder

/-!
# Ways to copy

The copies of a pass can be run with any way to copy one file of a folder, in any kind of task that has
the tasks of a session as parts. A relation that passes from the parts of a task to the whole holds
between two runs of the copies as soon as it holds between their ways to copy one file.
-/

namespace ModBuild

set_option autoImplicit false

open Component (IsName)

variable {m n : Type → Type} [Monad m] [MonadExceptOf Failure m] [MonadLiftT (Task Failure) m]
variable [Monad n] [MonadExceptOf Failure n] [MonadLiftT (Task Failure) n]

/-- The relation passes from the parts of a task to the whole, when every name on a disk that is looked
at has the property. -/
structure Compatible (Name : String → Prop) (R : ∀ α : Type, m α → n α → Prop) : Prop where
  pure {α : Type} (a : α) : R α (pure a) (pure a)
  throw {α : Type} (f : Failure) : R α (throw f) (throw f)
  bind {α β : Type} {x : m α} {y : n α} {f : α → m β} {g : α → n β} (hx : R α x y)
    (hf : ∀ a, R β (f a) (g a)) : R β (x >>= f) (y >>= g)
  disk {α : Type} {f : Disk → m α} {g : Disk → n α}
    (hf : ∀ d : Disk, (∀ l, ∀ name ∈ d.names l, Name name) → R α (f d) (g d)) :
    R α ((Task.disk : Task Failure Disk) >>= f) ((Task.disk : Task Failure Disk) >>= g)

namespace Compatible

open Assets

variable {Name : String → Prop} {R : ∀ α : Type, m α → n α → Prop} {α β : Type}
variable (h : Compatible Name R) (copy : FilePath → FilePath → m Unit) (copy' : FilePath → FilePath → n Unit)
include h

theorem foldlM {f : β → α → m β} {g : β → α → n β} {xs : List α}
    (hstep : ∀ x ∈ xs, ∀ b, R β (f b x) (g b x)) (b : β) : R β (xs.foldlM f b) (xs.foldlM g b) := by
  induction xs generalizing b with
  | nil => exact h.pure b
  | cons x xs ih =>
    rw [List.foldlM_cons, List.foldlM_cons]
    refine h.bind (hstep x List.mem_cons_self b) fun b' => ?_
    exact ih (fun y hy => hstep y (List.mem_cons_of_mem x hy)) b'

section Walk

variable (Enters : FilePath → Prop) {skipSources : Bool} {top target dir : FilePath} {name : String}
variable (hjoin : ∀ dir name, Enters dir → Name name → Enters (dir.join name))
variable (hcopy : ∀ dir name, Enters dir → Name name →
  ¬(skipSources = true ∧ isSource (dir.join name) = true) →
    R Unit (copy (dir.join name) (target.join ((top.relativeTo? (dir.join name)).getD (dir.join name)).text))
      (copy' (dir.join name) (target.join ((top.relativeTo? (dir.join name)).getD (dir.join name)).text)))
include hjoin hcopy

theorem mirrorEntry (below : FilePath → m Nat) (below' : FilePath → n Nat)
    (hbelow : ∀ path, Enters path → R Nat (below path) (below' path)) (d : Disk) (l : Location)
    (hdir : Enters dir) (hname : Name name) (copied : Nat) :
    R Nat (mirrorEntryBy copy skipSources top target below d l dir copied name)
      (mirrorEntryBy copy' skipSources top target below' d l dir copied name) := by
  unfold mirrorEntryBy
  dsimp only
  rcases d.get? (l ++ [name]) with _ | _ | _
  · exact h.pure _
  · dsimp only
    split
    · exact h.pure _
    · next hskip =>
      rw [Bool.and_eq_true] at hskip
      exact h.bind (hcopy dir name hdir hname hskip) fun _ => h.pure _
  · exact h.bind (hbelow _ (hjoin dir name hdir hname)) fun _ => h.pure _

theorem mirrorFolder (depth : Nat) (hdir : Enters dir) :
    R Nat (mirrorFolderBy copy skipSources top target depth dir)
      (mirrorFolderBy copy' skipSources top target depth dir) := by
  induction depth generalizing dir with
  | zero => exact h.throw _
  | succ depth ih =>
    unfold mirrorFolderBy
    refine h.disk fun d hnames => ?_
    cases d.locate dir with
    | error fault => exact h.throw _
    | ok l =>
      exact h.foldlM (fun name hname =>
        h.mirrorEntry copy copy' Enters hjoin hcopy _ _ (fun _ => ih) d l hdir (hnames l name hname)) 0

theorem mirror (htop : Enters top) :
    R Nat (mirrorBy copy top target skipSources) (mirrorBy copy' top target skipSources) := by
  refine h.disk fun d _ => ?_
  split
  · exact h.mirrorFolder copy copy' Enters hjoin hcopy _ htop
  · exact h.pure 0

end Walk

section Project

variable {p : Project} (hmirror : ∀ f ∈ p.mirroredFolders,
  R Nat (mirrorBy copy f.source (f.target p.layout) f.skipSources)
    (mirrorBy copy' f.source (f.target p.layout) f.skipSources))
include hmirror

theorem copyScopeFiles : R Nat (copyScopeFilesBy copy p) (copyScopeFilesBy copy' p) := by
  refine h.foldlM (fun s hs _ => h.bind ?_ fun _ => h.pure _) 0
  have hrelated := hmirror _ (MirroredFolder.ofScope_mem hs)
  rwa [MirroredFolder.target_ofScope hs] at hrelated

theorem copyAssetDirs : R Nat (copyAssetDirsBy copy p) (copyAssetDirsBy copy' p) :=
  h.foldlM (fun _ hdir _ => h.bind (hmirror _ (MirroredFolder.ofAssets_mem hdir)) fun _ => h.pure _) 0

theorem copyAll
    (hmanifest : R Unit (copyManifest p : Task Failure Unit) (copyManifest p : Task Failure Unit))
    (hlibraries : R (List Diagnostic) (copyRuntimeLibraries p : Task Failure (List Diagnostic))
      (copyRuntimeLibraries p : Task Failure (List Diagnostic))) :
    R _ (Builder.copyAllBy copy p) (Builder.copyAllBy copy' p) :=
  h.bind hmanifest fun _ => h.bind (h.copyScopeFiles copy copy' hmirror) fun _ =>
    h.bind (h.copyAssetDirs copy copy' hmirror) fun _ => h.bind hlibraries fun _ => h.pure _

end Project

end Compatible

end ModBuild
