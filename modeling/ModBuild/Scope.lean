import ModBuild.Path.Slash

/-!
# Scopes

The game loads each of the folders `client`, `server` and `shared` into a flat namespace of its
own. A scope says into which of them a piece of code belongs, if into any.
-/

namespace ModBuild

inductive Scope
  | client
  | server
  | shared
  /-- Outside the three folders; the game never loads such code. -/
  | none
  deriving DecidableEq, Repr, Inhabited

namespace Scope

/-- The scopes that own a folder, in the order in which folders are visited. -/
def owners : List Scope := [client, server, shared]

def folder? : Scope → Option String
  | client => some "client"
  | server => some "server"
  | shared => some "shared"
  | none => Option.none

/-- Only the exact folder name counts. -/
def ofFolder (name : String) : Scope :=
  if name = "client" then client
  else if name = "server" then server
  else if name = "shared" then shared
  else none

def label (s : Scope) : String := s.folder?.getD "none"

/-- The scope of a slash path is that of its first segment. -/
def classify (path : String) : Scope :=
  match SlashPath.segments path with
  | first :: _ => ofFolder first
  | [] => none

theorem classify_eq (path : String) :
    classify path = ((SlashPath.segments path).head?.map ofFolder).getD .none := by
  unfold classify
  cases SlashPath.segments path <;> rfl

/-- Client and server are loaded on different machines and cannot see each other. -/
def canReference : Scope → Scope → Bool
  | client, server => false
  | server, client => false
  | _, _ => true

theorem ofFolder_folder {s : Scope} {name : String} (h : s.folder? = some name) :
    ofFolder name = s := by
  cases s <;> simp_all [folder?] <;> subst h <;> rfl

end Scope

end ModBuild
