import ModBuild.Scope

/-!
# Module references

The compiler names a module by a dotted path from the source root. The game wants slashes, and
because each scope is a namespace of its own it wants the path without the scope folder.
-/

namespace ModBuild

structure Reference where
  /-- The target as the compiler writes it. -/
  dotted : String
  /-- The scope named by the folder that was dropped. -/
  scope : Scope
  /-- Slash path without the scope folder. -/
  path : String
  deriving DecidableEq, Repr

namespace Reference

def slashed (dotted : List Char) : List Char := dotted.map fun c => if c = '.' then '/' else c

/-- The scope folder is dropped only when something may follow it. -/
def ofDotted (dotted : String) : Reference :=
  let path := slashed dotted.toList
  match Text.cut? ['/'] path with
  | some (first, rest) =>
    match Scope.ofFolder (.ofList first) with
    | .none => ⟨dotted, .none, .ofList path⟩
    | scope => ⟨dotted, scope, .ofList rest⟩
  | none => ⟨dotted, .none, .ofList path⟩

/-- The call that the game understands. -/
def call (r : Reference) : String := "require('" ++ r.path ++ "')"

end Reference

end ModBuild
