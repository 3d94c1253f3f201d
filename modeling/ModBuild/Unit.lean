import ModBuild.Layout
import ModBuild.Rebinding.Plan
import ModBuild.Reference.Rewriting

/-!
# Compiled units

A unit is one file that the compiler hands back. It is skipped, or placed and transformed: its
references are rewritten and its early bindings are repeated at boot. Two units that would be
written to one file collide, unless both are the runtime bundle.
-/

namespace ModBuild

structure CompiledUnit where
  /-- Normalized path below the output root of the compiler. -/
  path : String
  text : String
  deriving DecidableEq, Repr

/-- Why a unit is not written. -/
inductive Skip
  /-- A placeholder for a source without effects. -/
  | empty
  /-- Types only. -/
  | declaration
  deriving DecidableEq, Repr

/-- A unit ready to be written. -/
structure Transformed where
  text : String
  diagnostics : List Diagnostic
  /-- Number of bindings repeated at boot. -/
  rebound : Nat
  deriving DecidableEq, Repr

namespace CompiledUnit

def ofPath (path text : String) : CompiledUnit := ⟨SlashPath.normalize path, text⟩

/-- The scope in which the unit was declared. -/
def scope (u : CompiledUnit) : Scope := Scope.classify u.path

def isDeclaration (u : CompiledUnit) : Bool :=
  ".d.ts".toList.isSuffixOf (Text.lower u.path.toList)

def skip? (u : CompiledUnit) : Option Skip :=
  if u.text = "" then some .empty else if u.isDeclaration then some .declaration else none

def unloadableWarning (u : CompiledUnit) : Diagnostic where
  severity := .warning
  code := Diagnostic.unloadableOutput
  message := "`" ++ u.path ++ "` is outside client/server/shared"
  span := Span.wholeFile u.path
  notes := ["the game only loads Lua from media/lua/\x7bclient,server,shared\x7d"]

/-- The runtime bundle is written as it is. -/
def transform (u : CompiledUnit) (rule : Rule) (t : Rebinding.Template) : Transformed :=
  if rule = .bundle then ⟨u.text, [], 0⟩
  else
    let early := if rule = .unscoped then [u.unloadableWarning] else []
    let rewriting := Reference.rewrite u.scope u.text u.path
    let plan := Rebinding.Plan.analyze t rewriting.text
    { text := plan.render t rewriting.text
      diagnostics := early ++ rewriting.diagnostics
      rebound := plan.bindings.length }

end CompiledUnit

/-- Two units that would be written to the same file. -/
structure Collision where
  path : FilePath
  first : String
  second : String
  deriving DecidableEq, Repr

namespace Collision

def message (c : Collision) : String :=
  "`" ++ c.first ++ "` and `" ++ c.second ++ "` both resolve to " ++ c.path.text

def diagnostic (c : Collision) : Diagnostic where
  severity := .error
  code := Diagnostic.outputCollision
  message := "`" ++ c.first ++ "` and `" ++ c.second ++ "` resolve to the same output file"
  span := Span.ofPath c.path
  help := some ("rename one of them so only one writes " ++ c.path.text)

/-- Goes through the units in order; `claimed` has the files of those before. -/
def search (l : Layout) : List (FilePath × String) → List CompiledUnit → Option Collision
  | _, [] => none
  | claimed, u :: us =>
    let place := l.place u.path
    if u.skip?.isSome || place.rule = .bundle then search l claimed us
    else
      match claimed.find? fun c => c.1.Same place.path with
      | some (_, first) => some ⟨place.path, first, u.path⟩
      | none => search l ((place.path, u.path) :: claimed) us

/-- The first collision of a batch. -/
def find? (l : Layout) (units : List CompiledUnit) : Option Collision := search l [] units

end Collision

end ModBuild
