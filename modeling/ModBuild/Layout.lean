import ModBuild.Path.Basic
import ModBuild.Scope

/-!
# Layout of the output

A mod has one folder, named by its id, inside the output folder. Lua goes below `media/lua`, one
folder for each scope. A layout says where that folder is and which source folder holds external
modules; `Layout.place` finds the place of a compiled unit.
-/

namespace ModBuild

structure Layout where
  /-- The folder of the mod. -/
  modDir : FilePath
  /-- Name of the folder with third-party modules. -/
  externalDir : String := "node_modules"
  deriving DecidableEq, Repr

/-- The rule that placed a unit. -/
inductive Rule
  /-- The runtime bundle of the compiler, kept once in the shared folder. -/
  | bundle
  /-- A third-party module, moved below the shared folder. -/
  | external
  | scoped
  /-- Outside every scope folder. -/
  | unscoped
  deriving DecidableEq, Repr

structure Placement where
  /-- Path below `media/lua`. -/
  relative : String
  path : FilePath
  scope : Scope
  rule : Rule
  deriving DecidableEq, Repr

namespace Layout

def ofMod (outDir : FilePath) (modId : String) : Layout := { modDir := outDir.join modId }

def mediaDir (l : Layout) : FilePath := l.modDir.join "media"

def luaRoot (l : Layout) : FilePath := l.mediaDir.join "lua"

def scopeDir (l : Layout) (s : Scope) : FilePath :=
  match s.folder? with
  | some folder => l.luaRoot.join folder
  | none => l.luaRoot

/-- A slash path below the Lua root. -/
def luaPath (l : Layout) (relative : String) : FilePath :=
  (SlashPath.segments relative).foldl FilePath.join l.luaRoot

/-- The file in which the compiler collects its runtime support. -/
def bundleName : String := "lualib_bundle.lua"

/-- The place below the Lua root, by the first rule that fits. -/
def placeSegments (l : Layout) (parts : List String) : String × Scope × Rule :=
  if parts.getLast? = some bundleName then
    (SlashPath.ofSegments ["shared", bundleName], .shared, .bundle)
  else if l.externalDir ∈ parts then
    let below := (parts.dropWhile (· ≠ l.externalDir)).tail
    (SlashPath.ofSegments ("shared" :: below), .shared, .external)
  else
    let relative := SlashPath.ofSegments parts
    match Scope.classify relative with
    | .none => (relative, .none, .unscoped)
    | scope => (relative, scope, .scoped)

/-- Where the unit declared at `declared` is written. -/
def place (l : Layout) (declared : String) : Placement :=
  let (relative, scope, rule) :=
    l.placeSegments (SlashPath.segments (SlashPath.normalize declared))
  { relative := relative, path := l.luaPath relative, scope := scope, rule := rule }

end Layout

end ModBuild
