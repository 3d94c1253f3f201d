import ModBuild.Json.Basic
import ModBuild.Rebinding.Plan

/-!
# Settings

The settings of a project, `pipewrench.json`. Every key may be missing and then has its default.
-/

namespace ModBuild

structure Settings where
  outDir : String := "dist"
  modelsDir : String := "src/models"
  texturesDir : String := "src/textures"
  soundDir : String := "src/sound"
  scriptsDir : String := "src/scripts"
  /-- Lua files that are copied into the shared folder. -/
  runtimeLibraries : List String := [
    "node_modules/@shughesuk/pipewrench/PipeWrench.lua",
    "node_modules/@shughesuk/pipewrench-events/PipeWrench-Events.lua",
    "node_modules/@shughesuk/pipewrench-utils/PipeWrench-Utils.lua"]
  externalModuleDir : String := "node_modules"
  /-- The command that runs the compiler. -/
  compiler : String := "npx tstl"
  bridgeAlias : String := "____PipeWrench"
  bootEvent : String := "OnPipeWrenchBoot"
  deriving DecidableEq, Repr

namespace Settings

def fileName : String := "pipewrench.json"

def toJson (s : Settings) : Json :=
  .object [
    ("outDir", .string s.outDir),
    ("modelsDir", .string s.modelsDir),
    ("texturesDir", .string s.texturesDir),
    ("soundDir", .string s.soundDir),
    ("scriptsDir", .string s.scriptsDir),
    ("runtimeLibraries", .array (s.runtimeLibraries.map .string)),
    ("externalModuleDir", .string s.externalModuleDir),
    ("compiler", .string s.compiler),
    ("bridgeAlias", .string s.bridgeAlias),
    ("bootEvent", .string s.bootEvent)]

/-- The text of the settings file. -/
def text (s : Settings) : String := s.toJson.pretty

/-- The keys, in the order in which they are written. -/
def keys : List String := [
  "outDir", "modelsDir", "texturesDir", "soundDir", "scriptsDir", "runtimeLibraries",
  "externalModuleDir", "compiler", "bridgeAlias", "bootEvent"]

def textOf? : Json → Option String
  | .string text => some text
  | _ => none

def textsOf? : Json → Option (List String)
  | .array items => items.mapM textOf?
  | _ => none

/-- The value of a key that may be missing. -/
def field? {α : Type} (fields : List (String × Json)) (key : String) (read : Json → Option α)
    (default : α) : Option α :=
  match fields.lookup key with
  | some value => read value
  | none => some default

/-- The settings with these fields, unless one has an unknown key or the wrong type. -/
def ofFields? (fields : List (String × Json)) : Option Settings := do
  let defaults : Settings := {}
  if !fields.all fun field => keys.contains field.1 then none
  return {
    outDir := ← field? fields "outDir" textOf? defaults.outDir
    modelsDir := ← field? fields "modelsDir" textOf? defaults.modelsDir
    texturesDir := ← field? fields "texturesDir" textOf? defaults.texturesDir
    soundDir := ← field? fields "soundDir" textOf? defaults.soundDir
    scriptsDir := ← field? fields "scriptsDir" textOf? defaults.scriptsDir
    runtimeLibraries := ← field? fields "runtimeLibraries" textsOf? defaults.runtimeLibraries
    externalModuleDir := ← field? fields "externalModuleDir" textOf? defaults.externalModuleDir
    compiler := ← field? fields "compiler" textOf? defaults.compiler
    bridgeAlias := ← field? fields "bridgeAlias" textOf? defaults.bridgeAlias
    bootEvent := ← field? fields "bootEvent" textOf? defaults.bootEvent }

/-- The settings that a document holds, whether or not the schema allows its texts. The items of a
list stand for the keys in their order. -/
def ofJson? : Json → Option Settings
  | .object fields => ofFields? fields
  | .array items => if items.length ≤ keys.length then ofFields? (keys.zip items) else none
  | _ => none

def template (s : Settings) : Rebinding.Template :=
  { bridge := s.bridgeAlias, event := s.bootEvent }

end Settings

end ModBuild
