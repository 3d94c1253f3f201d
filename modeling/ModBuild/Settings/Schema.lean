import ModBuild.Json.Parser
import ModBuild.Settings.Basic

/-!
# The schema of the settings

Each key has a shape. A document is checked as a whole, and everything that is wrong with it is
reported: the values in the order of their keys, then the unknown keys.
-/

namespace ModBuild

/-- What a value looks like. -/
inductive Shape
  /-- A text that is not empty. -/
  | text
  /-- A name of the script language. -/
  | name
  /-- A list of texts that are not empty. -/
  | texts
  deriving DecidableEq, Repr

inductive Violation
  | wrongType (place : List String) (found : Json) (expected : String)
  | empty (place : List String)
  | noName (place : List String) (found : String)
  | unknownKeys (keys : List String)
  deriving Repr, BEq

namespace Violation

def namePattern : String := "^[A-Za-z_][A-Za-z0-9_]*$"

def pointer (place : List String) : String := String.join (place.map ("/" ++ ·))

def located (place : List String) (text : String) : String :=
  if place.isEmpty then text else pointer place ++ ": " ++ text

def message : Violation → String
  | wrongType place found expected =>
    located place (found.compact ++ " is not of type \"" ++ expected ++ "\"")
  | empty place => located place "\"\" is shorter than 1 character"
  | noName place found =>
    located place ((Json.string found).compact ++ " does not match \"" ++ namePattern ++ "\"")
  | unknownKeys keys =>
    let listed := ", ".intercalate (keys.map fun key => "'" ++ key ++ "'")
    "Additional properties are not allowed (" ++ listed ++
      (if keys.length = 1 then " was" else " were") ++ " unexpected)"

end Violation

namespace Settings

/-- The keys in order, with their shapes. -/
def schema : List (String × Shape) := [
  ("bootEvent", .name), ("bridgeAlias", .name), ("compiler", .text),
  ("externalModuleDir", .text), ("modelsDir", .text), ("outDir", .text),
  ("runtimeLibraries", .texts), ("scriptsDir", .text), ("soundDir", .text),
  ("texturesDir", .text)]

def isName (text : String) : Bool :=
  match text.toList with
  | c :: cs => Text.isNameStart c && cs.all Text.isNameChar
  | [] => false

def textViolations (place : List String) : Json → List Violation
  | .string text => if text = "" then [.empty place] else []
  | found => [.wrongType place found "string"]

def nameViolations (place : List String) : Json → List Violation
  | .string text => if isName text then [] else [.noName place text]
  | found => [.wrongType place found "string"]

def violationsOf (place : List String) : Shape → Json → List Violation
  | .text, value => textViolations place value
  | .name, value => nameViolations place value
  | .texts, .array items =>
    items.zipIdx.flatMap fun (item, i) => textViolations (place ++ [Text.decimal i]) item
  | .texts, found => [.wrongType place found "array"]

/-- What the schema says against the value of a key, if there is one. -/
def keyViolations (fields : List (String × Json)) (entry : String × Shape) : List Violation :=
  match fields.lookup entry.1 with
  | some value => violationsOf [entry.1] entry.2 value
  | none => []

def unknownKeys (fields : List (String × Json)) : List String :=
  (fields.map (·.1)).filter fun key => (schema.lookup key).isNone

/-- Everything in a document that the schema does not allow. -/
def violations : Json → List Violation
  | .object fields =>
    let unknown := unknownKeys fields
    schema.flatMap (keyViolations fields) ++ if unknown.isEmpty then [] else [.unknownKeys unknown]
  | found => [.wrongType [] found "object"]

end Settings

/-- Why a settings file is refused. -/
inductive SettingsError
  | notJson (file : String)
  | invalid (file : String) (violations : List Violation)
  deriving Repr, BEq

/-- The text of a refusal by the schema. -/
def SettingsError.invalidText (file : String) (violations : List String) : String :=
  file ++ " failed validation:\n" ++ "\n".intercalate (violations.map ("  - " ++ ·))

def SettingsError.message : SettingsError → String
  | notJson file => file ++ " is not valid JSON"
  | invalid file violations => invalidText file (violations.map Violation.message)

namespace Settings

/-- Reads the document, checks it against the schema and takes the settings from it. -/
def parse (content file : String) : Except SettingsError Settings :=
  match Json.parse? content with
  | none => .error (.notJson file)
  | some j =>
    match violations j with
    | [] =>
      match ofJson? j with
      | some settings => .ok settings
      | none => .error (.notJson file)
    | found => .error (.invalid file found)

end Settings

end ModBuild
