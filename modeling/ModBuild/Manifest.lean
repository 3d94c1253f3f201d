import ModBuild.Diagnostic.Basic
import ModBuild.Similarity

/-!
# Manifest

The manifest `mod.info` says what a mod is called. It has one `key=value` entry on a line; keys are
compared without case, the last entry of a key counts, and entries with other keys are kept in
order. It is written with the line breaks that the game ships.
-/

namespace ModBuild

structure Manifest where
  id : String
  name : String
  poster : String
  description : String
  url : Option String := none
  require : List String := []
  /-- Entries that this tool does not interpret. -/
  extra : List (String × String) := []
  deriving DecidableEq, Repr

/-- The required fields that a manifest lacks or leaves empty. -/
structure MissingFields where
  file : String
  fields : List String
  deriving DecidableEq, Repr

def MissingFields.message (e : MissingFields) : String :=
  e.file ++ " is missing required field(s): " ++ ", ".intercalate e.fields

namespace Manifest

def fileName : String := "mod.info"

def knownKeys : List String := ["id", "name", "poster", "description", "url", "require"]

def requiredKeys : List String := ["id", "name", "poster", "description"]

/-- The manifest of a new mod. -/
def initial : Manifest where
  id := "MyFirst"
  name := "My First Mod"
  poster := "poster.png"
  description := "ModDescription"
  url := some "https://theindiestone.com"

/-- A line of the file, blanks around key and value dropped. -/
structure Entry where
  key : List Char
  value : List Char
  deriving DecidableEq, Repr

namespace Entry

def ofLine? (line : List Char) : Option Entry :=
  (Text.cut? ['='] line).map fun r => ⟨Text.trim r.1, Text.trim r.2⟩

def hasKey (key : String) (e : Entry) : Bool := Text.lower e.key = key.toList

def isKnown (e : Entry) : Bool := knownKeys.any fun key => e.hasKey key

end Entry

def entries (content : String) : List Entry :=
  (Text.lines content.toList).filterMap Entry.ofLine?

/-- The value of the last entry with the key. -/
def value? (es : List Entry) (key : String) : Option (List Char) :=
  (es.reverse.find? (Entry.hasKey key)).map (·.value)

def listItems (value : List Char) : List String :=
  (((Text.split ',' value).map Text.trim).filter fun item => !item.isEmpty).map String.ofList

def missing (es : List Entry) : List String :=
  requiredKeys.filter fun key => ((value? es key).getD []).isEmpty

def ofEntries (es : List Entry) : Manifest :=
  let text (key : String) : String := .ofList ((value? es key).getD [])
  { id := text "id"
    name := text "name"
    poster := text "poster"
    description := text "description"
    url := (value? es "url").map String.ofList
    require := ((value? es "require").map listItems).getD []
    extra := (es.filter fun e => !e.isKnown).map fun e => (.ofList e.key, .ofList e.value) }

/-- Every missing field is reported at once. -/
def parse (content file : String) : Except MissingFields Manifest :=
  let es := entries content
  let fields := missing es
  if fields.isEmpty then .ok (ofEntries es) else .error ⟨file, fields⟩

def lines (m : Manifest) : List String :=
  ["name=" ++ m.name, "poster=" ++ m.poster, "id=" ++ m.id, "description=" ++ m.description] ++
    (m.url.map ("url=" ++ ·)).toList ++
    (if m.require.isEmpty then [] else ["require=" ++ ",".intercalate m.require]) ++
    m.extra.map fun e => e.1 ++ "=" ++ e.2

def text (m : Manifest) : String := "\r\n".intercalate m.lines

def misspelledWarning (file key known : String) : Diagnostic where
  severity := .warning
  code := Diagnostic.unknownManifestKey
  message := "unknown key `" ++ key ++ "` in " ++ fileName
  span := Span.wholeFile file
  help := some ("did you mean `" ++ known ++ "`?")

/-- The known key that a foreign one is close to. -/
def suggestion? (key : String) : Option String :=
  (Similarity.similarNames (.ofList (Text.lower key.toList)) knownKeys 0.85 1).head?

def lint (m : Manifest) (file : String) : List Diagnostic :=
  m.extra.filterMap fun e => (suggestion? e.1).map (misspelledWarning file e.1)

end Manifest

end ModBuild
