import ModBuild.Text.Basic

/-!
# Slash paths

Compiled units and their output are named by relative paths that are written with `/` only. A path
is normalized once, when a unit is made; everything later works on its segments.
-/

namespace ModBuild.SlashPath

/-- The path without trailing slashes; a path that is one slash stays. -/
def dropTrailingSlashes : List Char → List Char
  | [] => []
  | c :: cs => c :: Text.dropEndWhile (· = '/') cs

def normalizeChars (cs : List Char) : List Char :=
  dropTrailingSlashes (cs.map fun c => if c = '\\' then '/' else c)

/-- Backslashes become slashes and trailing slashes go. -/
def normalize (path : String) : String := .ofList (normalizeChars path.toList)

def segmentsOfChars (cs : List Char) : List (List Char) :=
  (Text.split '/' cs).filter fun part => !part.isEmpty && part ≠ ['.']

/-- The parts between slashes that name something: neither empty nor `.`. -/
def segments (path : String) : List String :=
  (segmentsOfChars path.toList).map String.ofList

/-- Segments written with one slash between neighbours. -/
def ofSegments (parts : List String) : String := "/".intercalate parts

end ModBuild.SlashPath
