import ModBuild.Diagnostic.Ink
import ModBuild.Diagnostic.Span

/-!
# Diagnostics

A diagnostic is a warning or an error about a place in a text. It is printed as a header, a snippet
of the line it points at when the text is known, and notes.
-/

namespace ModBuild

inductive Severity
  | error
  | warning
  deriving DecidableEq, Repr

namespace Severity

def name : Severity → String
  | error => "error"
  | warning => "warning"

def style : Severity → Style
  | error => { bold := true, color := some .red }
  | warning => { bold := true, color := some .yellow }

def label (ink : Ink) (s : Severity) : String := s.style.paint ink s.name

end Severity

structure Diagnostic where
  severity : Severity
  code : String
  message : String
  span : Span
  notes : List String := []
  help : Option String := none
  deriving DecidableEq, Repr

namespace Diagnostic

def crossScopeReference : String := "W0101"

def unloadableOutput : String := "W0201"

def outputCollision : String := "E0202"

def unknownManifestKey : String := "W0301"

def missingRuntimeLibrary : String := "W0302"

def accent : Style := { bold := true, color := some .cyan }

def header (ink : Ink) (d : Diagnostic) : String :=
  d.severity.label ink ++ "[" ++ d.code ++ "]: " ++ Style.paint ink { bold := true } d.message ++
    "\n " ++ accent.paint ink "-->" ++ " " ++ d.span.label ++ "\n"

def trailer (ink : Ink) (d : Diagnostic) : String :=
  let note (text : String) : String :=
    " " ++ accent.paint ink "=" ++ " " ++ Style.paint ink { color := some .cyan } text ++ "\n"
  let help (text : String) : String :=
    " " ++ Style.paint ink { bold := true, color := some .green } "help:" ++ " " ++ text ++ "\n"
  String.join (d.notes.map note) ++ (d.help.map help).getD ""

def blanks (n : Nat) : String := .ofList (List.replicate n ' ')

/-- Columns are machine words, so the widest one wraps around. -/
def wordSize : Nat := Nat.pow 2 64

/-- The number of the quoted line fills at least two places. -/
def gutterWidth (line : Nat) : Nat := max (Text.decimal line).length 2

/-- The quoted line with the span underlined. -/
def snippetOf (ink : Ink) (d : Diagnostic) (line : List Char) : String :=
  let width := gutterWidth d.span.line
  let gutter := Style.paint ink { color := some .cyan } (blanks (width + 1))
  let number := Text.decimal d.span.line
  let padding := blanks ((d.span.column - 1 + 2) % wordSize)
  let carets : String := .ofList (List.replicate (max d.span.length 1) '^')
  " " ++ gutter ++ "\n" ++
    " " ++ accent.paint ink (blanks (width - number.length) ++ number) ++ " " ++
      accent.paint ink "|" ++ " " ++ .ofList line ++ "\n" ++
    " " ++ gutter ++ padding ++ d.severity.style.paint ink carets ++ "\n"

/-- Nothing is quoted for a whole file or for a line that the text does not have. -/
def snippet (ink : Ink) (d : Diagnostic) (source : String) : String :=
  if d.span.line = 0 then ""
  else
    match (Text.lines source.toList)[d.span.line - 1]? with
    | some line => d.snippetOf ink line
    | none => ""

/-- The diagnostic without its source. -/
def summary (ink : Ink) (d : Diagnostic) : String := d.header ink ++ d.trailer ink

def format (ink : Ink) (d : Diagnostic) (source : String) : String :=
  d.header ink ++ d.snippet ink source ++ d.trailer ink

end Diagnostic

end ModBuild
