import ModBuild.Path.Basic

/-!
# Spans

A span points into a text by line and column, both counted from one, the column in bytes. Line zero
stands for a whole file.
-/

namespace ModBuild

structure Span where
  file : String
  line : Nat
  column : Nat
  length : Nat
  deriving DecidableEq, Repr, Inhabited

namespace Span

/-- The whole file, without a place inside it. -/
def wholeFile (file : String) : Span := ⟨file, 0, 0, 0⟩

def ofPath (p : FilePath) : Span := wholeFile p.text

/-- The place reached after the text `before`, on the line that is still open there. -/
def afterText (file : String) (before : List Char) (length : Nat) : Span where
  file := file
  line := before.count '\n' + 1
  column := Text.byteCount (Text.lastLine before) + 1
  length := length

/-- The bytes from `start` to `stop` of `source`. A start behind the end counts as the end, one
inside a character as the beginning; a span covers at least one byte. -/
def ofBytes (file source : String) (start stop : Nat) : Span :=
  let cs := source.toList
  let before := (Text.takeBytes? (min start (Text.byteCount cs)) cs).getD []
  afterText file before (max (stop - start) 1)

def label (s : Span) : String :=
  if s.line = 0 then s.file
  else s.file ++ ":" ++ Text.decimal s.line ++ ":" ++ Text.decimal s.column

end Span

end ModBuild
