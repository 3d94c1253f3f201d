import ModBuild.Text.Basic

/-!
# JSON values

A value keeps numbers as the text they are written with. The fields of an object are in the order of
their keys when a document was read, and in any order when a value is built to be written.
-/

namespace ModBuild

inductive Json
  | null
  | bool (value : Bool)
  | number (text : String)
  | string (text : String)
  | array (items : List Json)
  | object (fields : List (String × Json))
  deriving Repr, BEq, Inhabited

namespace Json

def hexDigit (n : Nat) : Char := (Nat.toDigits 16 (n % 16)).headD '0'

/-- A character inside quotes. -/
def escape (c : Char) : List Char :=
  if c = '"' then ['\\', '"']
  else if c = '\\' then ['\\', '\\']
  else if c = '\n' then ['\\', 'n']
  else if c = '\r' then ['\\', 'r']
  else if c = '\t' then ['\\', 't']
  else if c.toNat = 8 then ['\\', 'b']
  else if c.toNat = 12 then ['\\', 'f']
  else if c.toNat < 32 then ['\\', 'u', '0', '0', hexDigit (c.toNat / 16), hexDigit c.toNat]
  else [c]

def quoted (text : String) : List Char := '"' :: text.toList.flatMap escape ++ ['"']

/-- Separators and line breaks of a layout: `indent` blanks for each level, or all on one line. -/
structure Spacing where
  indent : Option Nat
  deriving DecidableEq, Repr

namespace Spacing

/-- The break before an item at depth `depth`. -/
def lineBreak (s : Spacing) (depth : Nat) : List Char :=
  match s.indent with
  | some n => '\n' :: List.replicate (n * depth) ' '
  | none => []

def colon (s : Spacing) : List Char := if s.indent.isSome then [':', ' '] else [':']

end Spacing

/-- Items between brackets; nothing stands between the brackets of an empty list. -/
def bracketed (s : Spacing) (depth : Nat) (first last : Char) (items : List (List Char)) :
    List Char :=
  if items.isEmpty then [first, last]
  else
    let broken := items.map fun item => s.lineBreak (depth + 1) ++ item
    first :: Text.joinWith [','] broken ++ s.lineBreak depth ++ [last]

mutual

def write (s : Spacing) (depth : Nat) : Json → List Char
  | null => "null".toList
  | bool true => "true".toList
  | bool false => "false".toList
  | number text => text.toList
  | string text => quoted text
  | array items => bracketed s depth '[' ']' (writeItems s (depth + 1) items)
  | object fields => bracketed s depth '{' '}' (writeFields s (depth + 1) fields)

def writeItems (s : Spacing) (depth : Nat) : List Json → List (List Char)
  | [] => []
  | item :: items => write s depth item :: writeItems s depth items

def writeFields (s : Spacing) (depth : Nat) : List (String × Json) → List (List Char)
  | [] => []
  | (key, value) :: fields =>
    (quoted key ++ s.colon ++ write s depth value) :: writeFields s depth fields

end

/-- On one line, without blanks. -/
def compact (j : Json) : String := .ofList (write ⟨none⟩ 0 j)

/-- One item on a line, two blanks for each level. -/
def pretty (j : Json) : String := .ofList (write ⟨some 2⟩ 0 j)

end Json

end ModBuild
