import ModBuild.Text.Basic

/-!
# Scripts

A compiler is started by a shell script. This module has the commands that a script is made of:
words, redirections, lists, pipes, branches and loops. Functions, `case`, arithmetic and file name
patterns are not supplied.
-/

namespace ModBuild.Script

inductive Part
  | text (chars : List Char)
  | parameter (name : String)
  /-- A parameter, or the word in `source` when the parameter is empty. -/
  | fallback (name : String) (source : List Char)
  /-- What the commands in `source` print. -/
  | output (source : List Char)
  deriving DecidableEq, Repr

structure Piece where
  part : Part
  /-- A quoted piece is not cut at blanks. -/
  quoted : Bool
  deriving DecidableEq, Repr

abbrev Word := List Piece

namespace Word

/-- The text of a word without quotes and expansions. -/
def plain? (w : Word) : Option (List Char) :=
  (w.mapM fun (piece : Piece) =>
    match piece with
    | ⟨.text chars, false⟩ => some chars
    | _ => none).map List.flatten

/-- The name and the value of an assignment. -/
def assignment? : Word → Option (List Char × Word)
  | ⟨.text [c], false⟩ :: w =>
    if c = '=' then some ([], w)
    else if Text.isNameChar c then (assignment? w).map fun r => (c :: r.1, r.2)
    else none
  | _ => none

def isAssignment (w : Word) : Bool :=
  match assignment? w with
  | some (c :: _, _) => Text.isNameStart c
  | _ => false

/-- Whether commands are run to find out what the word is. -/
def isSubstituted (w : Word) : Bool :=
  w.any fun piece =>
    match piece.part with
    | .output _ => true
    | _ => false

end Word

/-- What a stream is connected to. -/
inductive Target
  | create (word : Word)
  | append (word : Word)
  | read (word : Word)
  | stream (number : Nat)
  deriving DecidableEq, Repr

structure Redirection where
  stream : Nat
  target : Target
  deriving DecidableEq, Repr

inductive Command
  | nothing
  | simple (line : Nat) (words : List Word) (redirections : List Redirection)
  | redirected (line : Nat) (body : Command) (redirections : List Redirection)
  | sequence (first second : Command)
  | both (first second : Command)
  | either (first second : Command)
  | negated (body : Command)
  | pipe (first second : Command)
  | branch (condition yes no : Command)
  | repeated (expected : Bool) (condition body : Command)
  | each (name : String) (words : List Word) (body : Command)
  /-- Runs on a copy of the shell. -/
  | separate (body : Command)
  deriving Repr

end ModBuild.Script
