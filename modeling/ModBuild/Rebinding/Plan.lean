import ModBuild.Rebinding.Declaration

/-!
# Rebinding

The game may load a module before the bridge to its objects is filled, so a local that reads the
bridge at load time can hold nothing. Functions of the module already close over that local, hence
it suffices to assign the same locals again when the boot event fires.

A plan lists the declarations to repeat and knows the return that ends the module. Rendering puts one
block of assignments in front of that return, or at the end when there is none.
-/

namespace ModBuild.Rebinding

/-- What the block of a mod looks like. -/
structure Template where
  /-- The local that the compiler binds the bridge to. -/
  bridge : String := "____PipeWrench"
  /-- The event that fires once the bridge is filled. -/
  event : String := "OnPipeWrenchBoot"
  deriving DecidableEq, Repr

/-- A module-scope local whose initializer reads the bridge. -/
structure Binding where
  identifier : String
  /-- The member path that is read first. -/
  member : String
  /-- The declaration without its keyword. -/
  assignment : String
  line : Nat
  deriving DecidableEq, Repr

namespace Template

def blockStart : String := "-- PIPEWRENCH --"

def blockEnd : String := "----------------"

/-- The lines that repeat `assignments` when the event fires. -/
def blockLines (t : Template) (assignments : List String) : List String :=
  [blockStart, "Events." ++ t.event ++ ".Add(function()"] ++
    assignments.map ("  " ++ ·) ++ ["end)", blockEnd]

def block (t : Template) (assignments : List String) : String :=
  String.join ((t.blockLines assignments).map (· ++ "\n"))

end Template

/-- The member path after the first `alias.` that does not continue a longer name. `last` is the
character right before the text. -/
def memberAfter? (bridge : List Char) (last : Option Char) (cs : List Char) :
    Option (List Char) :=
  match _h : Text.cut? (bridge ++ ['.']) cs with
  | none => none
  | some (before, after) =>
    if (before.getLast?.or last).any Text.isNameChar then memberAfter? bridge (some '.') after
    else
      some (Text.dropEndWhile (· = '.') (after.takeWhile fun c => Text.isNameChar c || c = '.'))
termination_by cs.length
decreasing_by
  have := Text.length_of_cut? _h
  simp only [List.length_append, List.length_cons, List.length_nil] at this
  omega

/-- The line without its keyword and without blanks and semicolons at its end. -/
def assignmentOf (line : List Char) : List Char :=
  Text.dropEndWhile (fun c => Text.isBlank c || c = ';')
    (Text.trimStart (line.drop Declaration.keyword.length))

/-- The binding on one line, if the line declares other locals than the bridge and reads it. -/
def Binding.ofLine? (t : Template) (number : Nat) (line : List Char) : Option Binding :=
  match Declaration.ofLine? line with
  | some d =>
    if t.bridge.toList ∈ d.nameList then none
    else
      (memberAfter? t.bridge.toList none d.initializer).map fun member =>
        { identifier := .ofList d.names
          member := .ofList member
          assignment := .ofList (assignmentOf line)
          line := number }
  | none => none

def isReturn (line : List Char) : Bool :=
  line = "return".toList || "return ".toList.isPrefixOf line ||
    "return\t".toList.isPrefixOf line || "return;".toList.isPrefixOf line

/-- The module cut before the return on its last line, blanks at its end left out. -/
def cutReturn? (cs : List Char) : Option (List Char × List Char) :=
  let body := Text.trimEnd cs
  let line := Text.lastLine body
  if isReturn line then some (body.take (body.length - line.length), line) else none

structure Plan where
  bindings : List Binding
  /-- The text before the return of the module, and the return. -/
  ending : Option (List Char × List Char)
  deriving DecidableEq, Repr

namespace Plan

def analyze (t : Template) (text : String) : Plan where
  bindings := (Text.lines text.toList).zipIdx.filterMap fun (line, i) =>
    Binding.ofLine? t (i + 1) line
  ending := cutReturn? text.toList

def isBreak (c : Char) : Bool := c = '\n' || c = '\r'

/-- A module without bindings stays as it is. -/
def render (p : Plan) (t : Template) (text : String) : String :=
  if p.bindings.isEmpty then text
  else
    let block := t.block (p.bindings.map (·.assignment))
    match p.ending with
    | some (before, line) =>
      .ofList (Text.dropEndWhile isBreak before) ++ "\n\n" ++ block ++ .ofList line ++ "\n"
    | none => .ofList (Text.dropEndWhile isBreak text.toList) ++ "\n\n" ++ block

end Plan

/-- The module with its block, where it needs one. -/
def rebind (t : Template) (text : String) : String := (Plan.analyze t text).render t text

end ModBuild.Rebinding
