import ModBuild.Diagnostic.Basic

/-!
# Reports

A report collects diagnostics in the order in which they are raised, together with the texts that
their spans point into.
-/

namespace ModBuild

structure Report where
  diagnostics : List Diagnostic := []
  /-- Texts by file name, the latest first. -/
  sources : List (String × String) := []
  deriving DecidableEq, Repr

namespace Report

def add (r : Report) (ds : List Diagnostic) : Report :=
  { r with diagnostics := r.diagnostics ++ ds }

/-- A later text of the same file hides the earlier one. -/
def addSource (r : Report) (file text : String) : Report :=
  { r with sources := (file, text) :: r.sources }

def count (r : Report) (s : Severity) : Nat :=
  (r.diagnostics.filter fun d => d.severity = s).length

def errorCount (r : Report) : Nat := r.count .error

def warningCount (r : Report) : Nat := r.count .warning

/-- A diagnostic is quoted when the text of its file is known. -/
def render (ink : Ink) (r : Report) (d : Diagnostic) : String :=
  match r.sources.lookup d.span.file with
  | some source => d.format ink source
  | none => d.summary ink

/-- Every diagnostic, each followed by an empty line. -/
def renderAll (ink : Ink) (r : Report) : String :=
  String.join (r.diagnostics.map fun d => r.render ink d ++ "\n")

def totalLine (ink : Ink) (s : Severity) (n : Nat) : String :=
  if n = 0 then ""
  else
    s.label ink ++ ": " ++ Text.decimal n ++ " " ++ s.name ++ (if n = 1 then "" else "s") ++
      " emitted\n"

def totals (ink : Ink) (r : Report) : String :=
  totalLine ink .error r.errorCount ++ totalLine ink .warning r.warningCount

@[simp] theorem diagnostics_add (r : Report) (ds : List Diagnostic) :
    (r.add ds).diagnostics = r.diagnostics ++ ds := rfl

@[simp] theorem diagnostics_addSource (r : Report) (file text : String) :
    (r.addSource file text).diagnostics = r.diagnostics := rfl

end Report

end ModBuild
