import ModBuild.Disk.Change
import ModBuild.Unit

/-!
# Emission

The units of a batch are written independently of each other, in any order. Collisions are looked
for before anything is written; only bundles may share a file, and of these the one that is written
last stays.
-/

namespace ModBuild

inductive EmissionError
  | makeFolder (path : FilePath) (fault : Fault)
  | write (path : FilePath) (fault : Fault)
  | collision (collision : Collision)
  deriving DecidableEq, Repr

namespace EmissionError

def message : EmissionError → String
  | makeFolder path fault => "failed to create directory " ++ path.text ++ ": " ++ fault.message
  | write path fault => "failed to write " ++ path.text ++ ": " ++ fault.message
  | collision c => c.message

/-- The message and its causes. -/
def chain (e : EmissionError) : List String :=
  match e with
  | makeFolder _ fault | write _ fault => [e.message, fault.message]
  | collision _ => [e.message]

/-- The form in which a mistake in the units is reported. A fault of the disk is none. -/
def diagnostic? : EmissionError → Option Diagnostic
  | collision c => some c.diagnostic
  | _ => none

end EmissionError

/-- What became of a unit. -/
inductive Outcome
  | skipped (unit : String) (reason : Skip)
  | written (unit : String) (place : Placement) (diagnostics : List Diagnostic) (rebound : Nat)
  deriving DecidableEq, Repr

namespace Outcome

def diagnostics : Outcome → List Diagnostic
  | skipped _ _ => []
  | written _ _ ds _ => ds

def isWritten : Outcome → Bool
  | skipped _ _ => false
  | written _ _ _ _ => true

end Outcome

/-- What all units of a batch share. -/
structure Emission where
  layout : Layout
  template : Rebinding.Template
  deriving DecidableEq, Repr

namespace Emission

def place (e : Emission) (u : CompiledUnit) : Placement := e.layout.place u.path

def transform (e : Emission) (u : CompiledUnit) : Transformed :=
  u.transform (e.place u).rule e.template

def outcome (e : Emission) (u : CompiledUnit) : Outcome :=
  match u.skip? with
  | some reason => .skipped u.path reason
  | none =>
    let t := e.transform u
    .written u.path (e.place u) t.diagnostics t.rebound

/-- One unit; a skipped one leaves no trace. -/
def writeUnit (e : Emission) (u : CompiledUnit) : Change EmissionError Unit :=
  if u.skip?.isSome then pure ()
  else do
    let path := (e.place u).path
    match path.parent? with
    | some above => (Change.makeFolders above).adapt (.makeFolder above)
    | none => pure ()
    (Change.writeText path (e.transform u).text).adapt (.write path)

/-- Writes the units in the order `schedule`; the outcomes are those of `units`. -/
def emitScheduled (e : Emission) (schedule units : List CompiledUnit) :
    Change EmissionError (List Outcome) :=
  match Collision.find? e.layout units with
  | some c => throw (.collision c)
  | none => do
    schedule.forM e.writeUnit
    pure (units.map e.outcome)

def emit (e : Emission) (units : List CompiledUnit) : Change EmissionError (List Outcome) :=
  e.emitScheduled units units

end Emission

end ModBuild
