import ModBuild.Console
import ModBuild.Failure
import ModBuild.Pass.Report

/-!
# Sessions

A session is the disk together with a journal of what was told on the way and of the calls that the
compiler got. A task runs in a session and may fail; what it did before stays done.
-/

namespace ModBuild

inductive Event
  | status (stage : Stage) (tone : Tone) (message : String)
  /-- Diagnostics with their totals. -/
  | report (report : Report)
  /-- Plain text on the console. -/
  | notice (text : String)
  /-- A call of the compiler and the disk that it found. -/
  | called (request : CompileRequest) (found : Disk)

structure Session where
  disk : Disk
  /-- In order of time. -/
  journal : List Event := []

namespace Session

/-- What went to standard output. -/
def output (ink : Ink) (s : Session) : String :=
  String.join (s.journal.map fun
    | .status stage tone message => statusLine ink stage tone message
    | .notice text => text
    | _ => "")

/-- What went to standard error. -/
def errors (ink : Ink) (s : Session) : String :=
  String.join (s.journal.map fun
    | .report r => r.renderAll ink ++ r.totals ink
    | _ => "")

/-- The calls of the compiler. -/
def calls (s : Session) : List (CompileRequest × Disk) :=
  s.journal.filterMap fun
    | .called request found => some (request, found)
    | _ => none

end Session

abbrev Task (ε α : Type) := ExceptT ε (StateM Session) α

namespace Task

variable {ε ε' α : Type}

def record (e : Event) : Task ε Unit := modify fun s => { s with journal := s.journal ++ [e] }

def status (stage : Stage) (tone : Tone) (message : String) : Task ε Unit :=
  record (.status stage tone message)

def disk : Task ε Disk := do return (← get).disk

/-- The result of a change, which is no failure of the task. -/
def result (c : Change ε α) : Task ε' (Except ε α) := fun s =>
  let (r, d) := c s.disk
  (.ok r, { s with disk := d })

/-- A change whose errors are failures of the task. -/
def change (wrap : ε → ε') (c : Change ε α) : Task ε' α := do
  match ← result c with
  | .ok a => pure a
  | .error e => throw (wrap e)

/-- A look at the disk that may fail. -/
def look (f : Disk → Except ε α) : Task ε α := do
  match f (← disk) with
  | .ok a => pure a
  | .error e => throw e

end Task

end ModBuild
