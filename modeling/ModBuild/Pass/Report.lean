import ModBuild.Decimal
import ModBuild.Diagnostic.Report
import ModBuild.Emission

/-!
# Pass reports

What a finished pass did: how many units it wrote and skipped, how many files it copied, which
warnings it raised and how long it took.
-/

namespace ModBuild

structure Duration where
  seconds : Nat := 0
  nanoseconds : Nat := 0
  deriving DecidableEq, Repr

/-- Seconds with three places, taken from the double nearest to the duration. -/
def Duration.label (t : Duration) : String :=
  let whole := t.seconds + t.nanoseconds / Nat.pow 10 9
  let part := t.nanoseconds % Nat.pow 10 9
  let f := whole.toUInt64.toFloat + part.toUInt64.toFloat / 1000000000.0
  Decimal.places 3 (.ofFloat f)

structure PassReport where
  written : Nat := 0
  skipped : Nat := 0
  copied : Nat := 0
  report : Report := {}
  elapsed : Duration := {}
  deriving DecidableEq, Repr

namespace PassReport

/-- Counts the outcomes and keeps their diagnostics, with the texts they point into. -/
def record (r : PassReport) (units : List CompiledUnit) (outcomes : List Outcome) : PassReport :=
  let sources := units.foldl (fun report u => report.addSource u.path u.text) r.report
  { r with
    written := r.written + (outcomes.filter Outcome.isWritten).length
    skipped := r.skipped + (outcomes.filter fun o => !o.isWritten).length
    report := sources.add (outcomes.flatMap Outcome.diagnostics) }

def summary (r : PassReport) : String :=
  "Compilation complete. Took " ++ r.elapsed.label ++ " second(s). " ++
    Text.decimal r.written ++ " written, " ++ Text.decimal r.skipped ++ " skipped, " ++
    Text.decimal r.copied ++ " copied, " ++ Text.decimal r.report.warningCount ++ " warning(s)."

end PassReport

end ModBuild
