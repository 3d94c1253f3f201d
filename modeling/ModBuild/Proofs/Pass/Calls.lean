import ModBuild.Proofs.Pass.Composed

/-!
# Calls of a pass

The copies of a pass do not call the compiler, and neither does the emission. A pass that succeeds
has called the compiler once.
-/

namespace ModBuild

set_option autoImplicit false

open ModBuild.Task (Calls)

namespace Builder

theorem calls_copyAll (p : Project) : Calls 0 (copyAll p) := (composed_copyAll p).calls

theorem calls_compile (b : Builder) (p : Project) : Calls 1 (b.compile p) := by
  refine (Task.calls_change _ _).bind_after fun markers => Task.calls_disk.bind_after fun found =>
    (Task.calls_called _ _).bind_before fun _ => (Task.calls_result _).bind_after fun answer =>
      (Task.calls_change _ _).bind_after fun _ => ?_
  split
  · exact Task.calls_pure _
  · exact Task.calls_throw _ 0

theorem calls_emit (p : Project) (r : PassReport) (units : List CompiledUnit) :
    Calls 0 (emit p r units) := by
  refine (Task.calls_result _).bind_after fun answer => ?_
  split
  · exact Task.calls_pure _
  · exact (Task.calls_report _).bind_after fun _ => Task.calls_throw _ 0

theorem calls_build (b : Builder) : Calls 1 b.build :=
  (Task.calls_look _).bind_after fun p => (Task.calls_status _ _ _).bind_after fun _ =>
    (calls_copyAll p).bind_after fun _ => (calls_compile b p).bind_before fun _ =>
      (calls_emit p _ _).bind_after fun _ => (Task.calls_report _).bind_after fun _ =>
        (Task.calls_status _ _ _).bind_after fun _ => Task.calls_pure _

end Builder

end ModBuild
