import ModBuild.Pass.Build
import ModBuild.Watch.Plan

/-!
# Batches

The events of a short time are handled together: the actions in order, and one rebuild at the end if
any of them asks for it.
-/

namespace ModBuild.Watch

/-- Carries out an action and says whether it asks for a rebuild. -/
def Action.apply : Action → Task Failure Bool
  | ignore => return false
  | rebuild => return true
  | copy source target => do
    Task.status .watcher .info ("File changed: " ++ source.text)
    match target.parent? with
    | some above => Task.change (.makeFolder above) (Change.makeFolders above)
    | none => pure ()
    Task.change (.copy source target) (Change.copy source target)
    return false
  | remove target => do
    let d ← Task.disk
    if d.isFolder target then
      Task.change (.remove target) (Change.removeFolder target)
      Task.status .watcher .info ("Deleted directory: " ++ target.text)
    else if d.isThere target then
      Task.change (.remove target) (Change.removeFile target)
      Task.status .watcher .info ("Deleted file: " ++ target.text)
    return false
  | makeFolder target => do
    if !(← Task.disk).isThere target then
      Task.change (.makeFolder target) (Change.makeFolders target)
      Task.status .watcher .info ("Created directory: " ++ target.text)
    return false

/-- Whether any of the actions asks for a rebuild. -/
def applyAll (actions : List Action) : Task Failure Bool :=
  actions.foldlM (fun rebuild a => do return (← a.apply) || rebuild) false

def handle (b : Builder) (events : List FileEvent) : Task Failure Unit := do
  let p ← Task.look fun d => Project.load d b.root
  if ← applyAll (events.map (plan (.ofProject p))) then
    let _ ← b.build

/-- A batch that fails is told about and watching goes on. -/
def respond (b : Builder) (events : List FileEvent) : StateM Session Unit := do
  if events.isEmpty then return
  match ← (handle b events).run with
  | .ok _ => return
  | .error f =>
    let _ ← (Task.status .watcher .warn f.message : Task Failure Unit).run
    return

/-- Up to the point from which events are awaited: the builder with its root resolved, as events
have full paths. -/
def start (b : Builder) : Task Failure Builder := do
  let d ← Task.disk
  match d.canonical b.root with
  | .error fault => throw (.resolve b.root fault)
  | .ok root =>
    let src := root.join "src"
    match d.find? src with
    | .error fault => throw (.watch src fault)
    | .ok _ =>
      Task.status .watcher .success ("Watching " ++ src.text ++ "..")
      return { b with root := root }

end ModBuild.Watch
