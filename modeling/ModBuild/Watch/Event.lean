import ModBuild.Disk.Basic

/-!
# File events

The system tells what happened below the source folder in notifications. A file event is what is
left of one: something was added, changed or removed. A rename is a removal, an addition or both.
-/

namespace ModBuild.Watch

inductive NotificationKind
  | created
  | folderCreated
  | renamedFrom
  | renamedTo
  /-- Both names are told, the old one first. -/
  | renamed
  | modified
  | removed
  | folderRemoved
  /-- Nothing that a file event comes from. -/
  | other
  deriving DecidableEq, Repr

structure Notification where
  kind : NotificationKind
  paths : List FilePath
  deriving DecidableEq, Repr

inductive FileEvent
  | added (path : FilePath)
  | changed (path : FilePath)
  | removed (path : FilePath)
  | folderAdded (path : FilePath)
  | folderRemoved (path : FilePath)
  deriving DecidableEq, Repr

namespace FileEvent

def path : FileEvent → FilePath
  | added p | changed p | removed p | folderAdded p | folderRemoved p => p

/-- What came is a folder when there is one now. -/
def arrived (d : Disk) (p : FilePath) : FileEvent :=
  if d.isFolder p then .folderAdded p else .added p

/-- The events of a notification that arrives while the disk is `d`. -/
def ofNotification (d : Disk) (n : Notification) : List FileEvent :=
  match n.kind with
  | .created | .renamedTo => n.paths.map (arrived d)
  | .folderCreated => n.paths.map .folderAdded
  | .renamedFrom | .removed => n.paths.map .removed
  | .renamed =>
    match n.paths with
    | [old, new] => [.removed old, arrived d new]
    | _ => []
  | .modified => (n.paths.filter d.isFile).map .changed
  | .folderRemoved => n.paths.map .folderRemoved
  | .other => []

/-- What has become of a location between two looks at the disk. -/
def ofChange? (path : FilePath) : Option Entry → Option Entry → Option FileEvent
  | none, some .folder => some (.folderAdded path)
  | none, some (.file _) => some (.added path)
  | some .folder, none => some (.folderRemoved path)
  | some (.file _), none => some (.removed path)
  | some (.file a), some (.file b) => if a = b then none else some (.changed path)
  | some .folder, some (.file _) => some (.added path)
  | some (.file _), some .folder => some (.folderAdded path)
  | _, _ => none

/-- The events below a folder between two looks at the disk, outer locations first. -/
def between (old new : Disk) (dir : Location) : List FileEvent :=
  let known := (old.entries ++ new.entries).map (·.1)
  let below := (known.filter fun l => dir.isPrefixOf l && decide (l ≠ dir)).eraseDups
  (below.mergeSort fun a b => a.length ≤ b.length).filterMap fun l =>
    ofChange? (Disk.pathOf l) (old.get? l) (new.get? l)

end FileEvent

end ModBuild.Watch
