import ModBuild.CommandLine

/-!
# The program

Reads the tree that a command can work on, runs the command on it, and writes what has changed back.
Links are not followed.
-/

namespace ModBuild.Program

/-- What is below a folder of the machine, with locations below `place`. -/
partial def readTree (folder : IO.FS.DirEntry) (place : Location) :
    IO (List (Location × Entry)) := do
  let mut found := []
  for entry in ← folder.path.readDir do
    let here := place ++ [entry.fileName]
    match (← entry.path.symlinkMetadata).type with
    | .dir => found := (here, .folder) :: (← readTree entry here) ++ found
    | .file => found := (here, .file (← IO.FS.readBinFile entry.path)) :: found
    | _ => pure ()
  return found

/-- The names of a path from the root. -/
def locationOf (path : String) : Location :=
  (path.splitOn "/").filter fun name => name ≠ "" && name ≠ "."

/-- The folder in which the program was started, the folder that it is told to work in, and the way
to both. -/
def readDisk (told : Option String) : IO Disk := do
  let here ← IO.currentDir
  let start := locationOf here.toString
  let other := here / told.getD "."
  let reached ← if ← other.isDir then IO.FS.realPath other else pure here
  let tops := [start, locationOf reached.toString].eraseDups
  let mut entries := [(Compiler.tmpDir.parts.map String.ofList |>.tail, Entry.folder)]
  for top in tops do
    for n in List.range top.length do
      entries := (top.take (n + 1), Entry.folder) :: entries
    if !(top ≠ start && start.isPrefixOf top) then
      entries := (← readTree ⟨(Disk.pathOf top).text, "."⟩ top) ++ entries
  return { entries := entries, workingDir := start }

/-- Makes the machine look like `new` where it differs from `old`. -/
def writeDisk (old new : Disk) : IO Unit := do
  for (l, e) in old.entries.mergeSort fun a b => b.1.length ≤ a.1.length do
    if (new.get? l).isNone then
      match e with
      | .file _ => IO.FS.removeFile (Disk.pathOf l).text
      | .folder => IO.FS.removeDirAll (Disk.pathOf l).text
  for (l, e) in new.entries.mergeSort fun a b => a.1.length ≤ b.1.length do
    if old.get? l ≠ some e then
      match e with
      | .file content => IO.FS.writeBinFile (Disk.pathOf l).text content
      | .folder => IO.FS.createDirAll (Disk.pathOf l).text

def toldPath : Invocation → Option String
  | .init path | .build path | .declarations path | .watch path _ => some path.text
  | .version | .help _ => none

def say (output errors : String) : IO Unit := do
  IO.print output
  (← IO.getStdout).flush
  IO.eprint errors

/-- Handles batches for ever. The tree is looked at again after every quiet period. -/
partial def watch (ink : Ink) (b : Builder) (quiet : Nat) (d : Disk) : IO Unit := do
  IO.sleep quiet.toUInt32
  let seen ← readDisk (some b.root.text)
  let src := locationOf (b.root.join "src").text
  let (_, s) := (Watch.respond b (Watch.FileEvent.between d seen src)).run { disk := seen }
  writeDisk seen s.disk
  say (s.output ink) (s.errors ink)
  watch ink b quiet s.disk

/-- Runs the program and tells how long it took. -/
def timed (ink : Ink) (args : List String) (d : Disk) : IO CommandLine.Finished := do
  let before ← IO.monoNanosNow
  let trial := CommandLine.run ink {} args d
  let after ← if trial.status ≤ 2 then IO.monoNanosNow else pure before
  return CommandLine.run ink ⟨0, after - before⟩ args d

end ModBuild.Program

open ModBuild ModBuild.Program in
def main (args : List String) : IO UInt32 := do
  let invocation := CommandLine.parse? args
  let d ← match invocation with
    | some i => readDisk (toldPath i)
    | none => pure {}
  let noColor := (← IO.getEnv "NO_COLOR").isSome
  let ink : Ink := if !noColor && (← (← IO.getStdout).isTty) then .colored else .plain
  let finished ← timed ink args d
  writeDisk d finished.disk
  say finished.output finished.errors
  match invocation, finished.status with
  | some (.watch path quiet), 0 =>
    match (do Watch.start (← Task.look fun d => Builder.ofRoot d path)).run { disk := d } with
    | (.ok b, _) => watch ink b quiet d
    | _ => pure ()
  | _, _ => pure ()
  return finished.status.toUInt32
