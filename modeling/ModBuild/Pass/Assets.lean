import ModBuild.Pass.Loading
import ModBuild.Session

/-!
# Copies

The files that a pass copies without looking into them: loose files of the scope folders, assets,
runtime libraries and the manifest with its poster. How one file of a folder is copied is a parameter,
so that the copies can also be run with a record of them.
-/

namespace ModBuild.Assets

def copyFile (source target : FilePath) : Task Failure Unit := do
  Task.status .compiler .info
    ("Copying \"" ++ source.text ++ "\" to \"" ++ target.text ++ "\"..")
  match target.parent? with
  | some above => Task.change (.makeFolder above) (Change.makeFolders above)
  | none => pure ()
  Task.change (.copy source target) (Change.copy source target)

/-- Sources are left to the compiler. -/
def isSource (p : FilePath) : Bool :=
  (p.extension?.map fun e => Text.lower e.toList) = some "ts".toList

section
variable {m : Type → Type} [Monad m] [MonadExceptOf Failure m] [MonadLiftT (Task Failure) m]
variable (copy : FilePath → FilePath → m Unit)

/-- What a folder does with one of the names in it; `below` does it with a folder. -/
def mirrorEntryBy (skipSources : Bool) (top target : FilePath) (below : FilePath → m Nat) (d : Disk)
    (l : Location) (dir : FilePath) (copied : Nat) (name : String) : m Nat := do
  let path := dir.join name
  match d.get? (l ++ [name]) with
  | some .folder => return copied + (← below path)
  | some (.file _) =>
    if skipSources && isSource path then return copied
    copy path (target.join ((top.relativeTo? path).getD path).text)
    return copied + 1
  | none => return copied

/-- Copies what is below `dir` to the same place below `target`, seen from `top`. A folder is listed
when it is entered, so files that were copied into it before are copied again. -/
def mirrorFolderBy (skipSources : Bool) (top target : FilePath) : Nat → FilePath → m Nat
  | 0, dir => throw (.walk top dir .nameTooLong)
  | depth + 1, dir => do
    let d ← (Task.disk : Task Failure Disk)
    match d.locate dir with
    | .error fault => throw (.walk top dir fault)
    | .ok l =>
      (d.names l).foldlM
        (mirrorEntryBy copy skipSources top target (mirrorFolderBy skipSources top target depth) d l dir) 0

/-- The number of files copied; nothing happens when the source is no folder. -/
def mirrorBy (source target : FilePath) (skipSources : Bool) : m Nat := do
  let d ← (Task.disk : Task Failure Disk)
  if d.isFolder source then mirrorFolderBy copy skipSources source target Disk.maxDepth source
  else return 0

def copyScopeFilesBy (p : Project) : m Nat :=
  Scope.owners.foldlM (fun copied s => do
    return copied + (← mirrorBy copy (p.scopeSource s) (p.layout.scopeDir s) true)) 0

def copyAssetDirsBy (p : Project) : m Nat :=
  p.assetDirs.foldlM (fun copied (source, kind) => do
    return copied + (← mirrorBy copy source (p.layout.mediaDir.join kind) false)) 0

end

def mirror (source target : FilePath) (skipSources : Bool) : Task Failure Nat :=
  mirrorBy copyFile source target skipSources

def copyScopeFiles (p : Project) : Task Failure Nat := copyScopeFilesBy copyFile p

def copyAssetDirs (p : Project) : Task Failure Nat := copyAssetDirsBy copyFile p

def missingLibraryWarning (library : FilePath) : Diagnostic where
  severity := .warning
  code := Diagnostic.missingRuntimeLibrary
  message := "runtime library " ++ library.text ++ " not found"
  span := Span.ofPath library
  help := some "run `npm install` in the project root"

/-- A library goes into the shared folder under its file name; a missing one is a warning. -/
def copyLibrary (shared library : FilePath) : Task Failure (List Diagnostic) := do
  match library.fileName? with
  | none => return []
  | some name =>
    if (← Task.disk).isFile library then
      copyFile library (shared.join name)
      return []
    else return [missingLibraryWarning library]

def copyRuntimeLibraries (p : Project) : Task Failure (List Diagnostic) :=
  p.runtimeLibraries.foldlM (fun warnings library => do
    return warnings ++ (← copyLibrary (p.layout.scopeDir .shared) library)) []

def copyManifest (p : Project) : Task Failure Unit := do
  let modDir := p.layout.modDir
  Task.change (.makeFolder modDir) (Change.makeFolders modDir)
  Task.change id (p.manifest.save (modDir.join Manifest.fileName))
  let poster := p.root.join p.manifest.poster
  if (← Task.disk).isFile poster then
    copyFile poster (modDir.join p.manifest.poster)

end ModBuild.Assets
