import ModBuild.Pass.Build

/-!
# Type declarations

The types of a mod are exported as one file, so that other mods can be built against it. It is made
of what the compiler declares and of declaration files written by hand; scope folders are dropped
from module names, as they are in the Lua of the mod.
-/

namespace ModBuild.Declarations

def fileHeader : String := "/** @noResolution @noSelfInFile */"

/-- What stands before a module name. -/
def openings : List String := ["declare module \"", "from \""]

/-- Drops the first scope folder, in the order of scopes, after the first such opening. -/
def dropScopeAfter (opening : String) (line : List Char) : List Char :=
  let candidates := Scope.owners.map fun s => (opening ++ s.label ++ "/").toList
  match candidates.find? fun c => Text.contains c line with
  | some found => Text.replaceFirst found opening.toList line
  | none => line

def dropScopes (line : List Char) : List Char :=
  openings.foldl (fun line opening => dropScopeAfter opening line) line

/-- A line that declares an empty module, as the compiler writes for a source without exports. -/
def isEmptyModule (line : List Char) : Bool :=
  Text.contains "declare module ".toList line && Text.contains "\x7b \x7d".toList line

def keptLines (generated : String) : List (List Char) :=
  (Text.lines generated.toList).filter fun line => !line.isEmpty && !isEmptyModule line

def banner (path : String) : String := "/* File: " ++ path ++ " */"

/-- The lines of the exported file before scope folders are dropped. -/
def fileLines (kept : List (List Char)) (handwritten : List (String × String)) :
    List (List Char) :=
  fileHeader.toList :: [] :: kept ++ [] ::
    handwritten.flatMap fun (path, text) => (banner path).toList :: Text.lines text.toList

/-- The exported file, unless there is nothing to export. -/
def aggregate? (generated : String) (handwritten : List (String × String)) : Option String :=
  let kept := keptLines generated
  if kept.isEmpty && handwritten.isEmpty then none
  else
    some (.ofList ((fileLines kept handwritten).flatMap fun line => dropScopes line ++ ['\r', '\n']))

def isDeclarationFile (p : FilePath) : Bool :=
  ".d.ts".toList.isSuffixOf (Text.lower (p.fileName?.getD "").toList)

/-- A declaration file with its path as seen from the project, or why it is not read. -/
def readVisit (d : Disk) (p : Project) (dir : FilePath) :
    Disk.Visit → Except Failure (String × String)
  | .error (path, fault) => .error (.walk dir path fault)
  | .ok path =>
    match d.readText path with
    | .ok text => .ok (SlashPath.normalize ((p.root.relativeTo? path).getD path).text, text)
    | .error fault => .error (.read path fault)

/-- The declaration files of one scope folder. -/
def handwrittenIn (d : Disk) (p : Project) (s : Scope) : Except Failure (List (String × String)) :=
  let dir := p.scopeSource s
  if d.isFolder dir then
    let wanted := (d.walk dir).filter fun
      | .ok path => isDeclarationFile path
      | .error _ => true
    wanted.mapM (readVisit d p dir)
  else .ok []

/-- The declaration files written by hand, with their texts. -/
def handwritten (d : Disk) (p : Project) : Except Failure (List (String × String)) := do
  return (← Scope.owners.mapM (handwrittenIn d p)).flatten

/-- Writes the file of the project, or removes an old one when there is nothing to export. -/
def exportFile (p : Project) (compiler : Compiler) : Task Failure (Option FilePath) := do
  let file := p.declarationFile
  Task.status .compiler .success
    ("Compiling project declarations.. (file: " ++ file.text ++ ")")
  let request := Builder.request p true
  Task.record (.called request (← Task.disk))
  let generated ← Task.change .declarations (compiler.declarations request)
  let written ← Task.look fun d => handwritten d p
  match aggregate? generated written with
  | none =>
    Task.status .compiler .info "No declarations to export."
    if (← Task.disk).isThere file then
      Task.change (.remove file) (Change.removeFile file)
    return none
  | some text =>
    Task.status .compiler .success "Refactoring project declarations.."
    match file.parent? with
    | some above => Task.change (.makeFolder above) (Change.makeFolders above)
    | none => pure ()
    Task.change (.write file) (Change.writeText file text)
    return some file

end ModBuild.Declarations
