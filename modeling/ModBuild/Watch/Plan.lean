import ModBuild.Pass.EntryMarker
import ModBuild.Project
import ModBuild.Watch.Event

/-!
# Planning

A mirror knows which source folders are copied into the mod and where. Planning turns a file event
into one action, by its name and by the mirror alone.
-/

namespace ModBuild.Watch

inductive Action
  | ignore
  | rebuild
  | copy (source target : FilePath)
  | remove (target : FilePath)
  | makeFolder (target : FilePath)
  deriving DecidableEq, Repr

structure Mirror where
  srcDir : FilePath
  /-- Source folders with their targets; the first that fits counts. -/
  roots : List (FilePath × FilePath)
  deriving DecidableEq, Repr

namespace Mirror

def ofProject (p : Project) : Mirror where
  srcDir := p.srcDir
  roots :=
    Scope.owners.map (fun s => (p.scopeSource s, p.layout.scopeDir s)) ++
      p.assetDirs.map fun (source, kind) => (source, p.layout.mediaDir.join kind)

/-- The target of a path below a source folder. -/
def mapRoot? (root : FilePath × FilePath) (p : FilePath) : Option FilePath :=
  (root.1.relativeTo? p).map fun relative =>
    if relative.text = "" then root.2 else root.2.join relative.text

def target? (m : Mirror) (p : FilePath) : Option FilePath :=
  m.roots.findSome? fun root => mapRoot? root p

/-- Files right below the source folder that never trigger anything. -/
def sentinels : List String := ["header.lua", "footer.lua"]

def isSentinel (m : Mirror) (p : FilePath) : Bool :=
  match m.srcDir.relativeTo? p with
  | some relative => sentinels.any fun name => Text.lower relative.text.toList = name.toList
  | none => false

/-- Every pass places and removes such a file itself. -/
def isEntryMarker (m : Mirror) (p : FilePath) : Bool :=
  p.fileName? = some EntryMarker.fileName &&
    Scope.owners.any fun s =>
      match p.parent? with
      | some above => above.Same (m.srcDir.join (s.folder?.getD ""))
      | none => false

end Mirror

def lowerName (p : FilePath) : List Char := Text.lower (p.fileName?.getD "").toList

def isDeclaration (p : FilePath) : Bool := ".d.ts".toList.isSuffixOf (lowerName p)

def isSource (p : FilePath) : Bool := ".ts".toList.isSuffixOf (lowerName p) && !isDeclaration p

def planAdded (m : Mirror) (p : FilePath) : Action :=
  if isDeclaration p then .ignore
  else if isSource p then .rebuild
  else
    match m.target? p with
    | some target => .copy p target
    | none => .ignore

/-- A source that goes takes its Lua file with it. -/
def planRemoved (m : Mirror) (p : FilePath) : Action :=
  if isDeclaration p then .ignore
  else
    match m.target? p with
    | some target => .remove (if isSource p then target.withExtension "lua" else target)
    | none => .ignore

def plan (m : Mirror) (e : FileEvent) : Action :=
  if m.isSentinel e.path || m.isEntryMarker e.path then .ignore
  else
    match e with
    | .added p | .changed p => planAdded m p
    | .removed p => planRemoved m p
    | .folderRemoved p => ((m.target? p).map Action.remove).getD .ignore
    | .folderAdded p => ((m.target? p).map Action.makeFolder).getD .ignore

end ModBuild.Watch
