import ModBuild.Disk.Basic

/-!
# Changing the disk

Writing, removing and copying. Each change either happens as a whole or reports a fault; only the
creation of nested folders and a copy can leave a part of their work behind.
-/

namespace ModBuild

/-- Something done to a disk that may fail. What it did before it failed stays. -/
abbrev Change (ε α : Type) := ExceptT ε (StateM Disk) α

namespace Disk

/-- The folder in which a path ends and the name there, `none` when the path ends with dots. -/
structure Slot where
  folder : Location
  name : Option String
  /-- The path asks for a folder by a slash at its end. -/
  slashed : Bool
  deriving DecidableEq

def slot (d : Disk) (p : FilePath) : Except Fault Slot := do
  let (l, parts) ← d.start p
  let kept := (parts.reverse.dropWhile List.isEmpty).reverse
  let slashed := kept.length < parts.length
  match kept.reverse with
  | [] => .ok ⟨l, none, slashed⟩
  | last :: above =>
    let folder ← above.reverse.foldlM d.step l
    let here ← d.step folder last
    if Component.ofPart? last = some (.name (.ofList last)) then
      .ok ⟨folder, some (.ofList last), slashed⟩
    else .ok ⟨here, none, slashed⟩

end Disk

namespace Change

variable {α ε : Type}

/-- A change that happens as a whole or not at all. -/
def ofDisk (f : Disk → Except ε Disk) : Change ε Unit := fun d =>
  match f d with
  | .ok d' => (.ok (), d')
  | .error e => (.error e, d)

/-- A look at the disk. -/
def look (f : Disk → Except ε α) : Change ε α := fun d => (f d, d)

/-- A file is created or overwritten. -/
def write (p : FilePath) (content : ByteArray) : Change Fault Unit :=
  ofDisk fun d => do
    match ← d.slot p with
    | ⟨folder, some name, false⟩ =>
      let l := folder ++ [name]
      match d.refused.lookup l, d.get? l with
      | some fault, _ => .error fault
      | none, some .folder => .error .isADirectory
      | none, _ => .ok (d.put l (.file content))
    | _ => .error .isADirectory

def writeText (p : FilePath) (text : String) : Change Fault Unit := write p text.toUTF8

def makeFolder (p : FilePath) : Change Fault Unit :=
  ofDisk fun d => do
    match ← d.slot p with
    | ⟨folder, some name, _⟩ =>
      let l := folder ++ [name]
      if (d.get? l).isSome then .error .alreadyExists else .ok (d.put l .folder)
    | _ => .error .alreadyExists

/-- The first folder of the list, those after it being its parents. Parents are made when they are
missing; that a folder is there already is no fault. -/
def makeChain : List FilePath → Change Fault Unit
  | [] => throw (.other "failed to create whole tree")
  | p :: above => fun d =>
    if p.components = [] then (.ok (), d)
    else
      match makeFolder p d with
      | (.error .notFound, _) =>
        match makeChain above d with
        | (.ok _, d) =>
          match makeFolder p d with
          | (.error f, d) => if d.isFolder p then (.ok (), d) else (.error f, d)
          | done => done
        | failed => failed
      | (.error f, _) => if d.isFolder p then (.ok (), d) else (.error f, d)
      | done => done

/-- The path and its parents, at most `n`. -/
def chain : Nat → FilePath → List FilePath
  | 0, _ => []
  | n + 1, p =>
    p :: match p.parent? with
      | some above => chain n above
      | none => []

/-- A folder with all its parents. -/
def makeFolders (p : FilePath) : Change Fault Unit := makeChain (chain (p.parts.length + 2) p)

def removeFile (p : FilePath) : Change Fault Unit :=
  ofDisk fun d => do
    match ← d.slot p with
    | ⟨folder, some name, slashed⟩ =>
      match d.get? (folder ++ [name]) with
      | some (.file _) =>
        if slashed then .error .notADirectory else .ok (d.erase (folder ++ [name]))
      | some .folder => .error .isADirectory
      | none => .error .notFound
    | _ => .error .isADirectory

/-- A folder with everything in it. -/
def removeFolder (p : FilePath) : Change Fault Unit :=
  ofDisk fun d => do
    let l ← d.locate p
    match d.get? l with
    | some .folder => .ok (d.erase l)
    | some (.file _) => .error .notADirectory
    | none => .error .notFound

/-- The target is emptied before the source is read, so a file copied onto itself ends up empty. -/
def copy (source target : FilePath) : Change Fault Unit := do
  match ← look fun d => d.find? source with
  | .folder => throw .notAFile
  | .file _ =>
    write target .empty
    write target (← look fun d => d.read source)

end Change

end ModBuild
