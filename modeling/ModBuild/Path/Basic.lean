import ModBuild.Text.Basic

/-!
# File paths

A file path keeps the text it was written with, because messages show it. It is compared and taken
apart by components: repeated slashes, trailing slashes and `.` inside a path do not count.

This module is about names only. What a path leads to is the business of `ModBuild.Disk`.
-/

namespace ModBuild

/-- A path of the file system as it is written. -/
structure FilePath where
  text : String
  deriving DecidableEq, Repr, Inhabited

/-- A step of a path that counts when paths are compared. -/
inductive Component
  | root
  /-- A `.` that starts a relative path. -/
  | current
  | parent
  | name (text : String)
  deriving DecidableEq, Repr

namespace Component

/-- Parts that add no component inside a path. -/
def isTrivial (part : List Char) : Bool := part.isEmpty || part = ['.']

def ofPart? (part : List Char) : Option Component :=
  if isTrivial part then none
  else if part = ['.', '.'] then some .parent
  else some (.name (.ofList part))

end Component

namespace FilePath

/-- The parts between slashes; the first is empty when the path is absolute. -/
def parts (p : FilePath) : List (List Char) := Text.split '/' p.text.toList

def isAbsolute (p : FilePath) : Bool := p.text.toList.head? = some '/'

def components (p : FilePath) : List Component :=
  let body := p.parts.filterMap Component.ofPart?
  if p.isAbsolute then .root :: body
  else if p.parts.head? = some ['.'] then .current :: body
  else body

/-- Two texts name the same path when they have the same components. -/
def Same (p q : FilePath) : Prop := p.components = q.components

instance : DecidableRel Same := fun p q => inferInstanceAs (Decidable (p.components = q.components))

/-- `rel` below `p`. An absolute `rel` replaces `p`, an empty one asks for a trailing slash. -/
def join (p : FilePath) (rel : String) : FilePath :=
  if rel.toList.head? = some '/' then ⟨rel⟩
  else if p.text.toList.getLast? = none || p.text.toList.getLast? = some '/' then ⟨p.text ++ rel⟩
  else ⟨p.text ++ "/" ++ rel⟩

def ofParts (ps : List (List Char)) : FilePath := ⟨.ofList (Text.joinWith ['/'] ps)⟩

/-- Without the trailing parts that add no component. -/
def dropTrivialEnd (ps : List (List Char)) : List (List Char) :=
  (ps.reverse.dropWhile Component.isTrivial).reverse

/-- What introduces the path, `/` or a leading `.`, and the parts after it. -/
def head (p : FilePath) : Option (List Char) × List (List Char) :=
  match p.parts with
  | first :: rest =>
    if p.isAbsolute then (some [], rest)
    else if first = ['.'] then (some first, rest)
    else (none, first :: rest)
  | [] => (none, [])

/-- The head of a path and parts below it, written out again. -/
def ofHead (first : Option (List Char)) (ps : List (List Char)) : FilePath :=
  match first, ps with
  | some [], [] => ⟨"/"⟩
  | some part, ps => ofParts (part :: ps)
  | none, ps => ofParts ps

/-- The path without its last component; a root and an empty path have none. -/
def parent? (p : FilePath) : Option FilePath :=
  let (first, rest) := p.head
  match (dropTrivialEnd rest).reverse, first with
  | _ :: above, _ => some (ofHead first (dropTrivialEnd above.reverse))
  | [], some (_ :: _) => some ⟨""⟩
  | [], _ => none

/-- The last component when it is a name. -/
def fileName? (p : FilePath) : Option String :=
  match p.components.getLast? with
  | some (.name text) => some text
  | _ => none

/-- A file name cut at its last dot. A dot at the start belongs to the stem. -/
def cutExtension (name : List Char) : List Char × Option (List Char) :=
  match Text.cut? ['.'] name.reverse with
  | some (extension, stem) =>
    if stem.isEmpty then (name, none) else (stem.reverse, some extension.reverse)
  | none => (name, none)

def extension? (p : FilePath) : Option String :=
  p.fileName?.bind fun name => (cutExtension name.toList).2.map String.ofList

/-- The path with another extension; a path whose last component is no name stays. -/
def withExtension (p : FilePath) (extension : String) : FilePath :=
  match p.fileName?, (dropTrivialEnd p.parts).reverse with
  | some name, _ :: above =>
    ofParts (above.reverse ++ [(cutExtension name.toList).1 ++ '.' :: extension.toList])
  | _, _ => p

/-- The parts left after the first `n` components. -/
def dropComponents : Nat → List (List Char) → List (List Char)
  | 0, ps => ps
  | _ + 1, [] => []
  | n + 1, part :: ps =>
    if Component.isTrivial part then dropComponents (n + 1) ps else dropComponents n ps

/-- `p` as seen from `base`, when `base` has the first components of `p`. -/
def relativeTo? (base p : FilePath) : Option FilePath :=
  if base.components.isPrefixOf p.components then
    let (first, rest) := p.head
    match base.components.length, first with
    | 0, _ => some (ofHead first (dropTrivialEnd rest))
    | n + 1, some _ => some (ofParts (dropTrivialEnd ((dropComponents n rest).dropWhile Component.isTrivial)))
    | n + 1, none =>
      some (ofParts (dropTrivialEnd ((dropComponents (n + 1) rest).dropWhile Component.isTrivial)))
  else none

end FilePath

end ModBuild
