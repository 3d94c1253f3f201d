import ModBuild.Disk.Fault
import ModBuild.Path.Basic

/-!
# The disk

A disk is a tree of folders and files without links. It is kept as a list of entries by location, a
location being the names on the way from the root, so that a change at one location leaves every
other one alone: `get?_put` and `get?_erase`.

This module looks things up. Changes are in `ModBuild.Disk.Change`.
-/

namespace ModBuild

/-- The names on the way from the root. -/
abbrev Location := List String

/-- Contents are compared byte by byte. -/
instance decidableEqContent : DecidableEq ByteArray := ByteArray.instDecidableEq

inductive Entry
  | file (content : ByteArray)
  | folder
  deriving DecidableEq

structure Disk where
  entries : List (Location × Entry) := []
  /-- Where relative paths start. -/
  workingDir : Location := []
  /-- Locations at which no file may be written. -/
  refused : List (Location × Fault) := []
  deriving DecidableEq

namespace Disk

/-- The root is always a folder. -/
def get? (d : Disk) (l : Location) : Option Entry :=
  if l = [] then some .folder else d.entries.lookup l

def put (d : Disk) (l : Location) (e : Entry) : Disk :=
  { d with entries := (l, e) :: d.entries.filter fun x => decide (x.1 ≠ l) }

/-- Without the entry and everything below it. -/
def erase (d : Disk) (l : Location) : Disk :=
  { d with entries := d.entries.filter fun x => !l.isPrefixOf x.1 }

theorem lookup_filter {α : Type} (p : Location → Bool) (l : Location) (es : List (Location × α)) :
    (es.filter fun x => p x.1).lookup l = if p l then es.lookup l else none := by
  induction es with
  | nil => simp
  | cons x es ih =>
    obtain ⟨k, e⟩ := x
    rw [List.filter_cons, List.lookup_cons]
    by_cases hk : l = k
    · subst hk
      by_cases hp : p l = true
      · simp [hp]
      · rw [if_neg hp, ih, if_neg hp, if_neg hp]
    · have hb : (l == k) = false := by simpa using hk
      rw [hb]
      split
      · rw [List.lookup_cons, hb, ih]
      · exact ih

theorem get?_put {d : Disk} {l m : Location} {e : Entry} (h : l ≠ []) :
    (d.put l e).get? m = if m = l then some e else d.get? m := by
  unfold get? put
  rw [List.lookup_cons, lookup_filter (fun k => decide (k ≠ l))]
  by_cases hm : m = l
  · subst hm
    simp [h]
  · have hb : (m == l) = false := by simpa using hm
    simp [hb, hm]

theorem get?_erase {d : Disk} {l m : Location} (h : m ≠ []) :
    (d.erase l).get? m = if l <+: m then none else d.get? m := by
  unfold get? erase
  rw [lookup_filter (fun k => !l.isPrefixOf k), if_neg h, if_neg h]
  by_cases hm : l <+: m
  · have hb : l.isPrefixOf m = true := List.isPrefixOf_iff_prefix.2 hm
    simp [hb, hm]
  · have hb : l.isPrefixOf m = false := by
      rw [Bool.eq_false_iff]
      exact fun h => hm (List.isPrefixOf_iff_prefix.1 h)
    simp [hb, hm]

/-- The names in a folder, in order of their characters. -/
def names (d : Disk) (l : Location) : List String :=
  (d.entries.filterMap fun x =>
    match x.1.getLast? with
    | some name => if x.1.dropLast = l then some name else none
    | none => none).mergeSort fun a b => !decide (b < a)

/-- One part of a path, seen from a location that has to be a folder. -/
def step (d : Disk) (l : Location) (part : List Char) : Except Fault Location :=
  match d.get? l with
  | none => .error .notFound
  | some (.file _) => .error .notADirectory
  | some .folder =>
    if Component.isTrivial part then .ok l
    else if part = ['.', '.'] then .ok l.dropLast
    else if 255 < Text.byteCount part then .error .nameTooLong
    else .ok (l ++ [.ofList part])

/-- Where a path starts, and its parts from there. -/
def start (d : Disk) (p : FilePath) : Except Fault (Location × List (List Char)) :=
  if p.text = "" then .error .notFound
  else if p.text.toList.contains (Char.ofNat 0) then .error .nulInName
  else if 4096 ≤ Text.byteCount p.text.toList then .error .nameTooLong
  else if p.isAbsolute then .ok ([], p.parts.tail)
  else .ok (d.workingDir, p.parts)

/-- The location that a path leads to. Nothing needs to be there, but everything on the way does. -/
def locate (d : Disk) (p : FilePath) : Except Fault Location := do
  let (l, parts) ← d.start p
  parts.foldlM d.step l

def find? (d : Disk) (p : FilePath) : Except Fault Entry := do
  match d.get? (← d.locate p) with
  | some e => .ok e
  | none => .error .notFound

def isThere (d : Disk) (p : FilePath) : Bool := (d.find? p).isOk

def isFolder (d : Disk) (p : FilePath) : Bool :=
  match d.find? p with
  | .ok .folder => true
  | _ => false

def isFile (d : Disk) (p : FilePath) : Bool :=
  match d.find? p with
  | .ok (.file _) => true
  | _ => false

def read (d : Disk) (p : FilePath) : Except Fault ByteArray := do
  match ← d.find? p with
  | .file content => .ok content
  | .folder => .error .isADirectory

def readText (d : Disk) (p : FilePath) : Except Fault String := do
  match String.fromUTF8? (← d.read p) with
  | some text => .ok text
  | none => .error .notText

/-- The path from the root to a location. -/
def pathOf (l : Location) : FilePath := ⟨"/" ++ "/".intercalate l⟩

/-- The path from the root to what `p` leads to. -/
def canonical (d : Disk) (p : FilePath) : Except Fault FilePath := do
  let l ← d.locate p
  match d.get? l with
  | some _ => .ok (pathOf l)
  | none => .error .notFound

/-- No path is longer, so no folder is nested deeper. -/
def maxDepth : Nat := 4096

/-- What a walk comes to: the path of a file, or of a folder that cannot be listed. -/
abbrev Visit := Except (FilePath × Fault) FilePath

/-- The files below a folder, depth first and siblings in order, each by its path from there. -/
def walkFolder (d : Disk) : Nat → FilePath → List Visit
  | 0, dir => [.error (dir, .nameTooLong)]
  | depth + 1, dir =>
    match d.locate dir with
    | .error fault => [.error (dir, fault)]
    | .ok l =>
      (d.names l).flatMap fun name =>
        match d.get? (l ++ [name]) with
        | some .folder => walkFolder d depth (dir.join name)
        | some (.file _) => [.ok (dir.join name)]
        | none => []

/-- A file is the only file of its own walk. -/
def walk (d : Disk) (p : FilePath) : List Visit :=
  if d.isFile p then [.ok p] else d.walkFolder maxDepth p

end Disk

end ModBuild
