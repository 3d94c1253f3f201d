import ModBuild.Disk.Change

/-!
# Tools

The programs that a script can call. A tool gets its arguments and its input, works on the disk, and
leaves output, complaints and a status behind.
-/

namespace ModBuild.Script

structure Answer where
  output : ByteArray := .empty
  complaints : String := ""
  status : Nat := 0

/-- A tool runs on its arguments and its input. -/
abbrev Tool := List String → ByteArray → StateM Disk Answer

namespace Answer

def text (s : String) : Answer := { output := s.toUTF8 }

def ofTruth (holds : Bool) : Answer := { status := if holds then 0 else 1 }

def complaint (s : String) : Answer := { complaints := s ++ "\n", status := 1 }

/-- One answer after another; a failure of either is a failure. -/
def append (a b : Answer) : Answer :=
  { output := a.output ++ b.output
    complaints := a.complaints ++ b.complaints
    status := max a.status b.status }

end Answer

def isOctal (c : Char) : Bool := '0' ≤ c && c ≤ '7'

/-- The byte that up to three octal digits stand for. -/
def octal (digits : List Char) : UInt8 :=
  .ofNat (digits.foldl (fun n c => 8 * n + (c.toNat - '0'.toNat)) 0)

def bytesOf (c : Char) : List UInt8 := (String.singleton c).toUTF8.toList

/-- What a backslash and a letter stand for. -/
def escaped (c : Char) : List UInt8 :=
  match c with
  | 'a' => [7]
  | 'b' => [8]
  | 't' => [9]
  | 'n' => [10]
  | 'v' => [11]
  | 'f' => [12]
  | 'r' => [13]
  | '\\' => bytesOf '\\'
  | c => bytesOf '\\' ++ bytesOf c

/-- The bytes of a text with escapes. With `zero`, an octal number starts with an additional 0. -/
def unescape (zero : Bool) : List Char → List UInt8
  | '\\' :: c :: cs =>
    if isOctal c && (!zero || c = '0') then
      let digits := ((if zero then cs else c :: cs).take 3).takeWhile isOctal
      octal digits :: unescape zero ((if zero then cs else c :: cs).drop digits.length)
    else escaped c ++ unescape zero cs
  | c :: cs => bytesOf c ++ unescape zero cs
  | [] => []
termination_by cs => cs.length
decreasing_by
  · split <;> simp only [List.length_drop, List.length_cons] <;> omega
  · simp only [List.length_cons]; omega
  · simp

/-- What a directive shows of a value. -/
def shown (kind : UInt8) (value : String) : List UInt8 :=
  if kind.toNat = 'b'.toNat then unescape true value.toList
  else if kind.toNat = 'd'.toNat then (if value = "" then "0" else value).toUTF8.toList
  else if kind.toNat = 'c'.toNat then (value.toList.take 1).flatMap bytesOf
  else value.toUTF8.toList

/-- A format up to its end, with the arguments that are left. -/
def formatOnce : List UInt8 → List String → List UInt8 × List String
  | 37 :: 37 :: bs, args =>
    let (out, rest) := formatOnce bs args
    (37 :: out, rest)
  | 37 :: kind :: bs, args =>
    let (out, rest) := formatOnce bs args.tail
    (shown kind (args.headD "") ++ out, rest)
  | b :: bs, args =>
    let (out, rest) := formatOnce bs args
    (b :: out, rest)
  | [], args => ([], args)

/-- The format is used again as long as it takes arguments. -/
def format (f : List UInt8) : Nat → List String → List UInt8
  | 0, _ => []
  | fuel + 1, args =>
    let (out, rest) := formatOnce f args
    if rest.isEmpty || rest.length = args.length then out else out ++ format f fuel rest

def echo : Tool := fun args _ => do
  let silent := args.head? = some "-n"
  let words := if silent then args.tail else args
  let lineEnd : List UInt8 := if silent then [] else [10]
  return { output := ⟨(unescape true (" ".intercalate words).toList ++ lineEnd).toArray⟩ }

def printf : Tool := fun args _ => do
  match args with
  | [] => return { complaints := "printf: missing operand\n", status := 2 }
  | f :: values =>
    return { output := ⟨(format (unescape false f.toList) (values.length + 1) values).toArray⟩ }

/-- A path without its last component. -/
def dirname (path : List Char) : List Char :=
  let isSlash (c : Char) : Bool := c = '/'
  let trimmed := Text.dropEndWhile isSlash path
  let above := Text.dropEndWhile (fun c => !isSlash c) trimmed
  match Text.dropEndWhile isSlash above with
  | [] => if path.head? = some '/' then ['/'] else ['.']
  | folder => folder

def basename (path ending : List Char) : List Char :=
  let trimmed := Text.dropEndWhile (fun c => decide (c = '/')) path
  let name := (trimmed.reverse.takeWhile fun c => decide (c ≠ '/')).reverse
  if trimmed.isEmpty then path.take 1
  else if ending.isSuffixOf name && ending ≠ name then name.take (name.length - ending.length)
  else name

def line (cs : List Char) : Answer := .text (.ofList (cs ++ ['\n']))

/-- The options at the start of the arguments, as letters, and the rest. -/
def options : List String → List Char × List String
  | arg :: args =>
    match arg.toList with
    | '-' :: c :: cs =>
      if arg = "--" then ([], args)
      else
        let (letters, rest) := options args
        (c :: cs ++ letters, rest)
    | _ => ([], arg :: args)
  | [] => ([], [])

/-- Does something for every argument. -/
def forEach (args : List String) (act : String → StateM Disk Answer) : StateM Disk Answer :=
  args.foldlM (fun a arg => do return a.append (← act arg)) {}

/-- A change that is complained about when it fails. -/
def attempt (c : Change Fault Unit) (complaint : Fault → String) : StateM Disk Answer := do
  match ← c.run with
  | .ok _ => return {}
  | .error fault => return .complaint (complaint fault)

def quote (path : String) : String := "'" ++ path ++ "'"

def cat : Tool := fun args input => do
  if args.isEmpty then return { output := input }
  forEach args fun arg => do
    if arg = "-" then return { output := input }
    match (← get).read ⟨arg⟩ with
    | .ok content => return { output := content }
    | .error fault => return .complaint ("cat: " ++ arg ++ ": " ++ fault.reason)

def mkdir : Tool := fun args _ => do
  let (letters, paths) := options args
  forEach paths fun path =>
    attempt (if 'p' ∈ letters then Change.makeFolders ⟨path⟩ else Change.makeFolder ⟨path⟩)
      fun fault => "mkdir: cannot create directory " ++ quote path ++ ": " ++ fault.reason

def touch : Tool := fun args _ =>
  forEach (options args).2 fun path => do
    if (← get).isThere ⟨path⟩ then return {}
    attempt (Change.write ⟨path⟩ .empty)
      fun fault => "touch: cannot touch " ++ quote path ++ ": " ++ fault.reason

def rm : Tool := fun args _ => do
  let (letters, paths) := options args
  let refusal (path : String) (fault : Fault) : Answer :=
    .complaint ("rm: cannot remove " ++ quote path ++ ": " ++ fault.reason)
  forEach paths fun path => do
    let d ← get
    if !d.isThere ⟨path⟩ then
      return if 'f' ∈ letters then {} else refusal path .notFound
    if d.isFolder ⟨path⟩ && !('r' ∈ letters || 'R' ∈ letters) then
      return refusal path .isADirectory
    attempt (if d.isFolder ⟨path⟩ then Change.removeFolder ⟨path⟩ else Change.removeFile ⟨path⟩)
      fun fault => "rm: cannot remove " ++ quote path ++ ": " ++ fault.reason

/-- Where a file ends up: below the target when that is a folder. -/
def placeFor (d : Disk) (source target : String) : FilePath :=
  if d.isFolder ⟨target⟩ then
    (FilePath.mk target).join ((FilePath.mk source).fileName?.getD source)
  else ⟨target⟩

/-- Everything at one location put at another one as well. -/
def duplicate (source target : Location) (d : Disk) : Disk :=
  d.entries.foldr (fun (l, e) d =>
    if source.isPrefixOf l then d.put (target ++ l.drop source.length) e else d) d

def copyOne (tool : String) (recursive : Bool) (source target : String) : StateM Disk Answer := do
  let d ← get
  let place := placeFor d source target
  let here? := (d.locate ⟨source⟩).toOption
  let there? := (d.locate place).toOption
  match d.find? ⟨source⟩, here?, there? with
  | .error fault, _, _ =>
    return .complaint (tool ++ ": cannot stat " ++ quote source ++ ": " ++ fault.reason)
  | .ok .folder, some l, some m =>
    if recursive then
      set (duplicate l m d)
      return {}
    else return .complaint (tool ++ ": -r not specified; omitting directory " ++ quote source)
  | .ok .folder, _, _ =>
    return .complaint (tool ++ ": cannot create directory " ++ quote place.text ++ ": " ++
      Fault.notFound.reason)
  | .ok (.file content), _, _ =>
    if here? = there? then
      return .complaint
        (tool ++ ": " ++ quote source ++ " and " ++ quote place.text ++ " are the same file")
    attempt (Change.write place content) fun fault =>
      tool ++ ": cannot create regular file " ++ quote place.text ++ ": " ++ fault.reason

def cp : Tool := fun args _ => do
  let (letters, paths) := options args
  match paths.reverse with
  | target :: sources =>
    let recursive := ['r', 'R', 'a'].any fun c => c ∈ letters
    forEach sources.reverse fun source => copyOne "cp" recursive source target
  | [] => return .complaint "cp: missing file operand"

def mv : Tool := fun args _ => do
  match (options args).2.reverse with
  | target :: sources =>
    forEach sources.reverse fun source => do
      let answer ← copyOne "mv" true source target
      if answer.status = 0 then
        match (← get).locate ⟨source⟩ with
        | .ok l => modify fun d => d.erase l
        | .error _ => pure ()
      return answer
  | [] => return .complaint "mv: missing file operand"

def ls : Tool := fun args _ => do
  let paths := (options args).2
  forEach (if paths.isEmpty then ["."] else paths) fun path => do
    let d ← get
    match d.find? ⟨path⟩, d.locate ⟨path⟩ with
    | .ok .folder, .ok l => return .text (String.join ((d.names l).map (· ++ "\n")))
    | .ok _, _ => return .text (path ++ "\n")
    | .error fault, _ =>
      return { (Answer.complaint ("ls: cannot access " ++ quote path ++ ": " ++ fault.reason)) with
        status := 2 }

def compareNumbers? (a operator b : String) : Option Bool := do
  let m ← a.toInt?
  let n ← b.toInt?
  match operator with
  | "-eq" => some (m = n)
  | "-ne" => some (m ≠ n)
  | "-lt" => some (m < n)
  | "-le" => some (m ≤ n)
  | "-gt" => some (n < m)
  | "-ge" => some (n ≤ m)
  | _ => none

/-- Whether the words of a condition hold. -/
def holds (d : Disk) : List String → Bool
  | ["-e", path] => d.isThere ⟨path⟩
  | ["-f", path] => d.isFile ⟨path⟩
  | ["-d", path] => d.isFolder ⟨path⟩
  | ["-r", path] | ["-w", path] => d.isThere ⟨path⟩
  | ["-s", path] => match d.read ⟨path⟩ with
    | .ok content => content.size ≠ 0
    | .error _ => d.isFolder ⟨path⟩
  | ["-n", text] => text ≠ ""
  | ["-z", text] => text = ""
  | [a, "=", b] => a = b
  | [a, "!=", b] => a ≠ b
  | [a, operator, b] => (compareNumbers? a operator b).getD false
  | "!" :: words => !holds d words
  | [text] => text ≠ ""
  | _ => false

def test : Tool := fun args _ => do return .ofTruth (holds (← get) args)

/-- The tools by name. -/
def tools : List (String × Tool) := [
  ("echo", echo), ("printf", printf), ("cat", cat), ("mkdir", mkdir), ("touch", touch),
  ("rm", rm), ("cp", cp), ("mv", mv), ("ls", ls), ("test", test),
  ("[", fun args => test args.dropLast),
  ("dirname", fun args _ => pure (line (dirname (args.headD "").toList))),
  ("basename", fun args _ =>
    pure (line (basename (args.headD "").toList ((args[1]?).getD "").toList))),
  ("pwd", fun _ _ => do return .text ((Disk.pathOf (← get).workingDir).text ++ "\n")),
  ("true", fun _ _ => pure {}),
  ("false", fun _ _ => pure (.ofTruth false)),
  ("sleep", fun _ _ => pure {})]

end ModBuild.Script
