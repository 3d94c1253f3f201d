import ModBuild.Script.Parser
import ModBuild.Script.Tool
import ModBuild.Text.Lossy

/-!
# The shell

A script runs on a disk and leaves behind what it printed and a status. How deep its commands nest
and how often a loop turns is bounded, so every script ends.
-/

namespace ModBuild.Script

/-- Where the bytes of a stream go. -/
inductive Sink
  | buffer (index : Nat)
  | file (place : Location)
  | nowhere
  deriving DecidableEq, Repr

structure Streams where
  input : ByteArray := .empty
  output : Sink := .buffer 0
  errors : Sink := .buffer 1

structure Shell where
  disk : Disk
  /-- The script, as messages name it. -/
  name : String := "sh"
  arguments : List String := []
  vars : List (String × String) := []
  status : Nat := 0
  /-- A command that fails ends the script. -/
  strict : Bool := false
  buffers : List ByteArray := [.empty, .empty]

inductive Flow
  | next
  | ended
  deriving DecidableEq, Repr

namespace Shell

def print (s : Shell) (sink : Sink) (bytes : ByteArray) : Shell :=
  match sink with
  | .buffer i => { s with buffers := s.buffers.modify i (· ++ bytes) }
  | .file l =>
    let before := match s.disk.get? l with
      | some (.file content) => content
      | _ => .empty
    { s with disk := s.disk.put l (.file (before ++ bytes)) }
  | .nowhere => s

def assign (s : Shell) (name value : String) : Shell :=
  { s with vars := (name, value) :: s.vars }

def parameter (s : Shell) (name : String) : String :=
  if name = "@" || name = "*" then " ".intercalate s.arguments
  else if name = "#" then Text.decimal s.arguments.length
  else if name = "?" then Text.decimal s.status
  else if name = "0" then s.name
  else
    match name.toNat? with
    | some n => (s.arguments[n - 1]?).getD ""
    | none => (s.vars.lookup name).getD ""

/-- A complaint of the shell itself. -/
def complain (s : Shell) (streams : Streams) (line : Nat) (message : String) (status : Nat) :
    Shell :=
  let text := s.name ++ ": " ++ Text.decimal line ++ ": " ++ message ++ "\n"
  { s.print streams.errors text.toUTF8 with status := status }

/-- Back to the settings of `outer`; the disk, the status and what was printed stay. -/
def leave (s outer : Shell) : Shell :=
  { s with
    disk := { s.disk with workingDir := outer.disk.workingDir }
    name := outer.name
    arguments := outer.arguments
    vars := outer.vars
    strict := outer.strict }

end Shell

/-- What a piece of a word has become. -/
inductive Chunk
  | whole (text : String)
  /-- Cut at blanks. -/
  | loose (text : String)
  /-- Every item is a word of its own. -/
  | items (texts : List String)

structure Fields where
  closed : List String := []
  current : Option (List Char) := none

namespace Fields

def close (f : Fields) : Fields :=
  match f.current with
  | some cs => { closed := f.closed ++ [.ofList cs] }
  | none => f

def extend (f : Fields) (text : List Char) : Fields :=
  { f with current := some (f.current.getD [] ++ text) }

def add (f : Fields) : Chunk → Fields
  | .whole text => f.extend text.toList
  | .loose text =>
    text.toList.foldl (fun f c => if c ∈ [' ', '\t', '\n'] then f.close else f.extend [c]) f
  | .items [] => f
  | .items (text :: texts) =>
    texts.foldl (fun f text => f.close.extend text.toList) (f.extend text.toList)

end Fields

def dropLineBreaks (text : String) : String :=
  .ofList (Text.dropEndWhile (fun c => decide (c = '\n')) text.toList)

/-- The reason for which a file cannot be opened, as the shell says it. -/
def openReason (creating : Bool) : Fault → String
  | .notFound | .notADirectory => if creating then "Directory nonexistent" else "No such file"
  | fault => fault.reason

def outOfFuel : StateM Shell Flow := do
  modify fun s => { s with status := 124 }
  return .ended

/-- Where the output into a file goes; the file is there afterwards. -/
def openSink (path : String) (append : Bool) : StateM Shell (Except String Sink) := do
  let s ← get
  if path = "/dev/null" then return .ok .nowhere
  let p : FilePath := ⟨path⟩
  let change := if append && s.disk.isFile p then pure () else Change.write p .empty
  let (result, d) := change.run s.disk
  set { s with disk := d }
  match result, d.locate p with
  | .ok _, .ok l => return .ok (.file l)
  | .error fault, _ | .ok _, .error fault =>
    return .error ("cannot create " ++ path ++ ": " ++ openReason true fault)

/-- What a source of input holds. -/
def openInput (d : Disk) (path : String) : Except String ByteArray :=
  if path = "/dev/null" then .ok .empty
  else
    match d.read ⟨path⟩ with
    | .ok content => .ok content
    | .error fault => .error ("cannot open " ++ path ++ ": " ++ openReason false fault)

def callTool (streams : Streams) (tool : Tool) (args : List String) : StateM Shell Unit := do
  let s ← get
  let (answer, d) := (tool args streams.input).run s.disk
  let s := { s with disk := d, status := answer.status }
  set ((s.print streams.output answer.output).print streams.errors answer.complaints.toUTF8)

/-- The calls that change the shell itself, without those that run commands. -/
def callBuiltin? (name : String) (args : List String) : Option (StateM Shell Flow) :=
  let done (f : Shell → Shell) : Option (StateM Shell Flow) :=
    some (do modify fun s => f { s with status := 0 }; return .next)
  match name with
  | ":" => done id
  | "exit" | "return" => some do
    modify fun s => { s with status := ((args.head?.bind String.toNat?).getD s.status) % 256 }
    return .ended
  | "set" => done fun s =>
    match args with
    | "--" :: args => { s with arguments := args }
    | options =>
      { s with strict := (s.strict || options.contains "-e") && !options.contains "+e" }
  | "shift" => done fun s =>
    { s with arguments := s.arguments.drop ((args.head?.bind String.toNat?).getD 1) }
  | "export" | "readonly" | "local" => done fun s =>
    args.foldl (fun s arg =>
      match Text.cut? ['='] arg.toList with
      | some (name, value) => s.assign (.ofList name) (.ofList value)
      | none => s) s
  | "unset" => done fun s =>
    { s with vars := s.vars.filter fun v => !args.contains v.1 }
  | "cd" => some do
    let s ← get
    match s.disk.locate ⟨args.headD "/"⟩ with
    | .ok l =>
      if s.disk.get? l = some .folder then
        set { s with disk := { s.disk with workingDir := l }, status := 0 }
      else set { s with status := 2 }
    | .error _ => set { s with status := 2 }
    return .next
  | _ => none

mutual

def expandPart (fuel : Nat) (streams : Streams) (part : Part) : StateM Shell String :=
  match fuel with
  | 0 => return ""
  | fuel + 1 =>
    match part with
    | .text cs => return .ofList cs
    | .parameter name => return (← get).parameter name
    | .fallback name source => do
      let value := (← get).parameter name
      if value ≠ "" then return value
      match scanWord (source.length + 3) true (source ++ ['"']) with
      | some (w, _) => return "".intercalate (← expand fuel streams w)
      | none => return .ofList source
    | .output source => do
      let i := (← get).buffers.length
      modify fun s => { s with buffers := s.buffers ++ [.empty] }
      let outer ← get
      let _ ← runSource fuel { streams with output := .buffer i } source
      let s ← get
      set { s.leave outer with buffers := s.buffers.take i }
      return dropLineBreaks (Text.lossy ((s.buffers[i]?).getD .empty))

/-- The words that a word becomes. -/
def expand (fuel : Nat) (streams : Streams) (w : Word) : StateM Shell (List String) :=
  match fuel with
  | 0 => return []
  | fuel + 1 => do
    let fields ← w.foldlM (fun (f : Fields) (piece : Piece) => do
      let s ← get
      let value ← expandPart fuel streams piece.part
      return f.add <|
        match piece.part, piece.quoted with
        | .parameter "@", true => .items s.arguments
        | .text _, _ | _, true => .whole value
        | _, false => .loose value) {}
    return fields.close.closed

/-- The streams behind some redirections, or why one of them fails. -/
def redirect (fuel : Nat) (streams : Streams) (rs : List Redirection) :
    StateM Shell (Except String Streams) :=
  match fuel with
  | 0 => return .ok streams
  | fuel + 1 =>
    rs.foldlM (fun (r : Except String Streams) (redirection : Redirection) => do
      match r with
      | .error e => return .error e
      | .ok streams =>
        let connect (sink : Sink) : Streams :=
          if redirection.stream = 1 then { streams with output := sink }
          else if redirection.stream = 2 then { streams with errors := sink }
          else streams
        match redirection.target with
        | .stream n => return .ok (connect (if n = 2 then streams.errors else streams.output))
        | .create w => do
          let path := " ".intercalate (← expand fuel streams w)
          return (← openSink path false).map connect
        | .append w => do
          let path := " ".intercalate (← expand fuel streams w)
          return (← openSink path true).map connect
        | .read w => do
          let path := " ".intercalate (← expand fuel streams w)
          return (openInput (← get).disk path).map fun content =>
            { streams with input := content }) (.ok streams)

/-- Runs the program or builtin with that name. -/
def call (fuel : Nat) (streams : Streams) (line : Nat) (name : String) (args : List String) :
    StateM Shell Flow :=
  match fuel with
  | 0 => outOfFuel
  | fuel + 1 =>
    match callBuiltin? name args, tools.lookup name with
    | some action, _ => action
    | none, some tool => do
      callTool streams tool args
      return .next
    | none, none =>
      match name, args with
      | "eval", args => runSource fuel streams (" ".intercalate args).toList
      | "exec", program :: args => do
        let _ ← call fuel streams line program args
        return .ended
      | "sh", args => do
        launch fuel streams args
        return .next
      | "npx", args => do
        launch fuel streams ("./npx.sh" :: args)
        return .next
      | _, _ => do
        modify fun s => s.complain streams line (name ++ ": not found") 127
        return .next

/-- A shell of its own, with the arguments of its call. -/
def launch (fuel : Nat) (streams : Streams) (args : List String) : StateM Shell Unit :=
  match fuel with
  | 0 => return
  | fuel + 1 => do
    let outer ← get
    let begin (name : String) (arguments : List String) (source : List Char) :
        StateM Shell Unit := do
      set { outer with
        name := name, arguments := arguments, vars := [], strict := false, status := 0 }
      let _ ← runSource fuel streams source
      modify fun s => s.leave outer
    match args with
    | [] => modify fun s => { s with status := 0 }
    | "-c" :: source :: rest => begin (rest.headD "sh") rest.tail source.toList
    | file :: rest =>
      if file.toList.head? = some '-' then
        let message := "Illegal option " ++ .ofList (file.toList.take 2)
        modify fun s => ({ s with name := "sh" }.complain streams 0 message 2).leave outer
      else
        match openInput outer.disk file with
        | .ok content => begin file rest (Text.lossy content).toList
        | .error message =>
          modify fun s => ({ s with name := "sh" }.complain streams 0 message 2).leave outer

/-- Runs a command. The status of one that is tested never ends the script. -/
def run (fuel : Nat) (streams : Streams) (tested : Bool) (c : Command) : StateM Shell Flow :=
  match fuel with
  | 0 => outOfFuel
  | fuel + 1 =>
    match c with
    | .nothing => return .next
    | .simple line words rs => do
      let assignments := (words.takeWhile Word.isAssignment).filterMap Word.assignment?
      let fields ← (words.drop assignments.length).foldlM (fun fields w => do
        return fields ++ (← expand fuel streams w)) []
      let flow ← match ← redirect fuel streams rs with
        | .error message => do
          modify fun s => s.complain streams line message 2
          pure Flow.next
        | .ok streams => do
          assignments.forM fun (name, value) => do
            let quoted := value.map fun piece => { piece with quoted := true }
            let text := " ".intercalate (← expand fuel streams quoted)
            modify fun s => s.assign (.ofList name) text
          match fields with
          | [] => do
            if !words.any Word.isSubstituted then modify fun s => { s with status := 0 }
            pure Flow.next
          | name :: args => call fuel streams line name args
      let s ← get
      return if s.strict && !tested && s.status ≠ 0 then .ended else flow
    | .redirected line body rs => do
      match ← redirect fuel streams rs with
      | .error message =>
        modify fun s => s.complain streams line message 2
        return .next
      | .ok streams => run fuel streams tested body
    | .sequence first second => do
      match ← run fuel streams tested first with
      | .ended => return .ended
      | .next => run fuel streams tested second
    | .both first second => do
      match ← run fuel streams true first with
      | .ended => return .ended
      | .next => if (← get).status = 0 then run fuel streams tested second else return .next
    | .either first second => do
      match ← run fuel streams true first with
      | .ended => return .ended
      | .next => if (← get).status ≠ 0 then run fuel streams tested second else return .next
    | .negated body => do
      let flow ← run fuel streams true body
      modify fun s => { s with status := if s.status = 0 then 1 else 0 }
      return flow
    | .pipe first second => do
      let outer ← get
      let i := outer.buffers.length
      modify fun s => { s with buffers := s.buffers ++ [.empty] }
      let _ ← run fuel { streams with output := .buffer i } true first
      let s ← get
      set { s.leave outer with buffers := s.buffers.take i }
      let _ ← run fuel { streams with input := (s.buffers[i]?).getD .empty } true second
      modify fun s => s.leave outer
      let s ← get
      return if s.strict && !tested && s.status ≠ 0 then .ended else .next
    | .branch condition yes no => do
      match ← run fuel streams true condition with
      | .ended => return .ended
      | .next =>
        if (← get).status = 0 then run fuel streams tested yes
        else
          modify fun s => { s with status := 0 }
          run fuel streams tested no
    | .repeated expected condition body => do
      match ← run fuel streams true condition with
      | .ended => return .ended
      | .next =>
        if decide ((← get).status = 0) = expected then
          match ← run fuel streams tested body with
          | .ended => return .ended
          | .next => run fuel streams tested (.repeated expected condition body)
        else
          modify fun s => { s with status := 0 }
          return .next
    | .each name words body => do
      let values ← words.foldlM (fun values w => do
        return values ++ (← expand fuel streams w)) []
      values.foldlM (fun flow value => do
        match flow with
        | .ended => return .ended
        | .next =>
          modify fun s => s.assign name value
          run fuel streams tested body) .next
    | .separate body => do
      let outer ← get
      let _ ← run fuel streams tested body
      modify fun s => s.leave outer
      let s ← get
      return if s.strict && !tested && s.status ≠ 0 then .ended else .next

def runSource (fuel : Nat) (streams : Streams) (source : List Char) : StateM Shell Flow :=
  match fuel with
  | 0 => outOfFuel
  | fuel + 1 =>
    match parse? source with
    | some c => run fuel streams false c
    | none => do
      modify fun s => s.complain streams 1 "Syntax error: end of file unexpected" 2
      return .ended

end

/-- What a program left behind. -/
structure Finished where
  status : Nat
  output : ByteArray
  errors : ByteArray

def isProgram (name : String) : Bool :=
  name = "sh" || name = "npx" || (tools.lookup name).isSome

/-- The depth up to which commands are run. -/
def depth : Nat := 10000

/-- Runs a program in a folder and comes back to the working folder of before. -/
def execute (folder : FilePath) (program : String) (args : List String) : Change Fault Finished :=
  fun d =>
    match d.locate folder with
    | .error fault => (.error fault, d)
    | .ok l =>
      match d.get? l with
      | none => (.error .notFound, d)
      | some (.file _) => (.error .notADirectory, d)
      | some .folder =>
        if isProgram program then
          let start : Shell := { disk := { d with workingDir := l } }
          let (_, s) := (call depth {} 0 program args).run start
          let finished : Finished :=
            ⟨s.status, (s.buffers[0]?).getD .empty, (s.buffers[1]?).getD .empty⟩
          (.ok finished, { s.disk with workingDir := d.workingDir })
        else (.error .notFound, d)

end ModBuild.Script
