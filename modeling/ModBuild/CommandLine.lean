import ModBuild.Compiler.Command
import ModBuild.Declarations
import ModBuild.Scaffold
import ModBuild.Watch.Batch

/-!
# The command line

Arguments are read to an invocation, an invocation is performed on a disk, and what there is to tell
goes to the two output streams. Arguments that say nothing end with status 2, a failed task with
status 1.
-/

namespace ModBuild

/-- A builder with the compiler that the settings of the project name. -/
def Builder.ofRoot (d : Disk) (root : FilePath) : Except Failure Builder := do
  let p ← Project.load d root
  return { root := root, compiler := .ofCommand p.settings.compiler }

inductive Invocation
  | init (path : FilePath)
  | build (path : FilePath)
  | declarations (path : FilePath)
  /-- The quiet period is in milliseconds. -/
  | watch (path : FilePath) (quiet : Nat)
  | version
  | help (topic : Option String)
  deriving DecidableEq, Repr

namespace CommandLine

structure Command where
  name : String
  about : String
  quietable : Bool := false
  deriving DecidableEq, Repr

def commands : List Command := [
  { name := "init", about := "Scaffold a new mod (mod.info, pipewrench.json, tsconfig.json, src/)" },
  { name := "watch", about := "Rebuild whenever src/ changes", quietable := true },
  { name := "build", about := "Compile the mod once" },
  { name := "build-declarations",
    about := "Export the mod's type declarations as <out_dir>/<mod_id>.d.ts" }]

def defaultQuiet : Nat := 150

/-- A number of milliseconds, less than 2 to the 64. -/
def quiet? (text : String) : Option Nat :=
  let digits := match text.toList with
    | '+' :: cs => cs
    | cs => cs
  if digits.isEmpty || !digits.all Char.isDigit then none
  else
    let n := digits.foldl (fun n c => 10 * n + (c.toNat - '0'.toNat)) 0
    if n < Nat.pow 2 64 then some n else none

/-- What the arguments of a command have said so far. -/
structure Given where
  path : Option FilePath := none
  quiet : Option Nat := none
  helped : Bool := false
  deriving DecidableEq, Repr

def Given.withPath? (g : Given) (arg : String) : Option Given :=
  if arg = "" || g.path.isSome then none else some { g with path := some ⟨arg⟩ }

def Given.withQuiet? (g : Given) (arg : String) : Option Given :=
  if g.quiet.isSome then none else (quiet? arg).map fun n => { g with quiet := some n }

/-- Whether an argument is an option; a single dash is none. -/
def isOption (arg : String) : Bool := arg.toList.head? = some '-' && arg ≠ "-"

def readArguments (c : Command) : Given → List String → Option Given
  | g, [] => some g
  | g, "--" :: args => args.foldlM Given.withPath? g
  | g, "--debounce" :: args =>
    match args with
    | value :: args =>
      if c.quietable && !isOption value then
        (g.withQuiet? value).bind fun g => readArguments c g args
      else none
    | [] => none
  | g, arg :: args =>
    if arg = "-h" || arg = "--help" then some { g with helped := true }
    else if !isOption arg then (g.withPath? arg).bind fun g => readArguments c g args
    else
      match Text.cut? ['='] arg.toList with
      | some (name, value) =>
        if c.quietable && name = "--debounce".toList then
          (g.withQuiet? (.ofList value)).bind fun g => readArguments c g args
        else none
      | none => none

def invocation (c : Command) (g : Given) : Invocation :=
  let path := g.path.getD ⟨"."⟩
  if g.helped then .help (some c.name)
  else if c.name = "init" then .init path
  else if c.name = "watch" then .watch path (g.quiet.getD defaultQuiet)
  else if c.name = "build" then .build path
  else .declarations path

/-- What the arguments ask for, `none` when they make no sense. -/
def parse? : List String → Option Invocation
  | [] => none
  | arg :: args =>
    if arg = "-V" || arg = "--version" then some .version
    else if arg = "-h" || arg = "--help" then some (.help none)
    else if arg = "help" then
      match args with
      | [] => some (.help none)
      | [topic] => (commands.find? fun c => c.name = topic).map fun c => .help (some c.name)
      | _ => none
    else
      (commands.find? fun c => c.name = arg).bind fun c =>
        (readArguments c {} args).map (invocation c)

def versionText : String := "pipewrench 0.2.0\n"

def about : String := "TypeScriptToLua build tool for Project Zomboid mods"

def column (width : Nat) (name text : String) : String :=
  "  " ++ name ++ .ofList (List.replicate (width - name.length) ' ') ++ text ++ "\n"

def generalHelp : String :=
  about ++ "\n\nUsage: pipewrench <COMMAND>\n\nCommands:\n" ++
    String.join (commands.map fun c => column 20 c.name c.about) ++
    column 20 "help" "Print this message or the help of the given subcommand(s)" ++
    "\nOptions:\n" ++ column 15 "-h, --help" "Print help" ++
    column 15 "-V, --version" "Print version"

def commandHelp (c : Command) : String :=
  let fallback := if c.name = "init" then "" else " [default: .]"
  let options :=
    if c.quietable then
      column 21 "    --debounce <MS>"
          ("Quiet period before a batch of changes is handled, in milliseconds [default: " ++
            Text.decimal defaultQuiet ++ "]") ++
        column 21 "-h, --help" "Print help"
    else column 12 "-h, --help" "Print help"
  c.about ++ "\n\nUsage: pipewrench " ++ c.name ++ (if c.quietable then " [OPTIONS]" else "") ++
    " [PATH]\n\nArguments:\n" ++
    column 8 "[PATH]" ("Project path (default: current directory)" ++ fallback) ++
    "\nOptions:\n" ++ options

def help (topic : Option String) : String :=
  match topic.bind fun name => commands.find? fun c => c.name = name with
  | some c => commandHelp c
  | none => generalHelp

/-- Every line of a cause after the first is moved below it. -/
def indent (first rest text : String) : String :=
  first ++ .ofList (Text.joinWith ('\n' :: rest.toList) (Text.split '\n' text.toList)) ++ "\n"

/-- A failure with its causes, numbered when there are several. -/
def failureText (f : Failure) : String :=
  match f.chain with
  | [] => ""
  | [head] => "Error: " ++ head ++ "\n"
  | [head, cause] => "Error: " ++ head ++ "\n\nCaused by:\n" ++ indent "    " "    " cause
  | head :: causes =>
    let numbered (cause : String) (i : Nat) : String :=
      let digits := Text.decimal i
      indent (.ofList (List.replicate (5 - digits.length) ' ') ++ digits ++ ": ") "       " cause
    "Error: " ++ head ++ "\n\nCaused by:\n" ++ String.join (causes.mapIdx fun i c => numbered c i)

/-- A watch is performed up to the point from which events are awaited. -/
def perform (elapsed : Duration) : Invocation → Task Failure Unit
  | .init path => Scaffold.init path
  | .build path => do
    let b ← Task.look fun d => Builder.ofRoot d path
    let _ ← { b with elapsed := elapsed }.build
  | .declarations path => do
    let p ← Task.look fun d => Project.load d path
    let _ ← Declarations.exportFile p (.ofCommand p.settings.compiler)
  | .watch path _ => do
    let b ← Task.look fun d => Builder.ofRoot d path
    let _ ← Watch.start b
  | .version => Task.record (.notice versionText)
  | .help topic => Task.record (.notice (help topic))

structure Finished where
  status : Nat
  output : String := ""
  errors : String := ""
  disk : Disk

def run (ink : Ink) (elapsed : Duration) (args : List String) (d : Disk) : Finished :=
  match parse? args with
  | none => { status := 2, errors := generalHelp, disk := d }
  | some invocation =>
    let (answer, s) := (perform elapsed invocation).run { disk := d }
    match answer with
    | .ok _ => ⟨0, s.output ink, s.errors ink, s.disk⟩
    | .error f => ⟨1, s.output ink, s.errors ink ++ failureText f, s.disk⟩

end CommandLine

end ModBuild
