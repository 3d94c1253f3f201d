import ModBuild.Compiler.Basic
import ModBuild.Decimal
import ModBuild.Json.Basic
import ModBuild.Script.Shell

/-!
# Compiler commands

A compiler that is a command of the project. It gets a configuration in a staging folder of its own
and writes into that folder; what it wrote is read back and the folder is removed.
-/

namespace ModBuild.Compiler

def tmpDir : FilePath := ⟨"/tmp"⟩

/-- The first staging folder that is not there yet. -/
def freshStaging (d : Disk) : FilePath :=
  let name (n : Nat) : String :=
    "pipewrench-" ++ .ofList (Decimal.padLeft 6 (Nat.toDigits 10 n))
  let candidates := (List.range (d.entries.length + 1)).map fun n => tmpDir.join (name n)
  (candidates.find? fun p => !d.isThere p).getD tmpDir

/-- Runs `body` with a new staging folder that is gone afterwards. -/
def withStaging {α : Type} (body : FilePath → Change CompilerError α) : Change CompilerError α :=
  fun d =>
    let staging := freshStaging d
    match Change.makeFolder staging d with
    | (.error fault, d) => (.error (.staging fault), d)
    | (.ok _, d) =>
      let (answer, d) := body staging d
      (answer, (Change.removeFolder staging d).2)

/-- The configuration that the compiler gets: that of the project with its folders set. -/
def configuration (d : Disk) (r : CompileRequest) (outDir : FilePath) : Json :=
  let text (p : FilePath) : Json := .string (SlashPath.normalize p.text)
  let own := r.projectRoot.join "tsconfig.json"
  let options : Json := .object [
    ("declaration", .bool r.declarations),
    ("outDir", text outDir),
    ("rootDir", text r.srcDir),
    ("rootDirs", .array (r.scopeRoots.map text))]
  let base := if d.isThere own then [("extends", text own)] else []
  .object (("compilerOptions", options) :: base ++ [
    ("include", .array [.string (SlashPath.normalize r.srcDir.text ++ "/**/*")]),
    ("tstl", .object [("luaTarget", .string "5.1")])])

def writeConfiguration (staging : FilePath) (r : CompileRequest) :
    Change CompilerError FilePath := do
  let path := staging.join "tsconfig.json"
  let config := configuration (← get) r (staging.join "out")
  (Change.writeText path config.pretty).adapt .staging
  return path

/-- Runs a command with additional arguments in the folder of the project. -/
def runCommand (command : String) (args : List String) (r : CompileRequest) :
    Change CompilerError Unit := do
  match (Text.words command.toList).map String.ofList with
  | [] => throw .emptyCommand
  | program :: own =>
    let shown := command ++ " " ++ " ".intercalate args
    let finished ← (Script.execute r.projectRoot program (own ++ args)).adapt (.spawn shown)
    if finished.status ≠ 0 then
      let output := Text.lossy finished.output ++ Text.lossy finished.errors
      throw (.failed shown ("exit status: " ++ Text.decimal finished.status)
        (.ofList (Text.trimEnd output.toList)))

def compileWith (command : String) (r : CompileRequest) :
    Change CompilerError (List CompiledUnit) :=
  withStaging fun staging => do
    let config ← writeConfiguration staging r
    runCommand command ["--project", config.text] r
    Change.look fun d => CompiledUnit.collect d (staging.join "out")

/-- The command that declares types, whatever compiles. -/
def declarationCommand : String := "npx tsc"

def declareTypes (r : CompileRequest) : Change CompilerError String :=
  withStaging fun staging => do
    let file := staging.join "declarations.d.ts"
    let config ← writeConfiguration staging r
    runCommand declarationCommand
      ["--declaration", "--emitDeclarationOnly", "--outFile", file.text, "-p", config.text] r
    Change.look fun d =>
      if d.isThere file then (d.readText file).mapError (.unreadable file) else .ok ""

/-- The compiler that a command line of the settings names. -/
def ofCommand (command : String) : Compiler where
  compile := compileWith command
  declarations := declareTypes

end ModBuild.Compiler
