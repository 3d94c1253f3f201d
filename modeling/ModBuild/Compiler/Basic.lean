import ModBuild.Disk.Change
import ModBuild.Unit

/-!
# The compiler

A compiler turns the sources of a project into Lua units, or into one text with the type
declarations. It may do to the disk what it likes.
-/

namespace ModBuild

structure CompileRequest where
  projectRoot : FilePath
  /-- Unit paths are relative to this folder. -/
  srcDir : FilePath
  /-- The scope folders, read as one namespace of modules. -/
  scopeRoots : List FilePath
  declarations : Bool
  deriving DecidableEq, Repr

inductive CompilerError
  | emptyCommand
  | spawn (command : String) (fault : Fault)
  | failed (command status output : String)
  | staging (fault : Fault)
  | unreadable (path : FilePath) (fault : Fault)
  deriving DecidableEq, Repr

namespace CompilerError

def message : CompilerError → String
  | emptyCommand => "no compiler command configured"
  | spawn command fault => "failed to run `" ++ command ++ "`: " ++ fault.message
  | failed command status output =>
    "`" ++ command ++ "` exited with " ++ status ++ "\n" ++ output
  | staging fault => "failed to prepare compiler staging directory: " ++ fault.message
  | unreadable path fault =>
    "failed to read compiler output " ++ path.text ++ ": " ++ fault.message

/-- The message and its causes. -/
def chain (e : CompilerError) : List String :=
  match e with
  | emptyCommand | failed _ _ _ => [e.message]
  | spawn _ fault | staging fault | unreadable _ fault => e.message :: fault.chain

end CompilerError

structure Compiler where
  compile : CompileRequest → Change CompilerError (List CompiledUnit)
  declarations : CompileRequest → Change CompilerError String

/-- The files below the output folder of a compiler, in order; there need not be one. -/
def CompiledUnit.collect (d : Disk) (outDir : FilePath) :
    Except CompilerError (List CompiledUnit) :=
  if d.isThere outDir then
    (d.walk outDir).mapM fun
      | .error (p, fault) => .error (.unreadable p (.unlisted p.text fault.message))
      | .ok p =>
        match d.readText p with
        | .ok text => .ok (.ofPath ((outDir.relativeTo? p).getD p).text text)
        | .error fault => .error (.unreadable p fault)
  else .ok []

end ModBuild
