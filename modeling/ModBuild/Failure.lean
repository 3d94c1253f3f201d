import ModBuild.Compiler.Basic
import ModBuild.Emission
import ModBuild.Manifest
import ModBuild.Settings.Schema

/-!
# Failures

Why a task ends early. A failure is told as a chain: what could not be done, and its causes.
-/

namespace ModBuild

/-- Why a pass fails once the project is loaded and its files are copied. -/
inductive PassError
  | compiler (error : CompilerError)
  | emission (error : EmissionError)
  | marker (path : FilePath) (fault : Fault)
  deriving DecidableEq, Repr

namespace PassError

def message : PassError → String
  | compiler e => "compilation failed: " ++ e.message
  | emission e => e.message
  | marker path fault =>
    "failed to create entry marker " ++ path.text ++ ": " ++ fault.message

def chain (e : PassError) : List String :=
  match e with
  | compiler cause => e.message :: cause.chain
  | emission cause => cause.chain
  | marker _ fault => [e.message, fault.message]

end PassError

inductive Failure
  | makeFolder (path : FilePath) (fault : Fault)
  | copy (source target : FilePath) (fault : Fault)
  | write (path : FilePath) (fault : Fault)
  | read (path : FilePath) (fault : Fault)
  | remove (path : FilePath) (fault : Fault)
  | walk (top path : FilePath) (fault : Fault)
  | resolve (path : FilePath) (fault : Fault)
  | watch (path : FilePath) (fault : Fault)
  | manifestThere (root : FilePath)
  | manifestMissing (root : FilePath)
  | manifest (error : MissingFields)
  | settings (error : SettingsError)
  | pass (error : PassError)
  | emission (modDir : FilePath) (error : EmissionError)
  | declarations (error : CompilerError)

namespace Failure

def chain : Failure → List String
  | makeFolder path fault => ["Failed to create directory: " ++ path.text, fault.message]
  | copy source target fault =>
    ["Failed to copy " ++ source.text ++ " to " ++ target.text, fault.message]
  | write path fault => ["Failed to write " ++ path.text, fault.message]
  | read path fault => ["Failed to read " ++ path.text, fault.message]
  | remove path fault => ["Failed to remove " ++ path.text, fault.message]
  | walk top path fault =>
    ("Failed to walk " ++ top.text) :: (Fault.unlisted path.text fault.message).chain
  | resolve path fault => ["Failed to resolve " ++ path.text, fault.message]
  | watch path fault => ["Failed to watch " ++ path.text, fault.message]
  | manifestThere root => [Manifest.fileName ++ " already exists in " ++ root.text]
  | manifestMissing root =>
    [Manifest.fileName ++ " not found in " ++ root.text ++ ". Run 'pipewrench init' first."]
  | manifest e => [e.message]
  | settings e => [e.message]
  | pass e => e.chain
  | emission modDir e => ("Failed to emit into " ++ modDir.text) :: e.chain
  | declarations e => "Failed to emit declarations" :: e.chain

/-- The chain on one line. -/
def message (f : Failure) : String := ": ".intercalate f.chain

end Failure

end ModBuild
