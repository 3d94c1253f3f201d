import ModBuild.Diagnostic.Ink

/-!
# Console lines

Progress is told in lines that start with the stage they belong to.
-/

namespace ModBuild

inductive Stage
  | compiler
  | watcher
  deriving DecidableEq, Repr

inductive Tone
  /-- One file. -/
  | info
  /-- Start and end of a pass. -/
  | success
  | warn
  deriving DecidableEq, Repr

def Stage.label (ink : Ink) : Stage → String
  | compiler => Style.paint ink { bold := true, color := some .cyan } "[COMPILER]"
  | watcher => Style.paint ink { bold := true, color := some .magenta } "[WATCHER]"

def Tone.style : Tone → Style
  | info => { color := some .gray }
  | success => { color := some .brightGreen }
  | warn => { color := some .yellow }

def statusLine (ink : Ink) (s : Stage) (t : Tone) (message : String) : String :=
  s.label ink ++ " " ++ t.style.paint ink message ++ "\n"

end ModBuild
