import ModBuild.Pass.Loading
import ModBuild.Session

/-!
# Scaffolding

A new project gets its source folders, a manifest and settings. Nothing that is there already is
overwritten, and a folder that has a manifest is no place for a new project.
-/

namespace ModBuild.Scaffold

def sourceDirs : List String :=
  ["sound", "textures", "models", "scripts", "client", "server", "shared"]

def tsconfigName : String := "tsconfig.json"

/-- The compiler settings of a new project, without its outermost braces. -/
def tsconfigLines : List String := [
  "  \"compilerOptions\": \x7b",
  "    \"target\": \"esnext\",",
  "    \"lib\": [\"esnext\"],",
  "    \"moduleResolution\": \"node\",",
  "    \"types\": [\"@shughesuk/pipewrench\"],",
  "    \"strict\": true",
  "  \x7d,",
  "  \"tstl\": \x7b",
  "    \"luaTarget\": \"5.1\"",
  "  \x7d"]

def tsconfig : String := "\n".intercalate ("\x7b" :: tsconfigLines ++ ["\x7d", ""])

def makeSourceDirs (root : FilePath) : Task Failure Unit :=
  sourceDirs.forM fun name =>
    let dir := (root.join "src").join name
    Task.change (.makeFolder dir) (Change.makeFolders dir)

def welcome (root : FilePath) : String :=
  "✅ Initialized PipeWrench mod in " ++ root.text ++ "\n\nNext steps:\n   edit " ++
    Manifest.fileName ++ "\n   pipewrench build\n"

def init (root : FilePath) : Task Failure Unit := do
  let manifestPath := root.join Manifest.fileName
  if (← Task.disk).isThere manifestPath then throw (.manifestThere root)
  makeSourceDirs root
  Task.change id (Manifest.initial.save manifestPath)
  let settingsPath := root.join Settings.fileName
  if !(← Task.disk).isThere settingsPath then
    Task.change id (({} : Settings).save settingsPath)
  let tsconfigPath := root.join tsconfigName
  if !(← Task.disk).isThere tsconfigPath then
    Task.change (.write tsconfigPath) (Change.writeText tsconfigPath tsconfig)
  Task.record (.notice (welcome root))

end ModBuild.Scaffold
