import ModBuild.Layout
import ModBuild.Manifest
import ModBuild.Settings.Basic

/-!
# Projects

A project is a folder with a manifest and settings. Everything that a pass reads or writes has its
place relative to that folder.
-/

namespace ModBuild

structure Project where
  root : FilePath
  manifest : Manifest
  settings : Settings
  deriving DecidableEq, Repr

namespace Project

def manifestPath (p : Project) : FilePath := p.root.join Manifest.fileName

def srcDir (p : Project) : FilePath := p.root.join "src"

def outDir (p : Project) : FilePath := p.root.join p.settings.outDir

def layout (p : Project) : Layout :=
  { Layout.ofMod p.outDir p.manifest.id with externalDir := p.settings.externalModuleDir }

def template (p : Project) : Rebinding.Template := p.settings.template

/-- The source folder of a scope. -/
def scopeSource (p : Project) (s : Scope) : FilePath := p.srcDir.join (s.folder?.getD "")

/-- The folders with assets, each with the name of its folder below `media`. -/
def assetDirs (p : Project) : List (FilePath × String) := [
  (p.root.join p.settings.modelsDir, "models"),
  (p.root.join p.settings.texturesDir, "textures"),
  (p.root.join p.settings.soundDir, "sound"),
  (p.root.join p.settings.scriptsDir, "scripts")]

def runtimeLibraries (p : Project) : List FilePath := p.settings.runtimeLibraries.map p.root.join

/-- The file with the type declarations of the mod. -/
def declarationFile (p : Project) : FilePath := p.outDir.join (p.manifest.id ++ ".d.ts")

end Project

end ModBuild
