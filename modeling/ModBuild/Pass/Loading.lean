import ModBuild.Failure
import ModBuild.Project

/-!
# Loading a project

The settings are read first and may be missing; the manifest has to be there.
-/

namespace ModBuild

namespace Settings

def load (d : Disk) (path : FilePath) : Except Failure Settings :=
  if d.isThere path then
    match d.readText path with
    | .ok content => (parse content path.text).mapError .settings
    | .error fault => .error (.read path fault)
  else .ok {}

def save (s : Settings) (path : FilePath) : Change Failure Unit :=
  (Change.writeText path s.text).adapt (.write path)

end Settings

namespace Manifest

def load (d : Disk) (path : FilePath) : Except Failure Manifest :=
  match d.readText path with
  | .ok content => (parse content path.text).mapError .manifest
  | .error fault => .error (.read path fault)

def save (m : Manifest) (path : FilePath) : Change Failure Unit :=
  (Change.writeText path m.text).adapt (.write path)

end Manifest

/-- The project in the folder `root`. -/
def Project.load (d : Disk) (root : FilePath) : Except Failure Project := do
  let settings ← Settings.load d (root.join Settings.fileName)
  let manifestPath := root.join Manifest.fileName
  if d.isThere manifestPath then
    return ⟨root, ← Manifest.load d manifestPath, settings⟩
  else .error (.manifestMissing root)

end ModBuild
