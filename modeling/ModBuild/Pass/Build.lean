import ModBuild.Pass.Assets
import ModBuild.Pass.EntryMarker
import ModBuild.Pass.Loading

/-!
# Build passes

A pass loads the project anew, copies its files, has the sources compiled and writes the units. When
the compiler fails or units collide, nothing is written beyond the copies.
-/

namespace ModBuild

/-- Who builds which project. -/
structure Builder where
  root : FilePath
  compiler : Compiler
  /-- How long a pass takes, as it is measured outside. -/
  elapsed : Duration := {}

namespace Builder

def request (p : Project) (declarations : Bool) : CompileRequest where
  projectRoot := p.root
  srcDir := p.srcDir
  scopeRoots := [Scope.shared, .client, .server].map p.scopeSource
  declarations := declarations

def emission (p : Project) : Emission := ⟨p.layout, p.template⟩

/-- The four copies, with the number of files and the warnings; files of folders are copied by `copy`. -/
def copyAllBy {m : Type → Type} [Monad m] [MonadExceptOf Failure m] [MonadLiftT (Task Failure) m]
    (copy : FilePath → FilePath → m Unit) (p : Project) : m (Nat × List Diagnostic) := do
  Assets.copyManifest p
  let loose ← Assets.copyScopeFilesBy copy p
  let assets ← Assets.copyAssetDirsBy copy p
  let warnings ← Assets.copyRuntimeLibraries p
  return (loose + assets, warnings)

def copyAll (p : Project) : Task Failure (Nat × List Diagnostic) := copyAllBy Assets.copyFile p

/-- The compiler runs between placing the entry markers and taking them away. -/
def compile (b : Builder) (p : Project) : Task Failure (List CompiledUnit) := do
  let markers ← Task.change .pass (EntryMarker.place p.srcDir)
  Task.record (.called (request p false) (← Task.disk))
  let answer ← Task.result (b.compiler.compile (request p false))
  Task.change .pass (EntryMarker.lift markers)
  match answer with
  | .ok units => return units
  | .error e => throw (.pass (.compiler e))

/-- Units that cannot be written are reported before the pass fails. -/
def emit (p : Project) (r : PassReport) (units : List CompiledUnit) : Task Failure PassReport := do
  match ← Task.result ((emission p).emit units) with
  | .ok outcomes => return r.record units outcomes
  | .error e =>
    Task.record (.report (r.report.add e.diagnostic?.toList))
    throw (.emission p.layout.modDir e)

def build (b : Builder) : Task Failure PassReport := do
  let p ← Task.look fun d => Project.load d b.root
  Task.status .compiler .success "Compiling project.."
  let (copied, missing) ← copyAll p
  let warnings := p.manifest.lint p.manifestPath.text ++ missing
  let r : PassReport := { copied := copied, report := { diagnostics := warnings } }
  let r ← emit p r (← b.compile p)
  Task.record (.report r.report)
  let r := { r with elapsed := b.elapsed }
  Task.status .compiler .success r.summary
  return r

end Builder

end ModBuild
