import ModBuild.Declarations
import ModBuild.Scaffold
import ModBuild.Watch.Batch
import ModBuild.Script.Basic
import ModBuild.Script.Token
import ModBuild.Script.Parser
import ModBuild.Script.Shell
import ModBuild.Compiler.Command
import ModBuild.CommandLine
import ModBuild.Main
import ModBuild.Proofs.Text.Cut
import ModBuild.Proofs.Reference.Grammar
import ModBuild.Proofs.Text.Lines
import ModBuild.Proofs.Rebinding.Rendering
import ModBuild.Proofs.Rebinding.Nesting
import ModBuild.Proofs.Path.Segment
import ModBuild.Proofs.Path.Components
import ModBuild.Proofs.Disk.Location
import ModBuild.Proofs.Disk.Frame
import ModBuild.Proofs.Layout.Placement
import ModBuild.Proofs.Emission.Collision
import ModBuild.Proofs.Emission.Batch
import ModBuild.Proofs.Path.Normalize
import ModBuild.Proofs.Path.Canonical
import ModBuild.Proofs.Reference.ModulePath
import ModBuild.Proofs.Reference.Agreement
import ModBuild.Proofs.Emission.FirstCollision
import ModBuild.Proofs.Layout.Sharing
import ModBuild.Proofs.Emission.Schedule
import ModBuild.Proofs.Run
import ModBuild.Proofs.Session.Calls
import ModBuild.Proofs.Pass.Calls
import ModBuild.Proofs.Watch.Rebuild
import ModBuild.Proofs.Pass.Build
import ModBuild.Proofs.Watch.Coalescing
import ModBuild.Proofs.Path.Relative
import ModBuild.Proofs.Watch.Removal
import ModBuild.Proofs.Watch.Marker
import ModBuild.Proofs.Watch.Confinement
import ModBuild.Proofs.Watch.Copying
import ModBuild.Proofs.Manifest.RoundTrip
import ModBuild.Proofs.Manifest.Reading
import ModBuild.Proofs.Pass.Marker
import ModBuild.Proofs.Pass.Failure
import ModBuild.Proofs.Pass.Keeping
import ModBuild.Proofs.Pass.Outside
import ModBuild.Proofs.Pass.Output
import ModBuild.Proofs.Pass.Quoting
import ModBuild.Proofs.Declarations.Closure
import ModBuild.Proofs.Declarations.Lines
import ModBuild.Proofs.Declarations.Export
import ModBuild.Proofs.Settings.Validation
import ModBuild.Proofs.Settings.RoundTrip
import ModBuild.Proofs.Reference.Idempotence
import ModBuild.Proofs.Reference.Decoding
import ModBuild.Proofs.Rebinding.Bridge
import ModBuild.Proofs.Rebinding.Stability
import ModBuild.Proofs.Rebinding.Return
import ModBuild.Proofs.Layout.Scoping
import ModBuild.Proofs.Compiler.Collection
import ModBuild.Proofs.Pass.Accounting
import ModBuild.Proofs.Scaffold
