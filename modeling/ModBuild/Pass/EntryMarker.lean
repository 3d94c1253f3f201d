import ModBuild.Failure

/-!
# Entry markers

The compiler wants a source in every scope folder. While it runs, an empty marker stands in each
folder that has none of that name. Only markers that were placed are taken away again, and when one
cannot be placed those before it are.
-/

namespace ModBuild.EntryMarker

def fileName : String := "_.ts"

/-- Takes away what `place` has placed. -/
def lift : List FilePath → Change PassError Unit
  | [] => pure ()
  | p :: ps => fun d => lift ps (Change.removeFile p d).2

/-- Goes on with the folder of `s`, after the markers `placed`. -/
def placeNext (src : FilePath) (placed : List FilePath) (s : Scope) :
    Change PassError (List FilePath) := fun d =>
  let folder := src.join (s.folder?.getD "")
  let path := folder.join fileName
  if !d.isFolder folder || d.isThere path then (.ok placed, d)
  else
    match Change.write path .empty d with
    | (.ok _, d) => (.ok (placed ++ [path]), d)
    | (.error fault, d) => (.error (.marker path fault), (lift placed d).2)

/-- The markers that were placed. -/
def place (src : FilePath) : Change PassError (List FilePath) :=
  Scope.owners.foldlM (placeNext src) []

end ModBuild.EntryMarker
